import Vcli.Daemon.Materialize
import Vcli.Daemon.Mirror
import Vcli.Runtime.Discipline

/-! Resuming and the eligibility of what is resumed. The store leaves the rule to the handler,
and the handler does not look. -/

namespace Vcli

open Transducer

def Program.Declares (program : Program) (predicate : PredicateKind) : Prop :=
  (∃ name : String, program.predicates[name]? = some predicate) ∨
    ∃ w ∈ program.watches, w.when_ = .inline predicate

/-- What the documentation of `resume_program` leaves to its caller to decide of a program. -/
structure Program.Eligible (program : Program) : Prop where
  unwatched : program.watches = []
  timeless : ∀ child ms, ¬ program.Declares (.elapsedMsSinceTrue child ms)
  sleepless : ∀ ms, .sleepMs ms ∉ program.body ∧ ∀ w ∈ program.watches, .sleepMs ms ∉ w.steps

section Granting
variable {α : Type} (L : Loader α)

def Loader.program (sourceJson : String) : Option Program :=
  match L.fromStr sourceJson with
  | .error _ => none
  | .ok value => (L.validateValue value).toOption

def Grants (s : Store α) (p : ProgramId) (fromStart : Bool) (nowMs : UnixMs) : Prop :=
  ∃ out, (resumeLocked L s p fromStart nowMs).1 = .ok out

def EligibleIn (s : Store α) (p : ProgramId) : Prop :=
  ∃ row program, s.row p = some row ∧ L.program row.sourceJson = some program ∧ program.Eligible

def SparesIneligible (s : Store α) (p : ProgramId) (nowMs : UnixMs) : Prop :=
  ∀ row program, s.row p = some row → row.resumable = true →
    L.program row.sourceJson = some program →
    (∃ out, (L.materialize s.assets program none nowMs).1 = .ok out) → program.Eligible

variable {L} {s : Store α} {p : ProgramId} {nowMs : UnixMs}

theorem loadSource_program (a : α) (nowMs : UnixMs) {sourceJson : String} {program : Program}
    (h : L.program sourceJson = some program) :
    (loadSource L a sourceJson nowMs).1 =
      (L.materialize a program none nowMs).1.map fun r => (r.1, r.2.bytes) := by
  unfold Loader.program at h
  cases hvalue : L.fromStr sourceJson with
  | error e =>
    rw [hvalue] at h
    exact nomatch h
  | ok value =>
    rw [hvalue] at h
    dsimp only at h
    cases hvalid : L.validateValue value with
    | error e =>
      rw [hvalid] at h
      exact nomatch h
    | ok program' =>
      rw [hvalid] at h
      obtain rfl : program' = program := Option.some.inj h
      simp only [loadSource, hvalue, hvalid]
      rcases L.materialize a program' none nowMs with ⟨_ | _, a'⟩ <;> rfl

theorem loadSource_none (a : α) (nowMs : UnixMs) {sourceJson : String}
    (h : L.program sourceJson = none) :
    ∃ e, (loadSource L a sourceJson nowMs).1 = .error e := by
  unfold Loader.program at h
  unfold loadSource
  cases hvalue : L.fromStr sourceJson with
  | error e => exact ⟨_, rfl⟩
  | ok value =>
    rw [hvalue] at h
    dsimp only at h ⊢
    cases hvalid : L.validateValue value with
    | error e => exact ⟨_, rfl⟩
    | ok program =>
      rw [hvalid] at h
      exact nomatch h

theorem materialize_of_resumed {fromStart : Bool} {out : ResumeOutcome} {program' : Program}
    {assets : Assets} (h : (resumeLocked L s p fromStart nowMs).1 = .ok (out, program', assets)) :
    ∃ row program, s.row p = some row ∧ row.resumable = true ∧
      L.program row.sourceJson = some program ∧
      ∃ materialized,
        (L.materialize s.assets program none nowMs).1 = .ok (program', materialized) := by
  by_cases hany : ∃ row, s.row p = some row ∧ row.resumable = true
  · obtain ⟨row, hrow, hres⟩ := hany
    have hresumed := resumeLocked_resumable (L := L) fromStart nowMs hrow hres
    dsimp only at hresumed
    rw [hresumed] at h
    dsimp only at h
    cases hprogram : L.program row.sourceJson with
    | none =>
      obtain ⟨e, he⟩ := loadSource_none s.assets nowMs hprogram
      rw [he] at h
      exact nomatch h
    | some program =>
      rw [loadSource_program _ _ hprogram] at h
      refine ⟨row, program, hrow, hres, hprogram, ?_⟩
      cases hmat : (L.materialize s.assets program none nowMs).1 with
      | error e =>
        rw [hmat] at h
        exact nomatch h
      | ok loaded =>
        rw [hmat] at h
        have hloaded : loaded.1 = program' := congrArg (fun x => x.2.1) (Except.ok.inj h)
        exact ⟨loaded.2, by rw [← hloaded]⟩
  · obtain ⟨e, hrefused⟩ := resumeLocked_refused (L := L) fromStart nowMs
      fun row hrow hres => hany ⟨row, hrow, hres⟩
    rw [hrefused] at h
    exact nomatch h

/-- All that a resume needs; the shape of the program is not a part of it. -/
theorem grants_iff (fromStart : Bool) :
    Grants L s p fromStart nowMs ↔
      ∃ row program, s.row p = some row ∧ row.resumable = true ∧
        L.program row.sourceJson = some program ∧
        ∃ out, (L.materialize s.assets program none nowMs).1 = .ok out := by
  constructor
  · rintro ⟨⟨out, program', assets⟩, hout⟩
    obtain ⟨row, program, hrow, hres, hprogram, materialized, hmat⟩ := materialize_of_resumed hout
    exact ⟨row, program, hrow, hres, hprogram, _, hmat⟩
  · rintro ⟨row, program, hrow, hres, hprogram, loaded, hmat⟩
    have hresumed := resumeLocked_resumable (L := L) fromStart nowMs hrow hres
    dsimp only at hresumed
    rw [Grants, hresumed, loadSource_program _ _ hprogram, hmat]
    exact ⟨_, rfl⟩

theorem grants_only_eligible_iff (fromStart : Bool) :
    (Grants L s p fromStart nowMs → EligibleIn L s p) ↔ SparesIneligible L s p nowMs := by
  rw [grants_iff]
  constructor
  · intro h row program hrow hres hprogram hmat
    obtain ⟨row', program', hrow', hprogram', heligible⟩ :=
      h ⟨row, program, hrow, hres, hprogram, hmat⟩
    obtain rfl := Option.some.inj (hrow.symm.trans hrow')
    obtain rfl := Option.some.inj (hprogram.symm.trans hprogram')
    exact heligible
  · rintro h ⟨row, program, hrow, hres, hprogram, hmat⟩
    exact ⟨row, program, hrow, hprogram, h row program hrow hres hprogram hmat⟩

end Granting

theorem materialize_unwatched {disk : Disk} {a a' : AssetStore} {program program' : Program}
    {baseDir : Option String} {nowMs : UnixMs} {out : MaterializedAssets}
    (h : materializeTemplateAssets disk a program baseDir nowMs = (.ok (program', out), a'))
    (hw : program.watches = []) : program'.watches = [] := by
  unfold materializeTemplateAssets at h
  cases hrun : materializeProgram disk baseDir nowMs program (a, ⟨∅, []⟩) with
  | error e => exact e.elim
  | ok r =>
    rw [hrun] at h
    have hret : Fallible.Returns (materializeProgram disk baseDir nowMs program) (a, ⟨∅, []⟩)
        r.1 r.2 := hrun
    obtain ⟨e, _, he⟩ | ⟨predicates, s₁, _, hret⟩ := Fallible.returns_bind.mp hret
    · dsimp only at h
      rw [he] at h
      exact nomatch h
    rw [hw] at hret
    obtain ⟨e, hnone, _⟩ | ⟨watches, s₂, hwatches, hret⟩ := Fallible.returns_bind.mp hret
    · exact nomatch (Fallible.returns_pure.mp hnone).1
    · obtain rfl := Except.ok.inj (Fallible.returns_pure.mp hwatches).1
      dsimp only at h
      rw [(Fallible.returns_pure.mp hret).1] at h
      have hprogram := congrArg Prod.fst (Except.ok.inj (congrArg Prod.fst h))
      rw [← show _ = program' from hprogram]

section Firing
variable {σ τ : Type} {B : Backends σ τ} {p : ProgramId} {rp : RunningProgram}

theorem tickProgram_unwatched (tk : Tick) (sur : Surroundings σ τ) (loser : Option ProgramId)
    (hw : rp.program.watches = []) :
    ∀ x ∈ (tickProgram B tk p sur loser rp).2, x.2.firedWatch = none := by
  have htrig := silentAll_triggerPart B tk p rp sur.trigger
  have hprog := triggerPart_program B tk p rp sur.trigger
  unfold tickProgram
  generalize triggerPart B tk p sur.trigger rp = t at htrig hprog ⊢
  dsimp only
  have heval : (evalProgram B tk p t.1 sur.eval).1.seen = [] ∧
      (evalProgram B tk p t.1 sur.eval).1.fires = [] := by
    simp only [evalProgram, hprog, hw]
    exact ⟨rfl, rfl⟩
  split_ifs
  · intro x hx
    rcases List.mem_append.mp hx with hx | hx
    · exact (htrig x hx).2.1
    rcases List.mem_append.mp hx with hx | hx
    · rw [heval.1] at hx
      exact absurd hx List.not_mem_nil
    rcases List.mem_append.mp hx with hx | hx
    · rw [firePart_nil B tk p sur.fire t.1 loser heval.2] at hx
      exact absurd hx List.not_mem_nil
    · exact (silentAll_bodyProgram B tk p _ _ x hx).2.1
  · exact fun x hx => (htrig x hx).2.1

def Unwatched (v : Option RunningProgram) : Prop := ∀ rp, v = some rp → rp.program.watches = []

def SchedulerCommand.Brings (c : SchedulerCommand) (p : ProgramId) (program : Program) : Prop :=
  (∃ assets, c = .submitValidated p program assets) ∨
    ∃ fromStep assets, c = .resumeRunning p fromStep program assets

theorem SchedulerCommand.Brings.inserts {c : SchedulerCommand} {program : Program}
    (h : c.Brings p program) : c.inserts p := by
  rcases h with ⟨_, rfl⟩ | ⟨_, _, rfl⟩
  · rfl
  · rfl

def Input.Brings (p : ProgramId) (program : Program) : Input → Prop
  | .command c _ => c.Brings p program
  | .tick _ => False

theorem localStep_unwatched {v : Option RunningProgram} {a : LocalInput σ τ} (h : Unwatched v)
    (hi : ∀ program, a.input.Brings p program → program.watches = []) :
    Unwatched (localStep B p v a).1 ∧ ∀ m ∈ (localStep B p v a).2, m.obs.firedWatch = none := by
  have hmove := localStep_move (B := B) (p := p) v a
  generalize localStep B p v a = r at hmove ⊢
  cases hmove with
  | idle => exact ⟨h, fun m hm => absurd hm List.not_mem_nil⟩
  | submitted program assets nowMs ha =>
    refine ⟨fun rp hrp => ?_, by simp [Obs.firedWatch]⟩
    rw [← Option.some.inj hrp]
    exact hi program (ha ▸ .inl ⟨assets, rfl⟩)
  | resumed fromStep program assets nowMs ha =>
    refine ⟨fun rp hrp => ?_, by simp [Obs.firedWatch]⟩
    rw [← Option.some.inj hrp]
    exact hi program (ha ▸ .inr ⟨fromStep, assets, rfl⟩)
  | cancelled rp _ _ hv | started rp _ hv =>
    refine ⟨fun rp' hrp' => ?_, by simp [Obs.firedWatch]⟩
    rw [← Option.some.inj hrp']
    exact h rp hv
  | ticked rp t frame hv =>
    constructor
    · intro rp' hrp'
      rw [← Option.some.inj hrp', (tickProgram_frame B ⟨frame, t.nowMs⟩ p rp a.sur a.loser).1]
      exact h rp hv
    · intro m hm
      obtain ⟨x, hx, rfl⟩ := List.mem_map.mp hm
      exact tickProgram_unwatched _ a.sur a.loser (h rp hv) x hx

theorem Scheduler.step_unwatched {s : Scheduler σ τ} {i : Input}
    (h : Unwatched (s.programs.lookup p))
    (hi : ∀ program, i.Brings p program → program.watches = []) :
    Unwatched ((step B s i).1.programs.lookup p) ∧
      ∀ m ∈ (step B s i).2, ∀ idx predicate, m.obs ≠ .emitted (.watchFired p idx predicate) := by
  obtain ⟨a, rfl, hlook, htrace⟩ := step_project (B := B) (s := s) (p := p) i
  obtain ⟨hkept, hquiet⟩ := localStep_unwatched (B := B) h hi
  rw [hlook]
  refine ⟨hkept, ?_⟩
  intro m hm idx predicate hobs
  have hmem : m.of p ∈ (localStep B p (s.programs.lookup p) a).2 := by
    rw [← htrace]
    exact mem_traceOf.mpr ⟨m, hm, by rw [hobs]; rfl, rfl⟩
  have hnone := hquiet _ hmem
  rw [show (m.of p).obs = m.obs from rfl, hobs] at hnone
  exact nomatch hnone

end Firing

namespace Daemon

variable {σ τ α : Type} {B : Backends σ τ} {p : ProgramId}

structure Calm (p : ProgramId) (d : Daemon σ τ α) : Prop where
  held : Unwatched (d.sched.programs.lookup p)
  awaited : ∀ c ∈ d.pending, ∀ program, c.Brings p program → program.watches = []

def Unfired (p : ProgramId) (outs : List Notice) : Prop :=
  ∀ m, .observed m ∈ outs → ∀ idx predicate, m.obs ≠ .emitted (.watchFired p idx predicate)

theorem unfired_of_quiet {outs : List Notice} (h : ∀ o ∈ outs, o.observation = none) :
    Unfired p outs := fun m hm => nomatch h (.observed m) hm

theorem unfired_nil : Unfired p [] := fun _ hm => absurd hm List.not_mem_nil

theorem Calm.frame {d d' : Daemon σ τ α} (h : Calm p d) (hsched : d'.sched = d.sched)
    (hpending : ∀ c ∈ d'.pending, c ∈ d.pending ∨ ∀ program, c.Brings p program →
      program.watches = []) : Calm p d' := by
  refine ⟨hsched ▸ h.held, ?_⟩
  intro c hc
  exact (hpending c hc).elim (h.awaited c) id

theorem Takes.brings {d : Daemon σ τ α} {i : Input} {cmds : List SchedulerCommand}
    (h : d.Takes i cmds) :
    (∀ program, i.Brings p program → ∃ c ∈ d.pending, c.Brings p program) ∧
      ∀ c ∈ cmds, c ∈ d.cmds := by
  cases h with
  | tick t => exact ⟨fun _ => False.elim, fun _ => id⟩
  | @command c rest nowMs hcmds =>
    refine ⟨fun program hc => ⟨c, ?_, hc⟩, fun x hx => hcmds ▸ List.mem_cons_of_mem _ hx⟩
    exact List.mem_append_left _ (hcmds ▸ List.mem_cons_self)

theorem Calm.effect {d d' : Daemon σ τ α} (h : Calm p d) {who : ProgramId → Prop}
    {outs : List Notice} (hwho : ¬ who p) (he : Effect B d who d' outs) :
    Calm p d' ∧ Unfired p outs := by
  cases he with
  | restarted L nowMs env all => exact absurd (all p) hwho
  | scheduled stamps running ht =>
    obtain ⟨hbrings, hless⟩ := ht.brings (p := p)
    obtain ⟨hheld, hquiet⟩ := Scheduler.step_unwatched (B := B) h.held fun program hi => by
      obtain ⟨c, hc, hcb⟩ := hbrings program hi
      exact h.awaited c hc program hcb
    refine ⟨⟨hheld, ?_⟩, ?_⟩
    · intro c hc
      refine h.awaited c ?_
      rcases List.mem_append.mp hc with hc | hc
      · exact List.mem_append_left _ (hless c hc)
      · exact List.mem_append_right _ hc
    · intro m hm
      obtain ⟨m', hm', heq⟩ := List.mem_map.mp hm
      exact hquiet m (Notice.observed.inj heq ▸ hm')
  | pumped hev => exact ⟨h.frame rfl fun _ hc => .inl hc, unfired_nil⟩
  | stopped hcmds =>
    refine ⟨h.frame rfl fun c hc => .inl ?_, unfired_nil⟩
    rw [pending, hcmds]
    exact List.mem_cons_of_mem _ hc
  | moved same accepted kept quiet =>
    exact ⟨h.frame rfl fun c hc => .inl (same.mem_iff.mp hc), unfired_of_quiet quiet⟩
  | dropped gone refused quiet =>
    refine ⟨h.frame rfl fun c hc => .inl (mem_pending_eraseIdx hc), unfired_of_quiet ?_⟩
    intro o ho
    rwa [List.mem_singleton.mp ho]
  | posted hc =>
    refine ⟨h.frame rfl ?_, unfired_nil⟩
    intro x hx
    refine (mem_pending_append.mp hx).imp_right fun he program hb => ?_
    rw [List.mem_singleton.mp he] at hb
    -- what a client posts besides submits and resumes brings no program
    exact absurd (SchedulerCommand.Brings.inserts hb) (hc p)
  | refused rows =>
    refine ⟨h.frame rfl fun _ hc => .inl hc, unfired_of_quiet ?_⟩
    intro o ho
    rw [List.mem_singleton.mp ho]
    rfl
  | collected rows announced quiet =>
    exact ⟨h.frame rfl fun _ hc => .inl hc, unfired_of_quiet fun o ho => (quiet o ho).1⟩
  | @submitted store q row program assets asked absent present state cursor code rows =>
    refine ⟨h.frame rfl ?_, unfired_nil⟩
    intro x hx
    refine (mem_pending_append.mp hx).imp_right fun he program' hb => ?_
    rw [List.mem_singleton.mp he] at hb
    -- the command is for the program that was asked about, and this is not `p`
    obtain rfl : q = p := SchedulerCommand.Brings.inserts hb
    exact absurd asked hwho
  | @resumed store q row cursor nowMs _ cs asked resumable from_ present rows sends =>
    constructor
    · refine h.frame rfl ?_
      intro x hx
      refine (mem_pending_append.mp hx).imp_right fun he program' hb => ?_
      rcases sends with ⟨rfl, _⟩ | ⟨_, program, assets, rfl⟩
      · exact absurd he List.not_mem_nil
      · rw [List.mem_singleton.mp he] at hb
        obtain rfl : q = p := SchedulerCommand.Brings.inserts hb
        exact absurd asked hwho
    · apply unfired_of_quiet
      intro o ho
      rcases sends with ⟨_, e, rfl⟩ | ⟨rfl, _⟩
      · rw [List.mem_singleton.mp ho]
        rfl
      · exact absurd ho List.not_mem_nil

theorem startup_calm (L : Loader α) (nowMs : UnixMs) (env : Env σ τ) {image : Store α}
    (hidle : ∀ row, image.row p = some row → row.state ≠ .waiting) :
    Calm p (startup L nowMs env image) := by
  constructor
  · intro rp hrp
    exact nomatch (AList.lookup_empty p).symm.trans hrp
  · intro c hc program hb
    obtain ⟨row, hrow, hstate⟩ := startup_awaited ⟨c, hc, SchedulerCommand.Brings.inserts hb⟩
    have hrec : (image.row p).map ProgramRow.recovered = some row := row_recover.symm.trans hrow
    obtain ⟨row₀, hrow₀, rfl⟩ := Option.map_eq_some_iff.mp hrec
    unfold ProgramRow.recovered at hstate
    split_ifs at hstate
    exact absurd hstate (hidle row₀ hrow₀)

/-- An input by which only a resume can put the program into the scheduler, and a resume spares
what is not eligible: a submit finds the id taken, and a restart does not find a waiting row. -/
def Admits (p : ProgramId) (d : Daemon σ τ AssetStore) : DaemonInput σ τ AssetStore → Prop
  | .request L _ freshId (.submit programJson _) =>
    (∃ program, L.validateValue programJson = .ok program ∧ program.id.getD freshId = p) →
      d.store.row p ≠ none
  | .request L nowMs _ (.resume q _) => q = p →
    (∃ disk fromStr validateValue canonical,
      L = Loader.daemon disk fromStr validateValue canonical) ∧ SparesIneligible L d.store p nowMs
  | .restart .. => ∀ row, d.store.row p = some row → row.state ≠ .waiting
  | _ => True

theorem Calm.submit {d : Daemon σ τ AssetStore} (h : Calm p d) {L : Loader AssetStore}
    {nowMs : UnixMs} {freshId : ProgramId} {programJson : Json} {baseDir : Option String}
    {program : Program} (hprogram : L.validateValue programJson = .ok program)
    (hid : program.id.getD freshId = p) (htaken : d.store.row p ≠ none) :
    Calm p (d.request L nowMs freshId (.submit programJson baseDir)).1 ∧
      Unfired p (d.request L nowMs freshId (.submit programJson baseDir)).2 := by
  simp only [request, hprogram, hid]
  rcases submitLocked_cases (L := L) (s := d.store) p program baseDir nowMs with
    ⟨row, hnone, _⟩ | ⟨⟨e, he⟩, _⟩
  · exact absurd hnone htaken
  · rw [he]
    refine ⟨h.frame rfl fun _ hc => .inl hc, unfired_of_quiet ?_⟩
    intro o ho
    rw [List.mem_singleton.mp ho]
    rfl

theorem Calm.resume {d : Daemon σ τ AssetStore} (h : Calm p d) {L : Loader AssetStore}
    {nowMs : UnixMs} {freshId : ProgramId} {fromStart : Bool}
    (hspares : (∃ disk fromStr validateValue canonical,
      L = Loader.daemon disk fromStr validateValue canonical) ∧
        SparesIneligible L d.store p nowMs) :
    Calm p (d.request L nowMs freshId (.resume p fromStart)).1 ∧
      Unfired p (d.request L nowMs freshId (.resume p fromStart)).2 := by
  simp only [request]
  cases hr : (resumeLocked L d.store p fromStart nowMs).1 with
  | error e =>
    refine ⟨h.frame rfl fun _ hc => .inl hc, unfired_of_quiet ?_⟩
    intro o ho
    rw [List.mem_singleton.mp ho]
    rfl
  | ok x =>
    obtain ⟨out, program, assets⟩ := x
    refine ⟨h.frame rfl ?_, unfired_nil⟩
    intro c hc
    refine (mem_pending_append.mp hc).imp_right fun he program' hb => ?_
    rw [List.mem_singleton.mp he] at hb
    obtain rfl : program = program' := by
      rcases hb with ⟨_, hb⟩ | ⟨_, _, hb⟩
      · cases hb
      · exact (SchedulerCommand.resumeRunning.inj hb).2.2.1
    obtain ⟨row, stored, hrow, hres, hstored, materialized, hmat⟩ := materialize_of_resumed hr
    obtain ⟨⟨disk, fromStr, validateValue, canonical, rfl⟩, hspares⟩ := hspares
    have heligible := hspares row stored hrow hres hstored ⟨_, hmat⟩
    exact materialize_unwatched (Prod.ext hmat rfl) heligible.unwatched

theorem Calm.step {d : Daemon σ τ AssetStore} (h : Calm p d) {i : DaemonInput σ τ AssetStore}
    (hi : Admits p d i) : Calm p (d.step B i).1 ∧ Unfired p (d.step B i).2 := by
  by_cases htouch : i.Touches p
  · cases i with
    | request L nowMs freshId r =>
      simp only [Daemon.step]
      split_ifs
      · cases r with
        | submit programJson baseDir =>
          obtain ⟨program, hprogram, hid⟩ := htouch
          exact h.submit hprogram hid (hi ⟨program, hprogram, hid⟩)
        | resume q fromStart =>
          obtain rfl : q = p := htouch
          exact h.resume (hi rfl)
        | cancel q | start q =>
          refine ⟨h.frame rfl ?_, unfired_nil⟩
          intro c hc
          refine (mem_pending_append.mp hc).imp_right fun he program hb => ?_
          rw [List.mem_singleton.mp he] at hb
          exact (SchedulerCommand.Brings.inserts hb).elim
        | gc | shutdown => exact htouch.elim
      · exact ⟨h, unfired_nil⟩
    | restart L nowMs env => exact ⟨startup_calm L nowMs env hi, unfired_nil⟩
    | deliver | bootSend | drain | tick | pump => exact htouch.elim
  · exact h.effect htouch (step_effect i)

theorem run_unfired {d : Daemon σ τ AssetStore} {is : List (DaemonInput σ τ AssetStore)}
    (h : Calm p d) (his : ∀ r ∈ trail (step B) d is, Admits p r.1 r.2) :
    Unfired p (run (step B) d is).2 := by
  have hcalm := trail_invariant h fun r hr hc => (hc.step (B := B) (his r hr)).1
  intro m hm
  obtain ⟨r, hr, ho⟩ := mem_run_iff.mp hm
  exact ((hcalm r hr).step (his r hr)).2 m ho

/-- A resume is granted to eligible programs only, exactly where no ineligible program is failed
by a restart with a source that still loads. In a run whose resumes of a program all find it so,
none of its watches fires, and what has fired before the crash does not fire again. -/
theorem resume_grants_eligible (B : Backends σ τ) :
    (∀ (L : Loader AssetStore) (s : Store AssetStore) (p : ProgramId) (fromStart : Bool)
        (nowMs : UnixMs),
      (Grants L s p fromStart nowMs → EligibleIn L s p) ↔ SparesIneligible L s p nowMs) ∧
    ∀ (L : Loader AssetStore) (nowMs : UnixMs) (env : Env σ τ) (image : Store AssetStore)
        (p : ProgramId) (is : List (DaemonInput σ τ AssetStore)),
      (∀ row, image.row p = some row → row.state ≠ .waiting) →
      (∀ r ∈ trail (step B) (startup L nowMs env image) is, Admits p r.1 r.2) →
      Unfired p (run (step B) (startup L nowMs env image) is).2 :=
  ⟨fun _ _ _ fromStart _ => grants_only_eligible_iff fromStart,
    fun L nowMs env _ _ _ hidle his => run_unfired (startup_calm L nowMs env hidle) his⟩

def loaderOf (program : Program) : Loader AssetStore :=
  .daemon ⟨fun _ => .error "", fun _ => .ok none⟩ (fun _ => .ok .null) (fun _ => .ok program)
    fun program => .ok program.name

def firstTick (program : Program) : List (DaemonInput Unit Unit AssetStore) :=
  [.request (loaderOf program) 5 ⟨1⟩ (.submit .null none), .deliver 0, .drain 6 fun _ => 7,
    .tick (.plain .dot 8) fun _ => 9, .pump, .pump, .pump, .pump, .pump]

def resumedTick (program : Program) : List (DaemonInput Unit Unit AssetStore) :=
  [.request (loaderOf program) 30 ⟨2⟩ (.resume ⟨1⟩ false), .deliver 0, .drain 31 fun _ => 32,
    .tick (.plain .dot 33) fun _ => 34]

def crashedAfterTick (program : Program) : Daemon Unit Unit AssetStore :=
  (run (step (Backends.constant (.ok ⟨true, none, 0⟩)))
    (startup (loaderOf program) 0 ⟨(), ()⟩ (.fresh .empty))
    (firstTick program ++ [.restart (loaderOf program) 20 ⟨(), ()⟩])).1

def watching : Program :=
  { Program.blank "demo" with
    watches := [⟨.inline (.colorAt ⟨0, 0⟩ ⟨0, 0, 0⟩ 0), [], 0, .oneShot⟩]
    body := [.sleepMs 60000] }

def firings (outs : List Notice) : Nat :=
  outs.countP fun o => match o with
    | .observed ⟨_, _, .emitted (.watchFired p idx _)⟩ => decide (p = ⟨1⟩ ∧ idx = 0)
    | _ => false

/-- The watch of the program has fired once before the crash, the resume is granted, and the
watch fires again. -/
theorem watch_fires_again_after_resume :
    ¬ (Grants (loaderOf watching) (crashedAfterTick watching).store ⟨1⟩ false 30 →
        EligibleIn (loaderOf watching) (crashedAfterTick watching).store ⟨1⟩) ∧
      firings (run (step (Backends.constant (.ok ⟨true, none, 0⟩)))
        (startup (loaderOf watching) 0 ⟨(), ()⟩ (.fresh .empty)) (firstTick watching)).2 = 1 ∧
      firings (run (step (Backends.constant (.ok ⟨true, none, 0⟩)))
        (crashedAfterTick watching) (resumedTick watching)).2 = 1 := by
  refine ⟨?_, rfl, rfl⟩
  intro h
  obtain ⟨row, program, _, hprogram, heligible⟩ := h ⟨_, rfl⟩
  obtain rfl : watching = program := Option.some.inj hprogram
  exact nomatch heligible.unwatched

def typing : Program := { Program.blank "demo" with body := [.type "a", .type "b"] }

theorem typing_eligible : typing.Eligible where
  unwatched := rfl
  timeless child ms := by
    rintro (⟨name, hname⟩ | ⟨w, hw, _⟩)
    · rw [typing, Program.blank, Std.ExtTreeMap.getElem?_empty] at hname
      exact nomatch hname
    · exact absurd hw List.not_mem_nil
  sleepless ms := by
    constructor
    · simp [typing]
    · exact fun w hw => absurd hw List.not_mem_nil

def typedOnce : Store AssetStore :=
  (run (step (Backends.constant (.ok ⟨true, none, 0⟩)))
    (startup (loaderOf typing) 0 ⟨(), ()⟩ (.fresh .empty)) (firstTick typing)).1.store

theorem resume_grants_eligible_typing :
    Grants (loaderOf typing) typedOnce.recoverRunningPrograms.2 ⟨1⟩ false 30 ∧
      Unfired ⟨1⟩ (run (step (Backends.constant (.ok ⟨true, none, 0⟩)))
        (startup (loaderOf typing) 20 ⟨(), ()⟩ typedOnce) (resumedTick typing)).2 := by
  refine ⟨⟨_, rfl⟩, (resume_grants_eligible _).2 _ _ _ _ _ _ ?_ ?_⟩
  · intro row hrow hwaiting
    have hrunning : (typedOnce.row ⟨1⟩).map ProgramRow.state = some .running := rfl
    rw [hrow, Option.map_some, hwaiting] at hrunning
    exact nomatch hrunning
  · intro r hr
    simp only [resumedTick, trail_cons, trail_nil, List.mem_cons, List.not_mem_nil, or_false] at hr
    rcases hr with rfl | rfl | rfl | rfl
    · intro _
      refine ⟨⟨_, _, _, _, rfl⟩, ?_⟩
      intro row program _ _ hprogram _
      obtain rfl : typing = program := Option.some.inj hprogram
      exact typing_eligible
    · trivial
    · trivial
    · trivial

end Daemon

end Vcli

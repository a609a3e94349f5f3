import Vcli.Daemon.Mirror
import Vcli.Lib.History
import Vcli.Runtime.Progress

/-! The stored body cursor. The events of the scheduler say nothing about the steps of a body,
so the store keeps the cursor a program was put into the map with. -/

namespace Vcli

open Transducer History

def Notice.obs (o : Notice) : Option Obs := o.observation.map Moment.obs

def sinceInsertion (p : ProgramId) (T : List Notice) : List Obs :=
  since (Obs.isInsertion p) (T.filterMap Notice.obs)

def tried (p : ProgramId) (T : List Notice) : List (Nat × StepOutcome) :=
  (sinceInsertion p T).filterMap (Obs.verdictOn p)

section Trace
variable {p : ProgramId} {T U : List Notice}

theorem mem_tried {k : Nat} {o : StepOutcome} :
    (k, o) ∈ tried p T ↔ .stepped p k o ∈ sinceInsertion p T := by
  constructor
  · intro h
    obtain ⟨x, hx, hv⟩ := List.mem_filterMap.mp h
    cases x with
    | stepped id k' o' =>
      simp only [Obs.verdictOn] at hv
      split_ifs at hv with hid
      obtain ⟨rfl, rfl⟩ := Prod.mk.inj (Option.some.inj hv)
      rw [hid] at hx
      exact hx
    | _ => cases hv
  · intro h
    exact List.mem_filterMap.mpr ⟨_, h, if_pos rfl⟩

theorem tried_quiet (hU : ∀ o ∈ U, o.observation = none) : tried p (T ++ U) = tried p T := by
  have hnil : U.filterMap Notice.obs = [] := by
    rw [List.filterMap_eq_nil_iff]
    intro o ho
    rw [Notice.obs, hU o ho]
    rfl
  rw [tried, tried, sinceInsertion, sinceInsertion, List.filterMap_append, hnil, List.append_nil]

theorem filterMap_observed (ms : List (Moment ProgramMap)) :
    (ms.map Notice.observed).filterMap Notice.obs = ms.map Moment.obs := by
  rw [List.filterMap_map]
  exact congrFun List.filterMap_eq_map ms

theorem tried_observed {ms : List (Moment ProgramMap)}
    (hms : ∀ m ∈ ms, m.obs.isInsertion p = false) :
    tried p (T ++ ms.map .observed) = tried p T ++ ms.filterMap fun m => m.obs.verdictOn p := by
  have hcut : ∀ x ∈ ms.map Moment.obs, x.isInsertion p = false := by
    intro x hx
    obtain ⟨m, hm, rfl⟩ := List.mem_map.mp hx
    exact hms m hm
  rw [tried, sinceInsertion, List.filterMap_append, filterMap_observed, since_append hcut,
    List.filterMap_append, List.filterMap_map]
  rfl

theorem tried_inserted {ms : List (Moment ProgramMap)} (hins : ∃ m ∈ ms, m.obs.isInsertion p = true)
    (hms : (ms.filterMap fun m => m.obs.verdictOn p) = []) :
    tried p (T ++ ms.map .observed) = [] := by
  obtain ⟨m, hm, hmark⟩ := hins
  rw [tried, sinceInsertion, List.filterMap_append, filterMap_observed,
    since_append_cut (List.mem_map_of_mem hm) hmark, List.filterMap_eq_nil_iff]
  intro x hx
  obtain ⟨n, hn, rfl⟩ := List.mem_map.mp (mem_of_mem_since hx)
  exact List.filterMap_eq_nil_iff.mp hms n hn

end Trace

namespace Daemon

variable {σ τ α : Type} {B : Backends σ τ} {d d' : Daemon σ τ α} {p : ProgramId}
  {who : ProgramId → Prop} {outs T : List Notice}

theorem Effect.sched (he : Effect B d who d' outs) :
    (d'.sched = d.sched ∧ ∀ o ∈ outs, o.observation = none) ∨
      (∃ env, d'.sched = .new env ∧ outs = []) ∨
      ∃ i, d'.sched = (d.sched.step B i).1 ∧ outs = (d.sched.step B i).2.map .observed ∧
        ∃ cmds, d.Takes i cmds := by
  have hnone : ∀ o ∈ ([] : List Notice), o.observation = none :=
    fun _ h => absurd h List.not_mem_nil
  cases he with
  | restarted L nowMs env all => exact .inr (.inl ⟨env, rfl, rfl⟩)
  | scheduled stamps running ht => exact .inr (.inr ⟨_, rfl, rfl, _, ht⟩)
  | stopped | pumped | posted | submitted => exact .inl ⟨rfl, hnone⟩
  | moved same accepted kept quiet => exact .inl ⟨rfl, quiet⟩
  | dropped gone refused quiet =>
    refine .inl ⟨rfl, fun o ho => ?_⟩
    rw [List.mem_singleton.mp ho]
    exact quiet
  | refused =>
    refine .inl ⟨rfl, fun o ho => ?_⟩
    rw [List.mem_singleton.mp ho]
    rfl
  | resumed cs asked resumable from_ present rows sends =>
    refine .inl ⟨rfl, fun o ho => ?_⟩
    rcases sends with ⟨_, e, rfl⟩ | ⟨rfl, _⟩
    · rw [List.mem_singleton.mp ho]
      rfl
    · exact absurd ho List.not_mem_nil
  | collected rows announced quiet => exact .inl ⟨rfl, fun o ho => (quiet o ho).1⟩

structure Unmoved (d : Daemon σ τ α) : Prop where
  rows : ∀ p row, d.store.row p = some row → row.bodyCursor = 0
  commands : ∀ p k program assets, .resumeRunning p k program assets ∈ d.pending → k = 0
  events : ∀ ev ∈ d.events, ∀ p k, ev.data = .programResumed p k → k = 0

theorem recovered_cursor (row : ProgramRow) : row.recovered.bodyCursor = row.bodyCursor := by
  unfold ProgramRow.recovered
  split_ifs <;> rfl

theorem startup_unmoved (L : Loader α) (nowMs : UnixMs) (env : Env σ τ) {image : Store α}
    (h : ∀ p row, image.row p = some row → row.bodyCursor = 0) :
    Unmoved (startup L nowMs env image) := by
  refine ⟨?_, ?_, ?_⟩
  · intro p row hrow
    have hrec : (startup L nowMs env image).store.row p =
        (image.row p).map ProgramRow.recovered := row_recover
    rw [hrec] at hrow
    obtain ⟨row₀, hrow₀, rfl⟩ := Option.map_eq_some_iff.mp hrow
    rw [recovered_cursor]
    exact h p row₀ hrow₀
  · intro p k program assets hc
    have hback : .resumeRunning p k program assets ∈ (startup L nowMs env image).backlog := hc
    rw [startup_backlog] at hback
    obtain ⟨_, _, _, _, _, heq⟩ := mem_reload hback
    exact nomatch heq
  · intro ev hev p k hdata
    rcases recoveryEvents_data hev with ⟨_, hd⟩ | ⟨_, _, hd | ⟨_, hd⟩⟩ <;>
      exact nomatch hdata.symm.trans hd

theorem after_cursor {ev : Event} {row : ProgramRow} (hrow : row.bodyCursor = 0)
    (hev : ∀ p k, ev.data = .programResumed p k → k = 0) : (row.after ev).bodyCursor = 0 := by
  obtain ⟨at_, data⟩ := ev
  cases data with
  | programResumed id k => exact hev id k rfl
  | _ => exact hrow

theorem Unmoved.scheduled (h : Unmoved d) {i : Input} {cmds : List SchedulerCommand}
    (stamps : Nat → UnixMs) (ht : d.Takes i cmds) :
    Unmoved { d with
      cmds := cmds
      sched := (d.sched.step B i).1
      events := d.events ++ emitAll stamps (d.sched.step B i).2 } := by
  refine ⟨h.rows, ?_, ?_⟩
  · intro p k program assets hc
    refine h.commands p k program assets ?_
    rcases List.mem_append.mp hc with hc | hc
    · refine List.mem_append_left _ ?_
      cases ht with
      | tick t => exact hc
      | command nowMs hcmds => exact hcmds ▸ List.mem_cons_of_mem _ hc
    · exact List.mem_append_right _ hc
  · intro ev hev p k hdata
    rcases List.mem_append.mp hev with hev | hev
    · exact h.events ev hev p k hdata
    · obtain ⟨m, hm, hobs⟩ := mem_emitAll hev
      rw [hdata] at hobs
      by_cases hins : i.inserts p
      · obtain ⟨program, assets, nowMs, rfl⟩ :=
          (Scheduler.step_announced hins).2 m hm p k hobs
        cases ht with
        | command _ hcmds =>
          refine h.commands p k program assets (List.mem_append_left _ ?_)
          rw [hcmds]
          exact List.mem_cons_self
      · exact (Scheduler.step_routine hins hm hobs rfl).elim

theorem Unmoved.effect (h : Unmoved d) (he : Effect B d who d' outs) : Unmoved d' := by
  cases he with
  | restarted L nowMs env all => exact startup_unmoved L nowMs env h.rows
  | scheduled stamps running ht => exact h.scheduled stamps ht
  | @pumped ev rest hev =>
    refine ⟨?_, h.commands, fun e he => h.events e (hev ▸ List.mem_cons_of_mem _ he)⟩
    intro p row hrow
    dsimp only at hrow
    rw [Store.row_pumpEvent] at hrow
    split_ifs at hrow
    · obtain ⟨row₀, hrow₀, rfl⟩ := Option.map_eq_some_iff.mp hrow
      exact after_cursor (h.rows p row₀ hrow₀) (h.events ev (hev ▸ List.mem_cons_self))
    · exact h.rows p row hrow
  | stopped hcmds =>
    refine ⟨h.rows, fun p k program assets hc => h.commands p k program assets ?_, h.events⟩
    rw [pending, hcmds]
    exact List.mem_cons_of_mem _ hc
  | moved same accepted kept quiet =>
    exact ⟨h.rows, fun p k program assets hc => h.commands p k program assets (same.mem_iff.mp hc),
      h.events⟩
  | dropped gone refused quiet =>
    exact ⟨h.rows, fun p k program assets hc =>
      h.commands p k program assets (mem_pending_eraseIdx hc), h.events⟩
  | posted hc =>
    refine ⟨h.rows, fun p k program assets hmem => ?_, h.events⟩
    rcases mem_pending_append.mp hmem with hmem | hmem
    · exact h.commands p k program assets hmem
    · rw [← List.mem_singleton.mp hmem] at hc
      exact absurd rfl (hc p)
  | refused rows =>
    exact ⟨fun p row hrow => h.rows p row ((rows p).symm.trans hrow), h.commands, h.events⟩
  | collected rows announced quiet =>
    refine ⟨fun p row hrow => h.rows p row ?_, h.commands, h.events⟩
    exact (Option.filter_eq_some_iff.mp ((rows p).symm.trans hrow)).1
  | @submitted store q row program assets asked absent present state cursor code rows =>
    refine ⟨?_, ?_, h.events⟩
    · intro p row' hrow'
      by_cases hq : p = q
      · subst hq
        obtain rfl := Option.some.inj (present.symm.trans hrow')
        exact cursor
      · exact h.rows p row' ((rows p hq).symm.trans hrow')
    · intro p k program' assets' hmem
      rcases mem_pending_append.mp hmem with hmem | hmem
      · exact h.commands p k program' assets' hmem
      · cases List.mem_singleton.mp hmem
  | @resumed store q row cursor nowMs _ cs asked resumable from_ present rows sends =>
    -- a resume begins at zero or where the row says, which is zero by now
    have hzero : cursor = 0 := by
      rcases from_ with hz | hrow
      · exact hz
      · rw [hrow]
        exact h.rows q row resumable.1
    refine ⟨?_, ?_, h.events⟩
    · intro p row' hrow'
      by_cases hq : p = q
      · subst hq
        obtain rfl := Option.some.inj (present.symm.trans hrow')
        exact hzero
      · exact h.rows p row' ((rows p hq).symm.trans hrow')
    · intro p k program' assets' hmem
      rcases mem_pending_append.mp hmem with hmem | hmem
      · exact h.commands p k program' assets' hmem
      · rcases sends with ⟨rfl, _⟩ | ⟨_, program, assets, rfl⟩
        · exact absurd hmem List.not_mem_nil
        · obtain ⟨_, rfl, _⟩ := SchedulerCommand.resumeRunning.inj (List.mem_singleton.mp hmem)
          exact hzero

/-- The cursor of every program in the map is accounted for by the steps it has tried since it
was put there. -/
structure Counted (d : Daemon σ τ α) (T : List Notice) : Prop where
  unmoved : Unmoved d
  unbegun : Scheduler.Unbegun d.sched.programs
  progress : ∀ p rp, d.sched.programs.lookup p = some rp → Progress 0 (tried p T) rp.cursor

theorem isInsertion_of_routine {s : Scheduler σ τ} {i : Input} (hi : ¬ i.inserts p) :
    ∀ m ∈ (s.step B i).2, m.obs.isInsertion p = false := by
  intro m hm
  by_contra hins
  rw [Bool.not_eq_false] at hins
  cases hobs : m.obs with
  | emitted data =>
    rw [hobs] at hins
    cases data with
    | programSubmitted id name =>
      have hid : id = p := of_decide_eq_true hins
      exact Scheduler.step_routine hi hm hobs (congrArg some hid)
    | programResumed id fromStep =>
      have hid : id = p := of_decide_eq_true hins
      exact Scheduler.step_routine hi hm hobs (congrArg some hid)
    | _ => exact nomatch hins
  | _ =>
    rw [hobs] at hins
    exact nomatch hins

theorem Counted.scheduled (h : Counted d T) {i : Input} {cmds : List SchedulerCommand}
    (ht : d.Takes i cmds) {rp' : RunningProgram}
    (hrp' : (d.sched.step B i).1.programs.lookup p = some rp') :
    Progress 0 (tried p (T ++ (d.sched.step B i).2.map .observed)) rp'.cursor := by
  by_cases hins : i.inserts p
  · obtain ⟨hnone, hcursor⟩ := Scheduler.step_inserted hins hrp'
    have hzero : rp'.cursor = 0 := by
      rcases hcursor with hz | ⟨program, assets, nowMs, rfl⟩
      · exact hz
      · cases ht with
        | command _ hcmds =>
          refine h.unmoved.commands p _ program assets (List.mem_append_left _ ?_)
          rw [hcmds]
          exact List.mem_cons_self
    rw [tried_inserted (Scheduler.step_announced hins).1 hnone, hzero]
    exact .refl 0
  · cases hrp : d.sched.programs.lookup p with
    | none => exact nomatch (Scheduler.step_absent (B := B) hrp hins).1.symm.trans hrp'
    | some rp =>
      rw [tried_observed (isInsertion_of_routine hins)]
      exact (h.progress p rp hrp).append (Scheduler.step_progress hins h.unbegun hrp hrp')

theorem Counted.effect (h : Counted d T) (he : Effect B d who d' outs) :
    Counted d' (T ++ outs) := by
  have hunmoved := h.unmoved.effect he
  rcases he.sched with ⟨hsame, hquiet⟩ | ⟨env, hnew, rfl⟩ | ⟨i, hstep, rfl, cmds, ht⟩
  · refine ⟨hunmoved, hsame ▸ h.unbegun, ?_⟩
    intro p rp hrp
    rw [hsame] at hrp
    rw [tried_quiet hquiet]
    exact h.progress p rp hrp
  · refine ⟨hunmoved, hnew ▸ Scheduler.unbegun_new env, ?_⟩
    intro p rp hrp
    have hempty : d'.sched.programs.lookup p = none := by
      rw [hnew]
      exact AList.lookup_empty p
    exact nomatch hempty.symm.trans hrp
  · refine ⟨hunmoved, hstep ▸ Scheduler.step_unbegun i h.unbegun, ?_⟩
    intro p rp hrp
    rw [hstep] at hrp
    exact h.scheduled ht hrp

/-- A crash here, followed by recovery and a resume from the cursor the store has for `p`, runs
none of the steps that have advanced in the past. -/
def NeverAgain (B : Backends σ τ) (d : Daemon σ τ α) (p : ProgramId) (past : List Obs) : Prop :=
  ∀ (L : Loader α) (nowMs : UnixMs) (env : Env σ τ) (row : ProgramRow),
    (startup L nowMs env d.store).store.row p = some row →
    ∀ (program : Program) (assets : Assets) (resumedMs : UnixMs) (is : List Input),
      (∀ i ∈ is, ¬ i.inserts p) →
      ∀ m ∈ (run (Scheduler.step B) (startup L nowMs env d.store).sched
          (.command (.resumeRunning p row.bodyCursor program assets) resumedMs :: is)).2,
        ∀ k o, m.obs = .stepped p k o → .stepped p k .advanced ∉ past

theorem never_again_of_eq {rp : RunningProgram} {row : ProgramRow}
    (h : Progress 0 (tried p T) rp.cursor) (hrow : d.store.row p = some row)
    (heq : row.bodyCursor = rp.cursor) : NeverAgain B d p (sinceInsertion p T) := by
  intro L nowMs env row' hrow' program assets resumedMs is his m hm k o hobs hpast
  have hrec : (startup L nowMs env d.store).store.row p =
      (d.store.row p).map ProgramRow.recovered := row_recover
  rw [hrec, hrow] at hrow'
  obtain rfl := Option.some.inj hrow'
  have hlater : row.recovered.bodyCursor ≤ k :=
    Scheduler.resume_goes_on (Scheduler.unbegun_new env) his hm hobs
  have hdone : k < rp.cursor := h.done (k, .advanced) (mem_tried.mpr hpast) rfl
  rw [recovered_cursor, heq] at hlater
  exact absurd hlater (Nat.not_le_of_lt hdone)

/-- Over whole runs from an empty store, restarts included: the store has the cursor of a program
in the map, and a crash costs none of its steps twice, exactly as long as none of its steps has
advanced since it was put there. -/
theorem cursor_kept_iff (B : Backends σ τ) (L : Loader α) (nowMs : UnixMs) (env : Env σ τ)
    (blobs : α) (is : List (DaemonInput σ τ α)) :
    let r := run (step B) (startup L nowMs env (.fresh blobs)) is
    ∀ p rp row, r.1.sched.programs.lookup p = some rp → r.1.store.row p = some row →
      ((row.bodyCursor = rp.cursor ∧ NeverAgain B r.1 p (sinceInsertion p r.2)) ↔
        ∀ k, .stepped p k .advanced ∉ sinceInsertion p r.2) := by
  intro r p rp row hrp hrow
  have hstart : Counted (startup L nowMs env (.fresh blobs)) [] := by
    refine ⟨startup_unmoved L nowMs env ?_, Scheduler.unbegun_new env, ?_⟩
    · exact fun q row hrow => nomatch hrow
    · intro q rp hrp
      exact nomatch (AList.lookup_empty q).symm.trans hrp
  have hcounted : Counted r.1 r.2 :=
    run_history (I := Counted) (h := []) (fun d T i _ h => h.effect (step_effect i)) hstart
  have hzero := hcounted.unmoved.rows p row hrow
  have hprogress := hcounted.progress p rp hrp
  constructor
  · rintro ⟨heq, _⟩ k hk
    have hdone : k < rp.cursor := hprogress.done (k, .advanced) (mem_tried.mpr hk) rfl
    rw [← heq, hzero] at hdone
    exact absurd hdone (Nat.not_lt_zero k)
  · intro hnone
    have hstill : rp.cursor = 0 := by
      by_contra hmoved
      obtain ⟨⟨k, o⟩, hv, rfl⟩ := hprogress.moved hmoved
      exact hnone k (mem_tried.mp hv)
    have heq : row.bodyCursor = rp.cursor := hzero.trans hstill.symm
    exact ⟨heq, never_again_of_eq hprogress hrow heq⟩

def tickedOnce (body : List Step) : Daemon Unit Unit Unit × List Notice :=
  let L := Loader.constant { Program.blank "demo" with body := body }
  run (step (Backends.constant (.ok ⟨true, none, 0⟩))) (startup L 0 ⟨(), ()⟩ (.fresh ()))
    [.request L 5 ⟨1⟩ (.submit .null none), .deliver 0, .drain 6 fun _ => 7,
      .tick (.plain .dot 10) fun _ => 11, .pump, .pump, .pump, .pump]

theorem cursor_kept_while_asleep :
    ∃ rp row, (tickedOnce [.sleepMs 1000]).1.sched.programs.lookup ⟨1⟩ = some rp ∧
      (tickedOnce [.sleepMs 1000]).1.store.row ⟨1⟩ = some row ∧ row.bodyCursor = rp.cursor := by
  have hiff : ∀ p rp row, (tickedOnce [.sleepMs 1000]).1.sched.programs.lookup p = some rp →
      (tickedOnce [.sleepMs 1000]).1.store.row p = some row →
      ((row.bodyCursor = rp.cursor ∧ NeverAgain _ (tickedOnce [.sleepMs 1000]).1 p
          (sinceInsertion p (tickedOnce [.sleepMs 1000]).2)) ↔
        ∀ k, .stepped p k .advanced ∉ sinceInsertion p (tickedOnce [.sleepMs 1000]).2) :=
    cursor_kept_iff _ _ _ _ _ _
  have htried : tried ⟨1⟩ (tickedOnce [.sleepMs 1000]).2 = [(0, .stalled)] := rfl
  refine ⟨_, _, rfl, rfl, ((hiff ⟨1⟩ _ _ rfl rfl).mpr ?_).1⟩
  intro k hk
  have hmem : (k, .advanced) ∈ tried ⟨1⟩ (tickedOnce [.sleepMs 1000]).2 := mem_tried.mpr hk
  rw [htried] at hmem
  exact nomatch (Prod.mk.inj (List.mem_singleton.mp hmem)).2

/-- A text has been typed and everything sent has been handled, and the store still has the
program at its first step: resumed from there, it types the text again. -/
theorem typed_text_is_typed_again :
    (tickedOnce [.type "a", .sleepMs 1000]).1.events = [] ∧
      ∃ rp row, (tickedOnce [.type "a", .sleepMs 1000]).1.sched.programs.lookup ⟨1⟩ = some rp ∧
        rp.state = .running ∧
        (tickedOnce [.type "a", .sleepMs 1000]).1.store.row ⟨1⟩ = some row ∧
        row.bodyCursor ≠ rp.cursor ∧
        ¬ NeverAgain (Backends.constant (.ok ⟨true, none, 0⟩))
          (tickedOnce [.type "a", .sleepMs 1000]).1 ⟨1⟩
          (sinceInsertion ⟨1⟩ (tickedOnce [.type "a", .sleepMs 1000]).2) := by
  refine ⟨rfl, _, _, rfl, rfl, rfl, Nat.zero_ne_one, ?_⟩
  intro hnever
  have hpast : .stepped ⟨1⟩ 0 .advanced ∈
      sinceInsertion ⟨1⟩ (tickedOnce [.type "a", .sleepMs 1000]).2 :=
    mem_tried.mp (show _ ∈ [(0, StepOutcome.advanced)] from List.mem_cons_self)
  refine hnever (Loader.constant (Program.blank "demo")) 20 ⟨(), ()⟩ _ rfl
    { Program.blank "demo" with body := [.type "a", .sleepMs 1000] } ∅ 30
    [.tick (.plain .dot 40)] ?_ _ (List.mem_of_getElem? (i := 3) rfl) 0 .advanced rfl hpast
  intro i hi
  rw [List.mem_singleton.mp hi]
  exact id

end Daemon

end Vcli

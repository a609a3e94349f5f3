import Vcli.Runtime.Acting
import Vcli.Runtime.WatchTick

/-! Input exclusivity within a tick. The arbiter lets one program's firing through, but the
body steps that follow in the same tick are not arbitrated: the calls of a tick belong to one
program per device only as long as the programs do not reach for the same device. -/

namespace Vcli

open Transducer Interaction

inductive Device
  | mouse
  | keyboard
deriving DecidableEq, Repr

def InputCall.device (c : InputCall) : Device := if c.isMouse then .mouse else .keyboard

def Step.device : Step → Option Device
  | move _ | click .. | scroll .. => some .mouse
  | type _ | key .. => some .keyboard
  | waitFor .. | assert .. | sleepMs _ => none

/-- Whether the body step a program is at can be completed in a tick at `nowMs`: an action, an
assertion, an elapsed sleep or a pending wait. -/
def RunningProgram.mayAdvance (nowMs : UnixMs) (rp : RunningProgram) : Bool :=
  match rp.bodyState.deferred with
  | some (.sleep wakeAtMs) => decide (wakeAtMs ≤ nowMs)
  | some (.waitFor ..) => true
  | none =>
    match rp.program.body[rp.cursor]? with
    | none | some (.sleepMs _) | some (.waitFor ..) => false
    | some _ => true

def Obs.CallsOn (D : Option Device → Prop) (o : Obs) : Prop :=
  ∀ id c r, o = .called id c r → D (some c.device)

section Steps
variable {σ τ : Type} (B : Backends σ τ) (tk : Tick) (c : Caller)

theorem callsOn_evaluateNamed (D : Option Device → Prop) (site : Site) (name : String) :
    Emits (Obs.CallsOn D) (evaluateNamed B tk c site name) := by
  intro env o ho id call r hcall
  rw [List.mem_singleton.mp ho] at hcall
  exact nomatch hcall

theorem callsOn_callInput (call : InputCall) :
    Emits (Obs.CallsOn (· = some call.device)) (callInput B c call) := by
  intro env o ho id call' r hcall
  rw [List.mem_singleton.mp ho] at hcall
  rw [(Obs.called.inj hcall).2.1]

theorem callsOn_resolveTarget (D : Option Device → Prop) (target : Target) :
    Emits (Obs.CallsOn D) (resolveTarget B tk c target) := by
  cases target with
  | absolute p => exact emits_pure _
  | expression s =>
    rw [resolveTarget]
    cases Expr.parse s with
    | error e => exact emits_pure _
    | ok e =>
      refine emits_bind (callsOn_evaluateNamed B tk c D _ _) fun r => ?_
      cases r with
      | error err => exact emits_pure _
      | ok r => cases ha : e.accessor <;> exact emits_pure _

theorem callsOn_dispatchAt (target : Target) {f : Point → InputCall} {d : Device}
    (hf : ∀ p, (f p).device = d) :
    Emits (Obs.CallsOn (· = some d)) (dispatchAt B tk c target f) := by
  refine emits_bind (callsOn_resolveTarget B tk c _ target) fun r => ?_
  cases r with
  | error e => exact emits_pure _
  | ok p =>
    rw [← hf p]
    exact callsOn_callInput B c (f p)

theorem callsOn_dispatchAction (s : Step) :
    Emits (Obs.CallsOn (· = s.device)) (dispatchAction B tk c s) := by
  cases s with
  | move | click | scroll => exact callsOn_dispatchAt B tk c _ fun _ => rfl
  | type | key => exact callsOn_callInput B c _
  | waitFor | assert | sleepMs => exact emits_pure _

theorem callsOn_dispatchSteps (steps : List Step) :
    Emits (Obs.CallsOn fun d => ∃ s ∈ steps, s.device = d) (dispatchSteps B tk c steps) := by
  induction steps with
  | nil => exact emits_pure _
  | cons s rest ih =>
    refine emits_bind (emits_tell ?_) fun _ => emits_bind ?_ fun r => ?_
    · intro o ho id call r hcall
      rw [List.mem_singleton.mp ho] at hcall
      exact nomatch hcall
    · intro env o ho id call r hcall
      exact ⟨s, List.mem_cons_self, (callsOn_dispatchAction B tk c s env o ho id call r hcall).symm⟩
    · cases r with
      | error e => exact emits_pure _
      | ok u =>
        intro env o ho id call r hcall
        obtain ⟨s', hs', hd⟩ := ih env o ho id call r hcall
        exact ⟨s', List.mem_cons_of_mem _ hs', hd⟩

theorem callsOn_stepDeferred (D : Option Device → Prop) (d : BodyDefer) :
    Emits (Obs.CallsOn D) (stepDeferred B tk c d) := by
  cases d with
  | sleep wakeAtMs =>
    rw [stepDeferred]
    split_ifs <;> exact emits_pure _
  | waitFor predicate deadlineMs onTimeout =>
    refine emits_bind (callsOn_evaluateNamed B tk c D _ _) fun r => ?_
    cases r with
    | error e => exact emits_pure _
    | ok r =>
      dsimp only
      split_ifs
      · exact emits_pure _
      · cases onTimeout <;> exact emits_pure _
      · exact emits_pure _

theorem callsOn_stepFresh (s : Step) :
    Emits (Obs.CallsOn (· = s.device)) (stepFresh B tk c s) := by
  cases s with
  | sleepMs | waitFor => exact emits_pure _
  | assert predicate onFail =>
    refine emits_bind (callsOn_evaluateNamed B tk c _ _ _) fun r => ?_
    cases r with
    | error e => exact emits_pure _
    | ok r =>
      dsimp only
      split_ifs
      · exact emits_pure _
      · cases onFail <;> exact emits_pure _
  | move | click | scroll | type | key =>
    exact emits_bind (callsOn_dispatchAction B tk c _) fun _ => emits_pure _

theorem callsOn_stepOnce (body : List Step) (cursor : Nat) (state : BodyState) :
    Emits (Obs.CallsOn fun d => state.deferred = none ∧ ∃ s, body[cursor]? = some s ∧ s.device = d)
      (stepOnce B tk c body cursor state) := by
  unfold stepOnce
  cases hd : state.deferred with
  | some d => exact callsOn_stepDeferred B tk c _ d
  | none =>
    cases hs : body[cursor]? with
    | none => exact emits_pure _
    | some s =>
      intro env o ho id call r hcall
      exact ⟨rfl, s, rfl, (callsOn_stepFresh B tk c s env o ho id call r hcall).symm⟩

theorem stepOnce_stays {rp : RunningProgram} (h : rp.mayAdvance tk.nowMs = false) (env : Env σ τ) :
    (stepOnce B tk c rp.program.body rp.cursor rp.bodyState env).1.1 ≠ .advanced := by
  unfold RunningProgram.mayAdvance at h
  unfold stepOnce
  cases hd : rp.bodyState.deferred with
  | some d =>
    cases d with
    | sleep wakeAtMs =>
      rw [hd] at h
      dsimp only
      rw [stepDeferred, if_neg (of_decide_eq_false h)]
      exact StepOutcome.noConfusion
    | waitFor =>
      rw [hd] at h
      cases h
  | none =>
    rw [hd] at h
    cases hs : rp.program.body[rp.cursor]? with
    | none => exact StepOutcome.noConfusion
    | some s =>
      rw [hs] at h
      cases s with
      | sleepMs | waitFor => exact StepOutcome.noConfusion
      | move | click | scroll | type | key | assert => cases h

end Steps

section Stages
variable {σ τ : Type} {B : Backends σ τ} {tk : Tick} {id : ProgramId} {rp : RunningProgram}

def RunningProgram.bodyTouches (rp : RunningProgram) (d : Device) : Prop :=
  rp.bodyState.deferred = none ∧ ∃ s, rp.program.body[rp.cursor]? = some s ∧ s.device = some d

theorem bodyProgram_called {env : Env σ τ} {x : RunningProgram × Obs} {i : ProgramId}
    {c : InputCall} {r : Except InputError Unit} (hx : x ∈ (bodyProgram B tk id rp env).2.2)
    (hc : x.2 = .called i c r) : rp.bodyTouches c.device := by
  have hstep := callsOn_stepOnce B tk (rp.caller id) rp.program.body rp.cursor rp.bodyState env
  have hseen : ∀ {os : List Obs} {o : StepOutcome}, (∀ x ∈ os, x.CallsOn fun d =>
      rp.bodyState.deferred = none ∧ ∃ s, rp.program.body[rp.cursor]? = some s ∧ s.device = d) →
      x ∈ ((os ++ [Obs.stepped id rp.cursor o]).map fun o => (rp, o)) → rp.bodyTouches c.device := by
    intro os o hos hx
    obtain ⟨y, hy, rfl⟩ := List.mem_map.mp hx
    rcases List.mem_append.mp hy with hy | hy
    · exact hos y hy i c r hc
    · rw [List.mem_singleton.mp hy] at hc
      exact nomatch hc
  have hdone : ∀ {q : RunningProgram}, x ∉ (completeProgram id q).2 := by
    intro q hq
    rcases List.mem_cons.mp hq with rfl | hq
    · exact nomatch hc
    · rw [List.mem_singleton.mp hq] at hc
      exact nomatch hc
  have hbody := bodyProgram_run B tk id rp env
  generalize bodyProgram B tk id rp env = x at hbody hx
  cases hbody with
  | inert => exact absurd hx List.not_mem_nil
  | kept => exact hseen hstep hx
  | completed => exact (List.mem_append.mp hx).elim (hseen hstep) fun h => absurd h hdone
  | failed =>
    rcases List.mem_append.mp hx with hx | hx
    · exact hseen hstep hx
    · rw [List.mem_singleton.mp hx] at hc
      exact nomatch hc

def fireTouches (loser : Option ProgramId) (e : ProgEval) (d : Device) : Prop :=
  loser = none ∧ ∃ f fs, e.fires = f :: fs ∧ f.steps ≠ [] ∧ ∃ s ∈ f.steps, s.device = some d

theorem firePart_called {env : Env σ τ} {loser : Option ProgramId} {e : ProgEval}
    {x : RunningProgram × Obs} {i : ProgramId} {c : InputCall} {r : Except InputError Unit}
    (hx : x ∈ (firePart B tk id env loser e rp).2.1) (hc : x.2 = .called i c r) :
    fireTouches loser e c.device := by
  have hdone : ∀ {f fs}, e.fires = f :: fs → f.steps ≠ [] → loser = none →
      x ∈ ((dispatchSteps B tk (rp.caller id) f.steps env).2.2.map fun o => (rp, o)) →
      fireTouches loser e c.device := by
    intro f fs hf hs hl hmap
    obtain ⟨y, hy, rfl⟩ := List.mem_map.mp hmap
    exact ⟨hl, f, fs, hf, hs, callsOn_dispatchSteps B tk (rp.caller id) f.steps env y hy i c r hc⟩
  have h := firePart_dispatched B tk id env rp loser e
  generalize firePart B tk id env loser e rp = r at h hx
  cases h with
  | idle => exact absurd hx List.not_mem_nil
  | direct | deferred =>
    rw [List.mem_singleton.mp hx] at hc
    exact nomatch hc
  | failed f fs _ hf hs hl | done f fs hf hs hl =>
    rcases List.mem_append.mp hx with hx | hx
    · exact hdone hf hs hl hx
    · rw [List.mem_singleton.mp hx] at hc
      exact nomatch hc

theorem settlePart_body (tk : Tick) (e : ProgEval) (fw : Option Nat) (q : RunningProgram) :
    (settlePart tk e fw q).program = q.program ∧ (settlePart tk e fw q).bodyCursor = q.bodyCursor ∧
      (settlePart tk e fw q).bodyState = q.bodyState := by
  obtain ⟨m, hm⟩ := settlePart_same tk q e fw
  rw [hm]
  exact ⟨rfl, rfl, rfl⟩

theorem settled_body (B : Backends σ τ) (tk : Tick) (id : ProgramId) (rp : RunningProgram)
    (env : Env σ τ) (loser : Option ProgramId) (e : ProgEval) :
    (settlePart tk e (firePart B tk id env loser e rp).2.2
        (firePart B tk id env loser e rp).1).program = rp.program ∧
      (settlePart tk e (firePart B tk id env loser e rp).2.2
        (firePart B tk id env loser e rp).1).bodyCursor = rp.bodyCursor ∧
      (settlePart tk e (firePart B tk id env loser e rp).2.2
        (firePart B tk id env loser e rp).1).bodyState = rp.bodyState := by
  obtain ⟨st, hst⟩ := firePart_frame B tk id rp env loser e
  have h := settlePart_body tk e (firePart B tk id env loser e rp).2.2
    (firePart B tk id env loser e rp).1
  rw [hst] at h ⊢
  exact h

/-- Every call of a running program in a tick is one its firing or its body reaches for. -/
theorem runPart_called {sur : Surroundings σ τ} {loser : Option ProgramId}
    {x : RunningProgram × Obs} {i : ProgramId} {c : InputCall} {r : Except InputError Unit}
    (hx : x ∈ (runPart B tk id sur loser rp).2) (hc : x.2 = .called i c r) :
    fireTouches loser (evalProgram B tk id rp sur.eval).1 c.device ∨ rp.bodyTouches c.device := by
  rcases List.mem_append.mp hx with hx | hx
  · have hin := seen_in hx
    rw [hc] at hin
    exact nomatch hin.2
  rcases List.mem_append.mp hx with hx | hx
  · exact .inl (firePart_called hx hc)
  · right
    have htouch := bodyProgram_called hx hc
    obtain ⟨hp, hcur, hbs⟩ := settled_body B tk id rp sur.fire loser
      (evalProgram B tk id rp sur.eval).1
    unfold RunningProgram.bodyTouches RunningProgram.cursor at htouch ⊢
    rw [hp, hcur, hbs] at htouch
    exact htouch

theorem bodyProgram_stays (B : Backends σ τ) (id : ProgramId) {q : RunningProgram}
    (h : q.mayAdvance tk.nowMs = false) (env : Env σ τ) :
    (bodyProgram B tk id q env).1.cursor = q.cursor := by
  have hstep := stepOnce_stays B tk (q.caller id) h env
  unfold bodyProgram
  split_ifs
  · dsimp only [completeProgram]
    split
    · rename_i heq
      exact absurd heq hstep
    · rfl
    · split_ifs <;> rfl
    · rfl
  · rfl

theorem runPart_stays (h : rp.mayAdvance tk.nowMs = false) (sur : Surroundings σ τ)
    (loser : Option ProgramId) : (runPart B tk id sur loser rp).1.cursor = rp.cursor := by
  obtain ⟨hp, hcur, hbs⟩ := settled_body B tk id rp sur.fire loser
    (evalProgram B tk id rp sur.eval).1
  have hmay : (settlePart tk (evalProgram B tk id rp sur.eval).1
      (firePart B tk id sur.fire loser (evalProgram B tk id rp sur.eval).1 rp).2.2
      (firePart B tk id sur.fire loser (evalProgram B tk id rp sur.eval).1 rp).1).mayAdvance
        tk.nowMs = false := by
    unfold RunningProgram.mayAdvance RunningProgram.cursor at h ⊢
    rw [hp, hcur, hbs]
    exact h
  have hstays := bodyProgram_stays B id hmay sur.body
  unfold RunningProgram.cursor at hstays ⊢
  rw [hcur] at hstays
  exact hstays

theorem runPart_deferral_cases {sur : Surroundings σ τ} {loser : Option ProgramId}
    {x : RunningProgram × Obs} (hx : x ∈ (runPart B tk id sur loser rp).2)
    (hd : x.2.isDeferral = true) :
    ∃ winner f fs, loser = some winner ∧ (evalProgram B tk id rp sur.eval).1.fires = f :: fs ∧
      f.steps ≠ [] := by
  have hfire : x ∈ (firePart B tk id sur.fire loser (evalProgram B tk id rp sur.eval).1 rp).2.1 := by
    rcases List.mem_append.mp hx with hx | hx
    · exact nomatch hd.symm.trans (seen_in hx).no_event.2
    rcases List.mem_append.mp hx with hx | hx
    · exact hx
    · exact nomatch hd.symm.trans (silentAll_bodyProgram B tk id _ _ x hx).2.2
  have hmap := fun f : WatchFire => silentAll_map id rp
    (emits_dispatchSteps B tk (rp.caller id) f.steps sur.fire) (by decide)
  have h := firePart_dispatched B tk id sur.fire rp loser (evalProgram B tk id rp sur.eval).1
  generalize firePart B tk id sur.fire loser (evalProgram B tk id rp sur.eval).1 rp = r at h hfire
  cases h with
  | idle => exact absurd hfire List.not_mem_nil
  | direct =>
    rw [List.mem_singleton.mp hfire] at hd
    exact nomatch hd
  | deferred f fs winner hf hs hl => exact ⟨winner, f, fs, hl, hf, hs⟩
  | failed f | done f =>
    rcases List.mem_append.mp hfire with hx | hx
    · exact nomatch hd.symm.trans (hmap f x hx).2.2
    · rw [List.mem_singleton.mp hx] at hd
      exact nomatch hd

end Stages

namespace Scheduler

section Tick
variable {σ τ : Type} (B : Backends σ τ) (tk : Tick) (order : List ProgramId) (s : Scheduler σ τ)

/-- At the start of the dispatch stage the running program reaches for the device: with the
body step it is at, or with the firing that has won the arbitration. -/
def Touches (p : ProgramId) (d : Device) : Prop :=
  ∃ rp, (evaluated B tk order s).1.programs.lookup p = some rp ∧ rp.state = .running ∧
    (rp.bodyTouches d ∨ ∃ dec ∈ decisions B tk order s, dec.programId = p ∧ dec.dispatch = true ∧
      ∃ st ∈ dec.payload.steps, st.device = some d)

def Loses (p : ProgramId) : Prop :=
  ∃ dec ∈ decisions B tk order s, dec.programId = p ∧ dec.dispatch = false

/-- No two programs reach for the same device, and no program that loses the arbitration is
at a body step that can be completed. -/
structure Uncontended : Prop where
  devices : ∀ p q d, Touches B tk order s p d → Touches B tk order s q d → p = q
  losers : ∀ p rp, Loses B tk order s p →
    (evaluated B tk order s).1.programs.lookup p = some rp → rp.mayAdvance tk.nowMs = false

end Tick

section Proof
variable {σ τ : Type} {B : Backends σ τ} {tk : Tick} {order : List ProgramId} {s : Scheduler σ τ}
  {p : ProgramId} {rp : RunningProgram}

theorem decision_mem {e : ProgEval} {f : WatchFire} {fs : List WatchFire}
    (he : e ∈ (evaluated B tk order s).2) (hf : e.fires = f :: fs) (hs : f.steps ≠ []) :
    ⟨e.id, f, (verdict B tk order s e.id).isNone, verdict B tk order s e.id⟩ ∈
      decisions B tk order s := by
  have hcand : (⟨e.id, e.priority, f⟩ : Arbiter.Candidate WatchFire) ∈
      candidates (evaluated B tk order s).2 :=
    List.mem_filterMap.mpr ⟨e, he, by simp [hf, hs]⟩
  rw [decisions, Arbiter.resolve_eq_map]
  exact List.mem_map_of_mem hcand

def Unbegun (programs : ProgramMap) : Prop :=
  ∀ p rp, programs.lookup p = some rp → rp.state = .waiting → rp.bodyCursor = none

theorem capturedTick_seen (hperm : order.Perm s.programs.keys) {m : Moment ProgramMap}
    (hm : m ∈ (capturedTick B tk order s).2) (hsub : m.obs.subject = some p) :
    ∃ (rp : RunningProgram) (sur : Surroundings σ τ),
      s.programs.lookup p = some rp ∧
      (capturedTick B tk order s).1.programs.lookup p =
        some (tickProgram B tk p sur (verdict B tk order s p) rp).1 ∧
      (∃ x ∈ (tickProgram B tk p sur (verdict B tk order s p) rp).2, x.2 = m.obs) ∧
      (evaluated B tk order s).1.programs.lookup p =
        some (triggerPart B tk p sur.trigger rp).1 ∧
      ((triggerPart B tk p sur.trigger rp).1.state = .running →
        (evalProgram B tk p (triggerPart B tk p sur.trigger rp).1 sur.eval).1 ∈
          (evaluated B tk order s).2) := by
  have hmem : m.of p ∈ traceOf p (capturedTick B tk order s).2 :=
    mem_traceOf.mpr ⟨m, hm, hsub, rfl⟩
  cases hl : s.programs.lookup p with
  | none =>
    rw [(capturedTick_none B tk order hl).2] at hmem
    exact absurd hmem List.not_mem_nil
  | some rp =>
    have hp : p ∈ order :=
      hperm.mem_iff.mpr (AList.mem_keys.mpr (AList.lookup_isSome.mp (by rw [hl]; rfl)))
    obtain ⟨sur, hlook, htrace, htrig, hsole⟩ := capturedTick_project B tk
      (hperm.nodup_iff.mpr s.programs.keys_nodup) hp hl
    rw [htrace] at hmem
    obtain ⟨x, hx, hxm⟩ := List.mem_map.mp hmem
    refine ⟨rp, sur, rfl, hlook, ⟨x, hx, congrArg Moment.obs hxm⟩, ?_, fun hr => (hsole hr).mem⟩
    rw [evaluated_programs]
    exact htrig

theorem mem_runPart_of_tick {sur : Surroundings σ τ} {loser : Option ProgramId}
    {x : RunningProgram × Obs} (hx : x ∈ (tickProgram B tk p sur loser rp).2)
    (hnot : x ∉ (triggerPart B tk p sur.trigger rp).2) :
    (triggerPart B tk p sur.trigger rp).1.state = .running ∧
      x ∈ (runPart B tk p sur loser (triggerPart B tk p sur.trigger rp).1).2 ∧
      (tickProgram B tk p sur loser rp).1 =
        (runPart B tk p sur loser (triggerPart B tk p sur.trigger rp).1).1 := by
  unfold tickProgram at hx ⊢
  dsimp only at hx ⊢
  split_ifs at hx ⊢ with hrun
  · rcases List.mem_append.mp hx with hx | hx
    · exact absurd hx hnot
    · exact ⟨hrun, hx, rfl⟩
  · exact absurd hx hnot

theorem called_touches (hperm : order.Perm s.programs.keys) {m : Moment ProgramMap}
    (hm : m ∈ (capturedTick B tk order s).2) {c : InputCall} {r : Except InputError Unit}
    (hc : m.obs = .called p c r) : Touches B tk order s p c.device := by
  obtain ⟨rp, sur, _, _, ⟨x, hx, hxm⟩, hlook, heval⟩ :=
    capturedTick_seen hperm hm (p := p) (by rw [hc]; rfl)
  have hxc : x.2 = .called p c r := hxm.trans hc
  have hnot : x ∉ (triggerPart B tk p sur.trigger rp).2 := by
    intro hmem
    have hidle := idle_triggerPart B tk p rp sur.trigger x hmem
    rw [hxc] at hidle
    exact hidle trivial
  obtain ⟨hrun, hx, _⟩ := mem_runPart_of_tick hx hnot
  refine ⟨_, hlook, hrun, ?_⟩
  rcases runPart_called hx hxc with ⟨hwin, f, fs, hf, hs, hst⟩ | hbody
  · right
    refine ⟨_, decision_mem (heval hrun) hf hs, rfl, ?_, hst⟩
    rw [show (evalProgram B tk p (triggerPart B tk p sur.trigger rp).1 sur.eval).1.id = p from rfl,
      hwin]
    rfl
  · exact .inl hbody

theorem deferral_stays (hperm : order.Perm s.programs.keys) (hun : Uncontended B tk order s)
    (hfresh : Unbegun s.programs) {m : Moment ProgramMap}
    (hm : m ∈ (capturedTick B tk order s).2) {step reason : Json}
    (hd : m.obs = .emitted (.actionDeferred p step reason)) {rp rp' : RunningProgram}
    (hrp : s.programs.lookup p = some rp)
    (hrp' : (capturedTick B tk order s).1.programs.lookup p = some rp') :
    rp'.cursor = rp.cursor := by
  obtain ⟨rp₀, sur, hrp₀, hlook', ⟨x, hx, hxm⟩, hlook, heval⟩ :=
    capturedTick_seen hperm hm (p := p) (by rw [hd]; rfl)
  obtain rfl := Option.some.inj (hrp₀.symm.trans hrp)
  have hxd : x.2.isDeferral = true := by
    rw [hxm, hd]
    rfl
  have hnot : x ∉ (triggerPart B tk p sur.trigger rp₀).2 := fun hmem =>
    nomatch hxd.symm.trans (silentAll_triggerPart B tk p rp₀ sur.trigger x hmem).2.2
  obtain ⟨hrun, hx, hsame⟩ := mem_runPart_of_tick hx hnot
  obtain ⟨winner, f, fs, hlose, hf, hs⟩ := runPart_deferral_cases hx hxd
  have hloses : Loses B tk order s p := by
    refine ⟨_, decision_mem (heval hrun) hf hs, rfl, ?_⟩
    rw [show (evalProgram B tk p (triggerPart B tk p sur.trigger rp₀).1 sur.eval).1.id = p from rfl,
      hlose]
    rfl
  -- a program that begins has no cursor yet, and that counts as zero
  have hcursor : (triggerPart B tk p sur.trigger rp₀).1.cursor = rp₀.cursor := by
    rcases triggerPart_cases B tk p rp₀ sur.trigger with h | ⟨hw, h | h⟩
    · rw [h]
    · rw [h, RunningProgram.cursor, RunningProgram.cursor, hfresh p rp₀ hrp hw]
      rfl
    · rw [h]
      rfl
  obtain rfl := Option.some.inj (hlook'.symm.trans hrp')
  rw [hsame, runPart_stays (hun.losers p _ hloses hlook), hcursor]

theorem localStep_unbegun {v : Option RunningProgram} {a : LocalInput σ τ}
    (h : ∀ rp, v = some rp → rp.state = .waiting → rp.bodyCursor = none) {rp' : RunningProgram}
    (hrp' : (localStep B p v a).1 = some rp') (hw : rp'.state = .waiting) :
    rp'.bodyCursor = none := by
  have hmove := localStep_move (B := B) (p := p) v a
  generalize localStep B p v a = r at hmove hrp'
  cases hmove with
  | idle => exact h rp' hrp' hw
  | submitted =>
    rw [← Option.some.inj hrp']
    rfl
  | resumed | cancelled | started =>
    rw [← Option.some.inj hrp'] at hw
    exact nomatch hw
  | ticked rp t frame hv =>
    have hframe := (tickProgram_frame B ⟨frame, t.nowMs⟩ p rp a.sur a.loser).2.1
    rw [Option.some.inj hrp'] at hframe
    have hsame := hframe hw
    rw [hsame] at hw ⊢
    exact h rp hv hw

theorem step_unbegun (i : Input) (h : Unbegun s.programs) : Unbegun (step B s i).1.programs := by
  intro q rp' hrp' hw
  obtain ⟨a, _, hlook, _⟩ := step_project (B := B) (s := s) (p := q) i
  exact localStep_unbegun (h q) (hlook.symm.trans hrp') hw

end Proof

variable {σ τ : Type}

theorem unbegun_new (env : Env σ τ) : Unbegun (new env).programs := by
  intro p rp hrp
  have hnone : (new env).programs.lookup p = none := AList.lookup_empty p
  exact nomatch hnone.symm.trans hrp

def UncontendedStep (B : Backends σ τ) (s : Scheduler σ τ) (i : Input) : Prop :=
  ∀ t frame, i = .tick t → t.capture = some frame →
    Uncontended B ⟨frame, t.nowMs⟩ (t.arrange s.programs.keys).1 s

/-- The calls of a tick on one device are on behalf of one program, and a program whose
firing was deferred is where it was in its body. -/
structure ExclusiveStep (B : Backends σ τ) (s : Scheduler σ τ) (t : TickInput) : Prop where
  devices : ∀ m ∈ (step B s (.tick t)).2, ∀ n ∈ (step B s (.tick t)).2, ∀ p q c c' r r',
    m.obs = .called p c r → n.obs = .called q c' r' → c.device = c'.device → p = q
  losers : ∀ m ∈ (step B s (.tick t)).2, ∀ p st reason rp rp',
    m.obs = .emitted (.actionDeferred p st reason) → s.programs.lookup p = some rp →
    (step B s (.tick t)).1.programs.lookup p = some rp' → rp'.cursor = rp.cursor

theorem step_exclusive {B : Backends σ τ} {s : Scheduler σ τ} (t : TickInput)
    (hfresh : Unbegun s.programs) (h : UncontendedStep B s (.tick t)) : ExclusiveStep B s t := by
  cases hc : t.capture with
  | none =>
    have hout : (step B s (.tick t)).2 =
        [⟨t.nowMs, s.programs, .emitted (.tickFrameSkipped "capture_failed")⟩] := by
      simp only [step, tickOnce, hc]
    constructor
    · intro m hm n _ p q c c' r r' hobs
      rw [hout] at hm
      rw [List.mem_singleton.mp hm] at hobs
      cases hobs
    · intro m hm p st reason rp rp' hobs
      rw [hout] at hm
      rw [List.mem_singleton.mp hm] at hobs
      cases hobs
  | some frame =>
    have hperm := (t.arrange s.programs.keys).2
    have hun := h t frame rfl hc
    have hstep : step B s (.tick t) =
        capturedTick B ⟨frame, t.nowMs⟩ (t.arrange s.programs.keys).1 s := by
      simp only [step, tickOnce, hc]
    constructor
    · intro m hm n hn p q c c' r r' hmc hnc hdev
      rw [hstep] at hm hn
      have hp := called_touches hperm hm hmc
      have hq := called_touches hperm hn hnc
      exact hun.devices p q c'.device (hdev ▸ hp) hq
    · intro m hm p st reason rp rp' hobs hrp hrp'
      rw [hstep] at hm hrp'
      exact deferral_stays hperm hun hfresh hm hobs hrp hrp'

/-- Over whole runs: as long as no tick is contended, every tick is exclusive. -/
theorem input_exclusive (B : Backends σ τ) (env : Env σ τ) (is : List Input)
    (h : ∀ x ∈ trail (step B) (new env) is, UncontendedStep B x.1 x.2) :
    ∀ x ∈ trail (step B) (new env) is, ∀ t, x.2 = .tick t → ExclusiveStep B x.1 t := by
  intro x hx t ht
  have hfresh : Unbegun x.1.programs :=
    trail_invariant (I := fun s : Scheduler σ τ => Unbegun s.programs)
      (unbegun_new env) (fun r _ hr => step_unbegun r.2 hr) x hx
  exact step_exclusive t hfresh (ht ▸ h x hx)

def contender (text : String) : Program :=
  { Program.blank "demo" with
    watches := [{ when_ := .byName "go", steps := [.type text], throttleMs := 0,
                  lifetime := .persistent }]
    body := [.sleepMs 1000, .type text] }

def contend : List Input :=
  [.command (.submitValidated ⟨1⟩ (contender "a") ∅) 0,
    .command (.submitValidated ⟨2⟩ (contender "b") ∅) 0, .tick (.plain .dot 10)]

def contenders : Scheduler Unit Unit :=
  (step (Backends.constant (.ok ⟨true, none, 0⟩))
    (step (Backends.constant (.ok ⟨true, none, 0⟩)) (new ⟨(), ()⟩)
      (.command (.submitValidated ⟨1⟩ (contender "a") ∅) 0)).1
    (.command (.submitValidated ⟨2⟩ (contender "b") ∅) 0)).1

section Contenders

theorem contenders_lookup {p : ProgramId} {rp : RunningProgram}
    (h : (evaluated (Backends.constant (.ok ⟨true, none, 0⟩)) ⟨.dot, 10⟩ [⟨2⟩, ⟨1⟩]
      contenders).1.programs.lookup p = some rp) :
    rp.bodyState.deferred = none ∧ rp.program.body[rp.cursor]? = some (.sleepMs 1000) := by
  by_cases hone : p = ⟨1⟩
  · subst hone
    obtain rfl := Option.some.inj h
    exact ⟨rfl, rfl⟩
  by_cases htwo : p = ⟨2⟩
  · subst htwo
    obtain rfl := Option.some.inj h
    exact ⟨rfl, rfl⟩
  have habsent : contenders.programs.lookup p = none :=
    (AList.lookup_insert_ne htwo).trans
      ((AList.lookup_insert_ne hone).trans (AList.lookup_empty p))
  rw [evaluated_programs, (triggered_none _ _ _ habsent).1] at h
  exact nomatch h

theorem contenders_decisions :
    (decisions (Backends.constant (.ok ⟨true, none, 0⟩)) ⟨.dot, 10⟩ [⟨2⟩, ⟨1⟩] contenders).map
      (fun dec => (dec.programId, dec.dispatch)) = [(⟨2⟩, true), (⟨1⟩, false)] := by
  decide +kernel

theorem uncontended_contenders :
    Uncontended (Backends.constant (.ok ⟨true, none, 0⟩)) ⟨.dot, 10⟩ [⟨2⟩, ⟨1⟩] contenders := by
  have hwinner : ∀ p d, Touches (Backends.constant (.ok ⟨true, none, 0⟩)) ⟨.dot, 10⟩ [⟨2⟩, ⟨1⟩]
      contenders p d → p = ⟨2⟩ := by
    rintro p d ⟨rp, hrp, -, ⟨-, s, hs, hd⟩ | ⟨dec, hdec, rfl, hwins, -⟩⟩
    · obtain rfl := Option.some.inj ((contenders_lookup hrp).2.symm.trans hs)
      exact nomatch hd
    · have hmem := List.mem_map_of_mem (f := fun dec => (dec.programId, dec.dispatch)) hdec
      rw [contenders_decisions, hwins] at hmem
      simpa using hmem
  refine ⟨fun p q d hp hq => (hwinner p d hp).trans (hwinner q d hq).symm, ?_⟩
  intro p rp _ hrp
  obtain ⟨hfresh, hsleep⟩ := contenders_lookup hrp
  simp only [RunningProgram.mayAdvance, hfresh, hsleep]

end Contenders

theorem input_exclusive_two_programs :
    ExclusiveStep (Backends.constant (.ok ⟨true, none, 0⟩)) contenders (.plain .dot 10) ∧
      (∃ m ∈ (step (Backends.constant (.ok ⟨true, none, 0⟩)) contenders
        (.tick (.plain .dot 10))).2, ∃ r, m.obs = .called ⟨2⟩ (.typeText "b") r) ∧
      ∃ m ∈ (step (Backends.constant (.ok ⟨true, none, 0⟩)) contenders
        (.tick (.plain .dot 10))).2, ∃ st reason, m.obs = .emitted (.actionDeferred ⟨1⟩ st reason) := by
  refine ⟨?_, ?_, ?_⟩
  · refine input_exclusive _ ⟨(), ()⟩ contend ?_ _ (List.mem_of_getElem? (i := 2) rfl) _ rfl
    intro x hx t frame ht hframe
    rcases List.mem_cons.mp hx with rfl | hx
    · exact nomatch ht
    rcases List.mem_cons.mp hx with rfl | hx
    · exact nomatch ht
    obtain rfl := List.mem_singleton.mp hx
    obtain rfl := Input.tick.inj ht
    obtain rfl := Option.some.inj hframe
    exact uncontended_contenders
  · exact ⟨_, List.mem_of_getElem? (i := 7) rfl, _, rfl⟩
  · exact ⟨_, List.mem_of_getElem? (i := 9) rfl, _, _, rfl⟩

def bodiesRun (bodies : List (ProgramId × List Step)) : List Input :=
  (bodies.map fun b => .command (.submitValidated b.1 { Program.blank "demo" with body := b.2 } ∅) 0)
    ++ [.tick (.plain .dot 10)]

/-- Two programs with a text to type as their whole body: one tick types both texts. -/
theorem two_bodies_share_the_keyboard :
    ¬ ∀ x ∈ trail (step (Backends.constant (.ok ⟨true, none, 0⟩))) (new ⟨(), ()⟩)
        (bodiesRun [(⟨1⟩, [.type "a"]), (⟨2⟩, [.type "b"])]),
      ∀ t, x.2 = .tick t → ExclusiveStep (Backends.constant (.ok ⟨true, none, 0⟩)) x.1 t := by
  intro h
  have htick := h _ (List.mem_of_getElem? (i := 2) rfl) _ rfl
  have heq := htick.devices _ (List.mem_of_getElem? (i := 2) rfl) _
    (List.mem_of_getElem? (i := 6) rfl) ⟨2⟩ ⟨1⟩ (.typeText "b") (.typeText "a") (.ok ()) (.ok ())
    rfl rfl rfl
  exact absurd heq (by decide)

end Scheduler

end Vcli

import Vcli.Core.Roundtrip
import Vcli.Core.EventCodec
import Vcli.Runtime.News

/-! The JSON that the events of the scheduler carry. It is made of the steps of a program and the
id of another one, so it is read back whatever the reader does to floats. -/

namespace Vcli

open Interaction

def EventData.OfSteps : EventData → Prop
  | actionDispatched _ step _ => ∃ s : Step, step = s.toValue
  | actionDeferred _ step reason => (∃ steps : List Step, step = .array (steps.map Step.toValue)) ∧
      ∃ winner, reason = .object [("conflict_with", .string winner)]
  | _ => True

def Obs.OfSteps : Obs → Prop
  | emitted data => data.OfSteps
  | _ => True

section Payloads
variable {ρ : F64 → F64}

theorem Target.readBack (t : Target) {around : Nat} (h : around ≤ 126) :
    t.toValue.ReadBack ρ around := by
  cases t with
  | absolute p => simp [toValue, Point.toValue]; omega
  | expression s => simp [toValue]; omega

theorem Step.readBack (s : Step) {around : Nat} (h : around ≤ 125) :
    s.toValue.ReadBack ρ around := by
  have ht : ∀ t : Target, t.toValue.ReadBack ρ (around + 1) := fun t => t.readBack (by omega)
  cases s with
  | move at_ => simp [toValue, ht]; omega
  | click at_ button =>
    rw [toValue]
    split_ifs
    · simp [ht]; omega
    · cases button <;> simp [ht, Button.toValue] <;> omega
  | type text => simp [toValue]; omega
  | key name modifiers =>
    have hm : ∀ m : Modifier, m.toValue.ReadBack ρ (around + 1 + 1) := by
      intro m
      cases m <;> simp [Modifier.toValue] <;> omega
    rw [toValue]
    split_ifs
    · simp; omega
    · simp [hm]; omega
  | scroll at_ dx dy => simp [toValue, ht]; omega
  | waitFor predicate timeoutMs onTimeout =>
    cases onTimeout <;> simp [toValue, OnTimeout.toValue] <;> omega
  | assert predicate onFail => cases onFail <;> simp [toValue, OnFail.toValue] <;> omega
  | sleepMs ms => simp [toValue]; omega

theorem EventData.OfSteps.readBack {data : EventData} (h : data.OfSteps) :
    ∀ v ∈ data.payloads, v.ReadBack ρ 2 := by
  intro v hv
  match data, h with
  | actionDispatched _ _ _, ⟨s, rfl⟩ =>
    rw [List.mem_singleton.mp hv]
    exact s.readBack (by decide)
  | actionDeferred _ _ _, ⟨⟨steps, rfl⟩, winner, rfl⟩ =>
    rcases List.mem_cons.mp hv with rfl | hv
    · rw [Json.readBack_array]
      refine ⟨by decide, fun w hw => ?_⟩
      obtain ⟨s, -, rfl⟩ := List.mem_map.mp hw
      exact s.readBack (by decide)
    · rw [List.mem_singleton.mp hv]
      simp

end Payloads

section Stages
variable {σ τ : Type} (B : Backends σ τ) (tk : Tick) (id : ProgramId) (rp : RunningProgram)

theorem Obs.In.ofSteps {part : Part} {o : Obs} (h : o.In part id) (hp : part ≠ .act) :
    o.OfSteps := by
  match o, h with
  | perceived .., _ | decided .., _ | called .., _ => trivial
  | emitted (.actionDispatched ..), ⟨_, hpart⟩ => exact absurd hpart hp

theorem Obs.Exchange.ofSteps {o : Obs} (h : o.Exchange id) : o.OfSteps := by
  match o, h with
  | perceived .., _ | called .., _ => trivial

theorem ofSteps_dispatchSteps (c : Caller) (steps : List Step) :
    Emits Obs.OfSteps (dispatchSteps B tk c steps) := by
  induction steps with
  | nil => exact emits_pure _
  | cons s rest ih =>
    have haction : Emits Obs.OfSteps (dispatchAction B tk c s) :=
      (exchanges_dispatchAction B tk c s).mono fun _ _ h o ho => (h o ho).ofSteps
    refine emits_bind (emits_tell ?_) fun _ => emits_bind haction fun r => ?_
    · exact List.forall_mem_singleton.mpr ⟨s, rfl⟩
    · cases r with
      | error e => exact emits_pure _
      | ok u => exact ih

abbrev OfStepsAll (os : List (RunningProgram × Obs)) : Prop := ∀ o ∈ os, o.2.OfSteps

theorem ofStepsAll_map {os : List Obs} (h : ∀ o ∈ os, o.OfSteps) :
    OfStepsAll (os.map fun o => (rp, o)) := List.forall_mem_map.mpr h

theorem ofStepsAll_triggerPart (env : Env σ τ) : OfStepsAll (triggerPart B tk id env rp).2 := by
  have hseen : OfStepsAll ((triggerFires B tk id rp env).2.2.map fun o => (rp, o)) :=
    ofStepsAll_map rp fun o ho => (emits_triggerFires B tk id rp env o ho).ofSteps id (by decide)
  unfold triggerPart
  split_ifs
  · dsimp only [triggerProgram]
    split
    · exact List.forall_mem_append.mpr ⟨hseen, List.forall_mem_singleton.mpr trivial⟩
    · exact hseen
    · exact List.forall_mem_append.mpr ⟨hseen, List.forall_mem_singleton.mpr trivial⟩
  · exact List.forall_mem_nil _

theorem ofStepsAll_firePart (env : Env σ τ) (loser : Option ProgramId) (e : ProgEval) :
    OfStepsAll (firePart B tk id env loser e rp).2.1 := by
  have hseen := fun f : WatchFire =>
    ofStepsAll_map rp (ofSteps_dispatchSteps B tk (rp.caller id) f.steps env)
  have h := firePart_dispatched B tk id env rp loser e
  generalize firePart B tk id env loser e rp = r at h ⊢
  cases h with
  | idle => exact List.forall_mem_nil _
  | direct => exact List.forall_mem_singleton.mpr trivial
  | deferred f => exact List.forall_mem_singleton.mpr ⟨⟨f.steps, rfl⟩, _, rfl⟩
  | failed f | done f =>
    exact List.forall_mem_append.mpr ⟨hseen f, List.forall_mem_singleton.mpr trivial⟩

theorem ofStepsAll_completeProgram : OfStepsAll (completeProgram id rp).2 :=
  List.forall_mem_cons.mpr ⟨trivial, List.forall_mem_singleton.mpr trivial⟩

theorem ofStepsAll_bodyProgram (env : Env σ τ) : OfStepsAll (bodyProgram B tk id rp env).2.2 := by
  have hexchanges := exchanges_stepOnce B tk (rp.caller id) rp.program.body rp.cursor
    rp.bodyState env
  have hseen := ofStepsAll_map rp (List.forall_mem_append.mpr
    ⟨fun o ho => (hexchanges o ho).ofSteps id, List.forall_mem_singleton.mpr
      (show (Obs.stepped id rp.cursor (stepOnce B tk (rp.caller id) rp.program.body rp.cursor
        rp.bodyState env).1.1).OfSteps from trivial)⟩)
  have hbody := bodyProgram_run B tk id rp env
  generalize bodyProgram B tk id rp env = x at hbody ⊢
  cases hbody with
  | inert => exact List.forall_mem_nil _
  | kept => exact hseen
  | completed => exact List.forall_mem_append.mpr ⟨hseen, ofStepsAll_completeProgram id _⟩
  | failed => exact List.forall_mem_append.mpr ⟨hseen, List.forall_mem_singleton.mpr trivial⟩

theorem ofStepsAll_tickProgram (sur : Surroundings σ τ) (loser : Option ProgramId) :
    OfStepsAll (tickProgram B tk id sur loser rp).2 := by
  have htrigger := ofStepsAll_triggerPart B tk id rp sur.trigger
  unfold tickProgram
  dsimp only
  split_ifs
  · have heval : OfStepsAll
        (evalProgram B tk id (triggerPart B tk id sur.trigger rp).1 sur.eval).1.seen :=
      ofStepsAll_map _ fun o ho => (emits_evalWatches B tk id _ _ sur.eval o ho).ofSteps id
        (by decide)
    exact List.forall_mem_append.mpr ⟨htrigger, List.forall_mem_append.mpr ⟨heval,
      List.forall_mem_append.mpr ⟨ofStepsAll_firePart B tk id _ _ _ _,
        ofStepsAll_bodyProgram B tk id _ _⟩⟩⟩
  · exact htrigger

end Stages

section Runs
variable {σ τ : Type} {B : Backends σ τ} {p : ProgramId}

theorem ofSteps_localStep (v : Option RunningProgram) (a : LocalInput σ τ) :
    ∀ m ∈ (localStep B p v a).2, m.obs.OfSteps := by
  have hmove := localStep_move (B := B) (p := p) v a
  generalize localStep B p v a = r at hmove ⊢
  cases hmove with
  | idle => exact List.forall_mem_nil _
  | submitted | resumed =>
    exact List.forall_mem_cons.mpr ⟨trivial, List.forall_mem_singleton.mpr trivial⟩
  | cancelled | started => exact List.forall_mem_singleton.mpr trivial
  | ticked rp t frame =>
    exact List.forall_mem_map.mpr (ofStepsAll_tickProgram B ⟨frame, t.nowMs⟩ p rp a.sur a.loser)

/-- Whatever the scheduler does, the payloads of its events are steps. -/
theorem Scheduler.step_ofSteps {s : Scheduler σ τ} (i : Input) {m : Moment ProgramMap}
    (hm : m ∈ (Scheduler.step B s i).2) {e : EventData} (he : m.obs = .emitted e) :
    e.OfSteps := by
  cases hid : e.programIdOf with
  | none => cases e <;> trivial
  | some p =>
    obtain ⟨a, _, _, htrace⟩ := Scheduler.step_project (B := B) (s := s) (p := p) i
    have hmine : m.of p ∈ traceOf p (Scheduler.step B s i).2 :=
      mem_traceOf.mpr ⟨m, hm, by rw [he]; exact hid, rfl⟩
    rw [htrace] at hmine
    have hobs := ofSteps_localStep (B := B) _ a _ hmine
    rw [show (m.of p).obs = m.obs from rfl, he] at hobs
    exact hobs

end Runs

end Vcli

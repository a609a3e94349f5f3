import Vcli.Runtime.Scheduler

/-! Every observation a stage makes is on behalf of the program it runs for, and its kind
tells which part of the tick it comes from. -/

namespace Vcli

open Transducer Interaction

/-- The parts of a tick that look at the screen or act on it. -/
inductive Part
  | trigger
  | eval
  | act
deriving DecidableEq

def Site.part : Site → Part
  | .trigger => .trigger
  | .until _ | .watch _ => .eval
  | .body => .act

def Obs.In (part : Part) (id : ProgramId) : Obs → Prop
  | perceived i site _ => i = id ∧ site.part = part
  | decided i _ _ => i = id ∧ part = .eval
  | called i _ _ | emitted (.actionDispatched i ..) => i = id ∧ part = .act
  | _ => False

def Obs.Of (id : ProgramId) (o : Obs) : Prop := o.subject = some id

theorem Obs.In.of {part : Part} {id : ProgramId} {o : Obs} (h : o.In part id) : o.Of id := by
  match o, h with
  | perceived .., ⟨hi, _⟩ | decided .., ⟨hi, _⟩ | called .., ⟨hi, _⟩
  | emitted (.actionDispatched ..), ⟨hi, _⟩ => exact congrArg some hi

def Obs.Exchange (id : ProgramId) : Obs → Prop
  | perceived i site _ => i = id ∧ site = .body
  | called i _ _ => i = id
  | _ => False

theorem Obs.Exchange.acts {id : ProgramId} {o : Obs} (h : o.Exchange id) : o.In .act id := by
  match o, h with
  | perceived .., ⟨hi, hsite⟩ => exact ⟨hi, congrArg Site.part hsite⟩
  | called .., hi => exact ⟨hi, rfl⟩

section Steps
variable {σ τ : Type} (B : Backends σ τ) (tk : Tick) (c : Caller)

theorem emits_evaluateNamed (site : Site) (name : String) :
    Emits (Obs.In site.part c.id) (evaluateNamed B tk c site name) := by
  intro env o ho
  rw [List.mem_singleton.mp ho]
  exact ⟨rfl, rfl⟩

theorem exchanges_evaluateNamed (name : String) :
    Emits (Obs.Exchange c.id) (evaluateNamed B tk c .body name) := by
  intro env o ho
  rw [List.mem_singleton.mp ho]
  exact ⟨rfl, rfl⟩

theorem exchanges_callInput (call : InputCall) :
    Emits (Obs.Exchange c.id) (callInput B c call) := by
  intro env o ho
  rw [List.mem_singleton.mp ho]
  exact rfl

theorem exchanges_resolveTarget (target : Target) :
    Emits (Obs.Exchange c.id) (resolveTarget B tk c target) := by
  cases target with
  | absolute p => exact emits_pure _
  | expression s =>
    rw [resolveTarget]
    cases Expr.parse s with
    | error e => exact emits_pure _
    | ok e =>
      refine emits_bind (exchanges_evaluateNamed B tk c _) fun r => ?_
      cases r with
      | error err => exact emits_pure _
      | ok r => cases ha : e.accessor <;> exact emits_pure _

theorem exchanges_dispatchAt (target : Target) (f : Point → InputCall) :
    Emits (Obs.Exchange c.id) (dispatchAt B tk c target f) := by
  refine emits_bind (exchanges_resolveTarget B tk c target) fun r => ?_
  cases r with
  | error e => exact emits_pure _
  | ok p => exact exchanges_callInput B c _

theorem exchanges_dispatchAction (s : Step) :
    Emits (Obs.Exchange c.id) (dispatchAction B tk c s) := by
  cases s with
  | move | click | scroll => exact exchanges_dispatchAt B tk c _ _
  | type | key => exact exchanges_callInput B c _
  | waitFor | assert | sleepMs => exact emits_pure _

theorem emits_dispatchSteps (steps : List Step) :
    Emits (Obs.In .act c.id) (dispatchSteps B tk c steps) := by
  induction steps with
  | nil => exact emits_pure _
  | cons s rest ih =>
    have haction : Emits (Obs.In .act c.id) (dispatchAction B tk c s) :=
      (exchanges_dispatchAction B tk c s).mono fun _ _ h o ho => (h o ho).acts
    refine emits_bind (emits_tell ?_) fun _ => emits_bind haction fun r => ?_
    · intro o ho
      rw [List.mem_singleton.mp ho]
      exact ⟨rfl, rfl⟩
    · cases r with
      | error e => exact emits_pure _
      | ok u => exact ih

theorem exchanges_stepDeferred (d : BodyDefer) :
    Emits (Obs.Exchange c.id) (stepDeferred B tk c d) := by
  cases d with
  | sleep wakeAtMs =>
    rw [stepDeferred]
    split_ifs <;> exact emits_pure _
  | waitFor predicate deadlineMs onTimeout =>
    refine emits_bind (exchanges_evaluateNamed B tk c _) fun r => ?_
    cases r with
    | error e => exact emits_pure _
    | ok r =>
      dsimp only
      split_ifs
      · exact emits_pure _
      · cases onTimeout <;> exact emits_pure _
      · exact emits_pure _

theorem exchanges_stepFresh (s : Step) : Emits (Obs.Exchange c.id) (stepFresh B tk c s) := by
  cases s with
  | sleepMs | waitFor => exact emits_pure _
  | assert predicate onFail =>
    refine emits_bind (exchanges_evaluateNamed B tk c _) fun r => ?_
    cases r with
    | error e => exact emits_pure _
    | ok r =>
      dsimp only
      split_ifs
      · exact emits_pure _
      · cases onFail <;> exact emits_pure _
  | move | click | scroll | type | key =>
    exact emits_bind (exchanges_dispatchAction B tk c _) fun _ => emits_pure _

theorem exchanges_stepOnce (body : List Step) (cursor : Nat) (state : BodyState) :
    Emits (Obs.Exchange c.id) (stepOnce B tk c body cursor state) := by
  unfold stepOnce
  cases state.deferred with
  | some d => exact exchanges_stepDeferred B tk c d
  | none =>
    cases body[cursor]? with
    | none => exact emits_pure _
    | some s => exact exchanges_stepFresh B tk c s

theorem emits_stepOnce (body : List Step) (cursor : Nat) (state : BodyState) :
    Emits (Obs.In .act c.id) (stepOnce B tk c body cursor state) :=
  (exchanges_stepOnce B tk c body cursor state).mono fun _ _ h o ho => (h o ho).acts

variable (id : ProgramId) (rp : RunningProgram)

theorem emits_triggerFires : Emits (Obs.In .trigger id) (triggerFires B tk id rp) := by
  unfold triggerFires
  cases rp.program.trigger with
  | onSubmit | manual => exact emits_pure _
  | onPredicate name =>
    refine emits_bind (emits_evaluateNamed B tk (rp.caller id) _ _) fun r => ?_
    cases r <;> exact emits_pure _

theorem conditionOf_id (idx : Nat) (w : WatchWhen) : (conditionOf id rp idx w).2.id = id := by
  cases w <;> rfl

theorem emits_evalCondition (idx : Nat) (w : Watch) :
    Emits (Obs.In .eval id) (evalCondition B tk id rp idx w) := by
  have hq := emits_evaluateNamed B tk (conditionOf id rp idx w.when_).2 (.watch idx)
    (conditionOf id rp idx w.when_).1
  rw [conditionOf_id] at hq
  refine emits_bind hq fun r => ?_
  cases r with
  | error e => exact emits_pure _
  | ok r =>
    refine emits_bind (emits_tell ?_) fun _ => emits_pure _
    intro o ho
    rw [List.mem_singleton.mp ho]
    exact ⟨rfl, rfl⟩

theorem emits_evalWatch (idx : Nat) (w : Watch) :
    Emits (Obs.In .eval id) (evalWatch B tk id rp idx w) := by
  unfold evalWatch
  split_ifs
  · exact emits_pure _
  · cases w.lifetime with
    | untilPredicate name =>
      refine emits_bind (emits_evaluateNamed B tk (rp.caller id) _ _) fun r => ?_
      cases r with
      | error e => exact emits_evalCondition B tk id rp idx w
      | ok r =>
        dsimp only
        split_ifs
        · exact emits_pure _
        · exact emits_evalCondition B tk id rp idx w
    | oneShot | persistent | timeoutMs => exact emits_evalCondition B tk id rp idx w

theorem emits_evalWatches (ws : List (Watch × Nat)) :
    Emits (Obs.In .eval id) (evalWatches B tk id rp ws) := by
  induction ws with
  | nil => exact emits_pure _
  | cons w ws ih =>
    exact emits_bind (emits_evalWatch B tk id rp w.2 w.1) fun _ =>
      emits_bind ih fun _ => emits_pure _

end Steps

def Stage.Owned {σ τ : Type} (g : ProgramId → Stage σ τ) : Prop :=
  ∀ id rp env, ∀ o ∈ (g id rp env).2.2, o.2.Of id

section Stages
variable {σ τ : Type} {B : Backends σ τ} {tk : Tick}

theorem owned_map {part : Part} {id : ProgramId} (rp : RunningProgram) {os : List Obs}
    (h : ∀ o ∈ os, o.In part id) : ∀ o ∈ os.map fun o => (rp, o), o.2.Of id := by
  intro o ho
  obtain ⟨x, hx, rfl⟩ := List.mem_map.mp ho
  exact (h x hx).of

theorem owned_append {id : ProgramId} {l r : List (RunningProgram × Obs)}
    (hl : ∀ o ∈ l, o.2.Of id) (hr : ∀ o ∈ r, o.2.Of id) : ∀ o ∈ l ++ r, o.2.Of id :=
  fun o ho => (List.mem_append.mp ho).elim (hl o) (hr o)

theorem owned_singleton {id : ProgramId} {o : RunningProgram × Obs} (h : o.2.Of id) :
    ∀ x ∈ [o], x.2.Of id := by
  intro x hx
  rwa [List.mem_singleton.mp hx]

theorem owned_triggerProgram : Stage.Owned (triggerProgram B tk) := by
  intro id rp env
  have hf := owned_map rp (emits_triggerFires B tk id rp env)
  unfold triggerProgram
  dsimp only
  split
  · exact owned_append hf (owned_singleton rfl)
  · exact hf
  · exact owned_append hf (owned_singleton rfl)

theorem owned_directProgram (fire : WatchFire) :
    Stage.Owned (fun id => (directProgram id fire : Stage σ τ)) :=
  fun _ _ _ => owned_singleton rfl

theorem owned_dispatchProgram (B : Backends σ τ) (tk : Tick) (fire : WatchFire) :
    Stage.Owned (fun id => dispatchProgram B tk id fire) := by
  intro id rp env
  have hf := owned_map rp (emits_dispatchSteps B tk (rp.caller id) fire.steps env)
  unfold dispatchProgram
  dsimp only
  split <;> exact owned_append hf (owned_singleton rfl)

theorem owned_deferProgram (fire : WatchFire) (winner : ProgramId) :
    Stage.Owned (fun id => (deferProgram id fire winner : Stage σ τ)) :=
  fun _ _ _ => owned_singleton rfl

theorem owned_completeProgram (id : ProgramId) (rp : RunningProgram) :
    ∀ o ∈ (completeProgram id rp).2, o.2.Of id :=
  owned_append (l := [_]) (owned_singleton rfl) (owned_singleton rfl)

theorem owned_bodyProgram : Stage.Owned (bodyProgram B tk) := by
  intro id rp env
  have hf : ∀ o ∈ ((stepOnce B tk (rp.caller id) rp.program.body rp.cursor rp.bodyState env).2.2 ++
      [Obs.stepped id rp.cursor (stepOnce B tk (rp.caller id) rp.program.body rp.cursor
        rp.bodyState env).1.1]).map (fun o => (rp, o)), o.2.Of id := by
    rw [List.map_append]
    exact owned_append (owned_map rp (emits_stepOnce B tk (rp.caller id) _ _ _ env))
      (owned_singleton rfl)
  have hbody := bodyProgram_run B tk id rp env
  generalize bodyProgram B tk id rp env = x at hbody ⊢
  cases hbody with
  | inert =>
    intro o ho
    exact absurd ho List.not_mem_nil
  | kept => exact hf
  | completed => exact owned_append hf (owned_completeProgram id _)
  | failed => exact owned_append hf (owned_singleton rfl)

theorem owned_evalProgram (id : ProgramId) (rp : RunningProgram) (env : Env σ τ) :
    ∀ o ∈ (evalProgram B tk id rp env).1.seen, o.2.Of id :=
  owned_map rp (emits_evalWatches B tk id rp _ env)

end Stages

end Vcli

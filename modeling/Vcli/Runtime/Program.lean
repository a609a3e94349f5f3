import Vcli.Runtime.Body

/-! The scheduler's view of one program and what a single program does in each stage of a
tick. A stage works on the program and the environment; every observation it makes is
paired with the program as it stood at that moment. -/

namespace Vcli

structure WatchRuntime where
  lastFiredMs : Option UnixMs := none
  lastTruthy : Bool := false
  retired : Bool := false
deriving DecidableEq, Repr

structure RunningProgram where
  program : Program
  assets : Assets
  state : ProgramState
  runningSinceMs : Option UnixMs
  bodyCursor : Option Nat
  watchState : Std.ExtTreeMap Nat WatchRuntime
  resumedFrom : Option Nat
  bodyState : BodyState

namespace RunningProgram

def pendingWithAssets (program : Program) (assets : Assets) : RunningProgram where
  program := program
  assets := assets
  state := .pending
  runningSinceMs := none
  bodyCursor := none
  watchState := ∅
  resumedFrom := none
  bodyState := {}

def bodyComplete (rp : RunningProgram) : Bool :=
  match rp.bodyCursor with
  | some n => decide (rp.program.body.length ≤ n)
  | none => rp.program.body.isEmpty

def activeWatchCount (rp : RunningProgram) : Nat :=
  (rp.watchState.toList.filter fun e => !e.2.retired).length

def watch (rp : RunningProgram) (idx : Nat) : WatchRuntime := rp.watchState[idx]?.getD {}

/-- `entry(idx).or_default()` followed by an update in place. -/
def modifyWatch (rp : RunningProgram) (idx : Nat) (f : WatchRuntime → WatchRuntime) :
    RunningProgram :=
  { rp with watchState := rp.watchState.insert idx (f (rp.watch idx)) }

def cursor (rp : RunningProgram) : Nat := rp.bodyCursor.getD 0

def caller (rp : RunningProgram) (id : ProgramId) : Caller :=
  ⟨id, rp.program.predicates, rp.assets⟩

end RunningProgram

def decideWatch (watch : Watch) (state : WatchRuntime) (truthyNow : Bool)
    (nowMs runningSinceMs : UnixMs) : WatchDecision :=
  if state.retired then .skip
  else if (match watch.lifetime with
      | .timeoutMs ms => decide ((ms.toNat : Int) ≤ UnixMs.saturatingSub nowMs runningSinceMs)
      | _ => false) then .retire
  else if state.lastTruthy || !truthyNow then .skip
  else match state.lastFiredMs with
    | some last =>
      if UnixMs.saturatingSub nowMs last < watch.throttleMs.toNat then .skip else .fire
    | none => .fire

def afterFire (watch : Watch) (state : WatchRuntime) (nowMs : UnixMs) : WatchRuntime :=
  { state with
    lastFiredMs := some nowMs
    retired := if watch.lifetime = .oneShot then true else state.retired }

/-- What one watch contributed to a tick. -/
inductive WatchOutcome
  | inert
  | terminated (watch : Nat)
  | judged (watch : Nat) (truthy : Bool) (decision : WatchDecision)
deriving DecidableEq, Repr

def WatchOutcome.truthyEdge : WatchOutcome → Option (Nat × Bool)
  | judged idx t _ => some (idx, t)
  | _ => none

def WatchOutcome.retirement : WatchOutcome → Option Nat
  | terminated idx => some idx
  | judged idx _ .retire => some idx
  | _ => none

structure WatchFire where
  watch : Nat
  steps : List Step
  oneShot : Bool
deriving DecidableEq, Repr

structure ProgEval where
  id : ProgramId
  priority : Int
  outcomes : List WatchOutcome
  fires : List WatchFire
  seen : List (RunningProgram × Obs)

namespace ProgEval

def truthies (e : ProgEval) : List (Nat × Bool) := e.outcomes.filterMap WatchOutcome.truthyEdge

def retires (e : ProgEval) : List Nat := e.outcomes.filterMap WatchOutcome.retirement

end ProgEval

section Stages
variable {σ τ : Type}

/-- What a stage makes of a program and the environment, with what it observed. -/
abbrev Stage (σ τ : Type) := RunningProgram → Env σ τ →
  RunningProgram × Env σ τ × List (RunningProgram × Obs)

variable (B : Backends σ τ) (tk : Tick) (id : ProgramId)

def triggerFires (rp : RunningProgram) : Interaction (Env σ τ) Obs (Except RuntimeError Bool) :=
  match rp.program.trigger with
  | .onSubmit => pure (.ok true)
  | .manual => pure (.ok false)
  | .onPredicate name => do
    match ← evaluateNamed B tk (rp.caller id) .trigger name with
    | .error e => return .error (.perception e.toString)
    | .ok r => return .ok r.truthy

/-- Entry into `running`: the clock starts, the body is at its first step and every watch
gets a fresh entry. -/
def enterRunning (nowMs : UnixMs) (rp : RunningProgram) : RunningProgram :=
  { rp with
    state := .running
    runningSinceMs := some nowMs
    bodyCursor := some 0
    watchState := (List.range rp.program.watches.length).foldl (fun m i => m.insert i {})
      rp.watchState }

def triggerProgram : Stage σ τ := fun rp env =>
  let r := triggerFires B tk id rp env
  let seen := r.2.2.map fun o => (rp, o)
  match r.1 with
  | .ok true =>
    let rp' := enterRunning tk.nowMs rp
    (rp', r.2.1, seen ++
      [(rp', .emitted (.programStateChanged id .waiting .running "trigger_fired"))])
  | .ok false => (rp, r.2.1, seen)
  | .error e =>
    let rp' := { rp with state := .failed }
    (rp', r.2.1, seen ++ [(rp', .emitted (.programFailed id e.code.asStr none none))])

def conditionOf (rp : RunningProgram) (idx : Nat) : WatchWhen → String × Caller
  | .byName n => (n, rp.caller id)
  | .inline p =>
    let key := "__inline_" ++ toString idx
    (key, { rp.caller id with predicates := rp.program.predicates.insert key p })

def evalCondition (rp : RunningProgram) (idx : Nat) (w : Watch) :
    Interaction (Env σ τ) Obs WatchOutcome := do
  let q := conditionOf id rp idx w.when_
  match ← evaluateNamed B tk q.2 (.watch idx) q.1 with
  | .error _ => return .inert
  | .ok r =>
    let d := decideWatch w (rp.watch idx) r.truthy tk.nowMs (rp.runningSinceMs.getD tk.nowMs)
    Interaction.tell [.decided id idx d]
    return .judged idx r.truthy d

def evalWatch (rp : RunningProgram) (idx : Nat) (w : Watch) :
    Interaction (Env σ τ) Obs WatchOutcome :=
  if (rp.watch idx).retired then pure .inert
  else match w.lifetime with
    | .untilPredicate name => do
      match ← evaluateNamed B tk (rp.caller id) (.until idx) name with
      | .ok r => if r.truthy then return .terminated idx else evalCondition B tk id rp idx w
      | .error _ => evalCondition B tk id rp idx w
    | _ => evalCondition B tk id rp idx w

def evalWatches (rp : RunningProgram) : List (Watch × Nat) →
    Interaction (Env σ τ) Obs (List WatchOutcome)
  | [] => pure []
  | (w, idx) :: ws => do
    let o ← evalWatch B tk id rp idx w
    let os ← evalWatches rp ws
    return o :: os

def firesOf (rp : RunningProgram) (outcomes : List WatchOutcome) : List WatchFire :=
  outcomes.filterMap fun
    | .judged idx _ .fire => rp.program.watches[idx]?.map fun w =>
        ⟨idx, w.steps, decide (w.lifetime = .oneShot)⟩
    | _ => none

def evalProgram (rp : RunningProgram) (env : Env σ τ) : ProgEval × Env σ τ :=
  let r := evalWatches B tk id rp rp.program.watches.zipIdx env
  (⟨id, rp.program.priority, r.1, firesOf rp r.1, r.2.2.map fun o => (rp, o)⟩, r.2.1)

def directProgram (fire : WatchFire) : Stage σ τ := fun rp env =>
  (rp, env, [(rp, .emitted (.watchFired id fire.watch "watch"))])

def dispatchProgram (fire : WatchFire) : Stage σ τ := fun rp env =>
  let r := dispatchSteps B tk (rp.caller id) fire.steps env
  let seen := r.2.2.map fun o => (rp, o)
  match r.1 with
  | some e =>
    let rp' := { rp with state := .failed }
    (rp', r.2.1, seen ++ [(rp', .emitted (.programFailed id e.code.asStr
      (some ("watch[" ++ toString fire.watch ++ "]")) rp.program.onFail))])
  | none => (rp, r.2.1, seen ++ [(rp, .emitted (.watchFired id fire.watch "watch"))])

def deferProgram (fire : WatchFire) (winner : ProgramId) : Stage σ τ := fun rp env =>
  (rp, env, [(rp, .emitted (.actionDeferred id (.array (fire.steps.map Step.toValue))
    (.object [("conflict_with", .string winner.toString)])))])

def updateProgram (e : ProgEval) (rp : RunningProgram) : RunningProgram :=
  e.retires.foldl (fun rp idx => rp.modifyWatch idx fun wr => { wr with retired := true })
    (e.truthies.foldl
      (fun rp t => rp.modifyWatch t.1 fun wr => { wr with lastTruthy := t.2 }) rp)

def firedProgram (nowMs : UnixMs) (idx : Nat) (rp : RunningProgram) : RunningProgram :=
  match rp.program.watches[idx]? with
  | some w => rp.modifyWatch idx fun wr => afterFire w wr nowMs
  | none => rp

def completeProgram (rp : RunningProgram) : RunningProgram × List (RunningProgram × Obs) :=
  let rp' := { rp with state := .completed }
  (rp', [(rp', .emitted (.programStateChanged id .running .completed "body_complete")),
    (rp', .emitted (.programCompleted id rp.program.onComplete))])

def bodyProgram : Stage σ τ := fun rp env =>
  if rp.state = .running then
    let r := stepOnce B tk (rp.caller id) rp.program.body rp.cursor rp.bodyState env
    let left := { rp with bodyState := r.1.2 }
    let seen := (r.2.2 ++ [Obs.stepped id rp.cursor r.1.1]).map fun o => (rp, o)
    match r.1.1 with
    | .advanced =>
      let rp' := { left with bodyCursor := some (rp.cursor + 1) }
      if rp'.bodyComplete && rp'.activeWatchCount == 0 then
        let done := completeProgram id rp'
        (done.1, r.2.1, seen ++ done.2)
      else (rp', r.2.1, seen)
    | .stalled => (left, r.2.1, seen)
    | .bodyComplete =>
      if left.activeWatchCount == 0 then
        let done := completeProgram id left
        (done.1, r.2.1, seen ++ done.2)
      else (left, r.2.1, seen)
    | .failed e =>
      let rp' := { left with state := .failed }
      (rp', r.2.1, seen ++ [(rp', .emitted (.programFailed id e.code.asStr
        (some ("body[" ++ toString rp.cursor ++ "]")) rp.program.onFail))])
  else (rp, env, [])

def RunningProgram.stepTaken (rp : RunningProgram) (r : StepOutcome × BodyState) : RunningProgram :=
  { rp with
    bodyState := r.2
    bodyCursor := if r.1 = .advanced then some (rp.cursor + 1) else rp.bodyCursor }

/-- What the body stage makes of the verdict `r` on the step at the cursor: nothing, of a program
that does not run; else the record of the step, and after it nothing more, a completion or a
failure. -/
inductive BodyRun (rp : RunningProgram) (env : Env σ τ)
    (r : (StepOutcome × BodyState) × Env σ τ × List Obs) :
    RunningProgram × Env σ τ × List (RunningProgram × Obs) → Prop
  | inert (hrun : rp.state ≠ .running) : BodyRun rp env r (rp, env, [])
  | kept (hrun : rp.state = .running) :
    BodyRun rp env r (rp.stepTaken r.1, r.2.1,
      (r.2.2 ++ [Obs.stepped id rp.cursor r.1.1]).map fun o => (rp, o))
  | completed (hrun : rp.state = .running) :
    BodyRun rp env r ((completeProgram id (rp.stepTaken r.1)).1, r.2.1,
      ((r.2.2 ++ [Obs.stepped id rp.cursor r.1.1]).map fun o => (rp, o)) ++
        (completeProgram id (rp.stepTaken r.1)).2)
  | failed (hrun : rp.state = .running) (err : RuntimeError) (herr : r.1.1 = .failed err) :
    BodyRun rp env r ({ rp.stepTaken r.1 with state := .failed }, r.2.1,
      ((r.2.2 ++ [Obs.stepped id rp.cursor r.1.1]).map fun o => (rp, o)) ++
        [({ rp.stepTaken r.1 with state := .failed }, .emitted (.programFailed id err.code.asStr
          (some ("body[" ++ toString rp.cursor ++ "]")) rp.program.onFail))])

theorem bodyProgram_run (rp : RunningProgram) (env : Env σ τ) :
    BodyRun id rp env (stepOnce B tk (rp.caller id) rp.program.body rp.cursor rp.bodyState env)
      (bodyProgram B tk id rp env) := by
  unfold bodyProgram
  split_ifs with hrun
  · dsimp only
    generalize stepOnce B tk (rp.caller id) rp.program.body rp.cursor rp.bodyState env = r
    have hadv : r.1.1 = .advanced →
        rp.stepTaken r.1 = { rp with bodyState := r.1.2, bodyCursor := some (rp.cursor + 1) } := by
      intro h
      rw [RunningProgram.stepTaken, if_pos h]
    have hstay : r.1.1 ≠ .advanced → rp.stepTaken r.1 = { rp with bodyState := r.1.2 } := by
      intro h
      rw [RunningProgram.stepTaken, if_neg h]
    split
    · rename_i hout
      rw [← hadv hout]
      split_ifs
      · exact .completed hrun
      · exact .kept hrun
    · rename_i hout
      rw [← hstay (hout ▸ StepOutcome.noConfusion)]
      exact .kept hrun
    · rename_i hout
      rw [← hstay (hout ▸ StepOutcome.noConfusion)]
      split_ifs
      · exact .completed hrun
      · exact .kept hrun
    · rename_i err hout
      have hleft := hstay (hout ▸ StepOutcome.noConfusion)
      rw [show ({ rp with bodyState := r.1.2, state := .failed } : RunningProgram) =
        { rp.stepTaken r.1 with state := .failed } by rw [hleft]]
      exact .failed hrun err hout
  · exact .inert hrun

end Stages

end Vcli

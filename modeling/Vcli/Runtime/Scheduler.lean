import Vcli.Lib.Transducer
import Vcli.Runtime.Arbiter
import Vcli.Runtime.Program

/-! The scheduler: draining commands and running ticks over the map of programs. -/

namespace Vcli

open Transducer

/-- A `HashMap<ProgramId, RunningProgram>`; its iteration order is left to each tick. -/
abbrev ProgramMap := AList fun _ : ProgramId => RunningProgram

/-- An observation with the clock reading of its tick and what was live at that moment. -/
structure Moment (L : Type) where
  nowMs : UnixMs
  live : L
  obs : Obs

inductive SchedulerCommand
  | submitValidated (programId : ProgramId) (program : Program) (assets : Assets)
  | cancel (programId : ProgramId) (reason : String)
  | start (programId : ProgramId)
  | resumeRunning (programId : ProgramId) (fromStep : Nat) (program : Program) (assets : Assets)
  | shutdown

def SchedulerCommand.programId : SchedulerCommand → Option ProgramId
  | submitValidated id .. | cancel id _ | start id | resumeRunning id .. => some id
  | shutdown => none

def SchedulerCommand.inserts (c : SchedulerCommand) (id : ProgramId) : Prop :=
  match c with
  | submitValidated p .. | resumeRunning p .. => p = id
  | _ => False

instance (c : SchedulerCommand) (id : ProgramId) : Decidable (c.inserts id) := by
  unfold SchedulerCommand.inserts
  cases c <;> infer_instance

structure Scheduler (σ τ : Type) where
  programs : ProgramMap
  env : Env σ τ

/-- What a tick gets from outside: the capture, the clock and the iteration order of the
map, which can be any arrangement of its keys. -/
structure TickInput where
  capture : Option Frame
  nowMs : UnixMs
  arrange : (keys : List ProgramId) → { order : List ProgramId // order.Perm keys }

def TickInput.plain (frame : Frame) (nowMs : UnixMs) : TickInput :=
  ⟨some frame, nowMs, fun keys => ⟨keys, .refl keys⟩⟩

inductive Input
  | command (c : SchedulerCommand) (nowMs : UnixMs)
  | tick (t : TickInput)

namespace Scheduler

variable {σ τ : Type}

/-- Run a stage on one program of the map. -/
def lift (nowMs : UnixMs) (g : ProgramId → Stage σ τ) (s : Scheduler σ τ) (id : ProgramId) :
    Scheduler σ τ × List (Moment ProgramMap) :=
  match s.programs.lookup id with
  | none => (s, [])
  | some rp =>
    let r := g id rp s.env
    ({ programs := s.programs.insert id r.1, env := r.2.1 },
      r.2.2.map fun o => ⟨nowMs, s.programs.insert id o.1, o.2⟩)

def submitted (program : Program) (assets : Assets) : RunningProgram :=
  { RunningProgram.pendingWithAssets program assets with state := .waiting }

def resumed (nowMs : UnixMs) (fromStep : Nat) (program : Program) (assets : Assets) :
    RunningProgram :=
  { RunningProgram.pendingWithAssets program assets with
    state := .running
    runningSinceMs := some nowMs
    bodyCursor := some fromStep
    resumedFrom := some fromStep }

/-- One command of the drain loop. The submit and resume events are emitted before the new
entry is in the map. -/
def drainOne (s : Scheduler σ τ) (nowMs : UnixMs) :
    SchedulerCommand → Scheduler σ τ × List (Moment ProgramMap)
  | .shutdown => (s, [])
  | .submitValidated id program assets =>
    ({ s with programs := s.programs.insert id (submitted program assets) },
      [⟨nowMs, s.programs, .emitted (.programSubmitted id program.name)⟩,
       ⟨nowMs, s.programs, .emitted (.programStateChanged id .pending .waiting "submitted")⟩])
  | .cancel id reason => s.lift nowMs (fun id rp env =>
      let rp' := { rp with state := .cancelled }
      (rp', env, [(rp', .emitted (.programStateChanged id rp.state .cancelled reason))])) id
  | .start id => s.lift nowMs (fun id rp env =>
      let rp' := { rp with state := .running, runningSinceMs := some nowMs }
      (rp', env, [(rp', .emitted (.programStateChanged id rp.state .running "start"))])) id
  | .resumeRunning id fromStep program assets =>
    ({ s with programs := s.programs.insert id (resumed nowMs fromStep program assets) },
      [⟨nowMs, s.programs, .emitted (.programStateChanged id .failed .running "resume")⟩,
       ⟨nowMs, s.programs, .emitted (.programResumed id fromStep)⟩])

section Tick
variable (B : Backends σ τ) (tk : Tick) (order : List ProgramId) (s : Scheduler σ τ)

def stateIs (st : ProgramState) (s : Scheduler σ τ) (id : ProgramId) : Bool :=
  match s.programs.lookup id with
  | some rp => decide (rp.state = st)
  | none => false

def cleared : Scheduler σ τ :=
  { s with env := { s.env with perception := B.clear s.env.perception } }

def triggered : Scheduler σ τ × List (Moment ProgramMap) :=
  run (lift tk.nowMs (triggerProgram B tk)) (s.cleared B)
    (order.filter ((s.cleared B).stateIs .waiting))

def runningIds : List ProgramId := order.filter ((triggered B tk order s).1.stateIs .running)

def evalOne (s : Scheduler σ τ) (id : ProgramId) : Scheduler σ τ × List ProgEval :=
  match s.programs.lookup id with
  | none => (s, [])
  | some rp =>
    let r := evalProgram B tk id rp s.env
    ({ s with env := r.2 }, [r.1])

def evaluated : Scheduler σ τ × List ProgEval :=
  run (evalOne B tk) (triggered B tk order s).1 (runningIds B tk order s)

def directFires (evals : List ProgEval) : List (ProgramId × WatchFire) :=
  evals.filterMap fun e => match e.fires with
    | [] => none
    | f :: _ => if f.steps = [] then some (e.id, f) else none

def candidates (evals : List ProgEval) : List (Arbiter.Candidate WatchFire) :=
  evals.filterMap fun e => match e.fires with
    | [] => none
    | f :: _ => if f.steps = [] then none else some ⟨e.id, e.priority, f⟩

def decisions : List (Arbiter.Decision WatchFire) :=
  Arbiter.resolve (candidates (evaluated B tk order s).2)

structure Dispatching (σ τ : Type) where
  sched : Scheduler σ τ
  dispatched : List (ProgramId × Nat)
  failed : List ProgramId

def directOne (d : Dispatching σ τ) (f : ProgramId × WatchFire) :
    Dispatching σ τ × List (Moment ProgramMap) :=
  let r := d.sched.lift tk.nowMs (fun id => directProgram id f.2) f.1
  ({ d with sched := r.1, dispatched := d.dispatched ++ [(f.1, f.2.watch)] }, r.2)

/-- Whether one of the steps of a winning watch errs. -/
def dispatchErrs (d : Dispatching σ τ) (dec : Arbiter.Decision WatchFire) : Bool :=
  match d.sched.programs.lookup dec.programId with
  | some rp => (dispatchSteps B tk (rp.caller dec.programId) dec.payload.steps d.sched.env).1.isSome
  | none => false

def dispatchOne (d : Dispatching σ τ) (dec : Arbiter.Decision WatchFire) :
    Dispatching σ τ × List (Moment ProgramMap) :=
  if dec.dispatch then
    let r := d.sched.lift tk.nowMs (fun id => dispatchProgram B tk id dec.payload) dec.programId
    if dispatchErrs B tk d dec then
      ({ d with sched := r.1, failed := d.failed ++ [dec.programId] }, r.2)
    else
      ({ d with
          sched := r.1
          dispatched := d.dispatched ++ [(dec.programId, dec.payload.watch)] }, r.2)
  else match dec.loserOf with
    | some winner =>
      let r := d.sched.lift tk.nowMs (fun id => deferProgram id dec.payload winner) dec.programId
      ({ d with sched := r.1 }, r.2)
    | none => (d, [])

def fired : Dispatching σ τ × List (Moment ProgramMap) :=
  run (directOne tk) ⟨(evaluated B tk order s).1, [], []⟩
    (directFires (evaluated B tk order s).2)

def dispatched : Dispatching σ τ × List (Moment ProgramMap) :=
  run (dispatchOne B tk) (fired B tk order s).1 (decisions B tk order s)

def modify (f : RunningProgram → RunningProgram) (s : Scheduler σ τ) (id : ProgramId) :
    Scheduler σ τ × List (Moment ProgramMap) :=
  s.lift tk.nowMs (fun _ rp env => (f rp, env, [])) id

def updateOne (s : Scheduler σ τ) (e : ProgEval) : Scheduler σ τ × List (Moment ProgramMap) :=
  s.modify tk (updateProgram e) e.id

def firedOne (s : Scheduler σ τ) (f : ProgramId × Nat) :
    Scheduler σ τ × List (Moment ProgramMap) :=
  s.modify tk (firedProgram tk.nowMs f.2) f.1

def updated : Scheduler σ τ :=
  (run (firedOne tk)
    (run (updateOne tk) (dispatched B tk order s).1.sched (evaluated B tk order s).2).1
    (dispatched B tk order s).1.dispatched).1

def bodyOne (failed : List ProgramId) (s : Scheduler σ τ) (id : ProgramId) :
    Scheduler σ τ × List (Moment ProgramMap) :=
  if id ∈ failed then (s, []) else s.lift tk.nowMs (bodyProgram B tk) id

def stepped : Scheduler σ τ × List (Moment ProgramMap) :=
  run (bodyOne B tk (dispatched B tk order s).1.failed) (updated B tk order s)
    (runningIds B tk order s)

def evalMoments (programs : ProgramMap) (evals : List ProgEval) : List (Moment ProgramMap) :=
  evals.flatMap fun e => e.seen.map fun o => ⟨tk.nowMs, programs.insert e.id o.1, o.2⟩

def capturedTick : Scheduler σ τ × List (Moment ProgramMap) :=
  ((stepped B tk order s).1,
    (triggered B tk order s).2 ++
      (evalMoments tk (triggered B tk order s).1.programs (evaluated B tk order s).2 ++
        ((fired B tk order s).2 ++ ((dispatched B tk order s).2 ++ (stepped B tk order s).2))))

end Tick

def tickOnce (B : Backends σ τ) (t : TickInput) (s : Scheduler σ τ) :
    Scheduler σ τ × List (Moment ProgramMap) :=
  match t.capture with
  | none => (s, [⟨t.nowMs, s.programs, .emitted (.tickFrameSkipped "capture_failed")⟩])
  | some frame => capturedTick B ⟨frame, t.nowMs⟩ (t.arrange s.programs.keys).1 s

/-- One step of the scheduler thread: a drained command or a tick. -/
def step (B : Backends σ τ) (s : Scheduler σ τ) :
    Input → Scheduler σ τ × List (Moment ProgramMap)
  | .command c nowMs => s.drainOne nowMs c
  | .tick t => s.tickOnce B t

def new (env : Env σ τ) : Scheduler σ τ := ⟨∅, env⟩

end Scheduler

end Vcli

import Vcli.Daemon.Persist
import Vcli.Daemon.Startup
import Vcli.Runtime.News

/-! The daemon as one machine: the request handlers, the scheduler thread and the event pump
take turns in any order over the store and the two channels, and the process may die and be
started again at any point. -/

namespace Vcli

open Transducer

inductive Request
  | submit (programJson : Json) (baseDir : Option String)
  | cancel (programId : ProgramId)
  | start (programId : ProgramId)
  | resume (programId : ProgramId) (fromStart : Bool)
  | gc
  | shutdown

def cmdCapacity : Nat := 256

/-- `inflight` holds the commands of the handlers that are done with the store and wait to
send; `backlog` what start-up has still to send before the scheduler and the socket are up. -/
structure Daemon (σ τ α : Type) where
  store : Store α
  sched : Scheduler σ τ
  cmds : List SchedulerCommand
  events : List Event
  inflight : List SchedulerCommand
  backlog : List SchedulerCommand
  stopped : Bool

/-- What the outside sees of the daemon. -/
inductive Notice
  | answered (r : Except Ipc.ErrorPayload (Option SchedulerCommand))
  | collected (id : ProgramId) (state : ProgramState)
  | observed (m : Moment ProgramMap)

inductive DaemonInput (σ τ α : Type)
  | request (L : Loader α) (nowMs : UnixMs) (freshId : ProgramId) (r : Request)
  | deliver (i : Nat)
  | bootSend
  | drain (nowMs : UnixMs) (stamps : Nat → UnixMs)
  | tick (t : TickInput) (stamps : Nat → UnixMs)
  | pump
  | restart (L : Loader α) (nowMs : UnixMs) (env : Env σ τ)

def emitAll (stamps : Nat → UnixMs) (ms : List (Moment ProgramMap)) : List Event :=
  (ms.filterMap Moment.emission).mapIdx fun i data => ⟨stamps i, data⟩

namespace Daemon

variable {σ τ α : Type}

def startup (L : Loader α) (nowMs : UnixMs) (env : Env σ τ) (image : Store α) : Daemon σ τ α :=
  let opened := image.recoverRunningPrograms
  let reloaded := reloadWaitingPrograms L nowMs opened.2
  { store := reloaded.2
    sched := .new env
    cmds := []
    events := recoveryEvents nowMs opened.1 ++ [daemonStarted nowMs]
    inflight := []
    backlog := reloaded.1
    stopped := false }

def sending (d : Daemon σ τ α) (c : SchedulerCommand) : Daemon σ τ α :=
  { d with inflight := d.inflight ++ [c] }

/-- A request up to the point where its handler has nothing left but to send. -/
def request (L : Loader α) (nowMs : UnixMs) (freshId : ProgramId) (d : Daemon σ τ α) :
    Request → Daemon σ τ α × List Notice
  | .submit programJson baseDir =>
    match L.validateValue programJson with
    | .error e => (d, [.answered (.error e)])
    | .ok program =>
      let pid := program.id.getD freshId
      let r := submitLocked L d.store pid program baseDir nowMs
      let d := { d with store := r.2 }
      match r.1 with
      | .error e => (d, [.answered (.error e)])
      | .ok (program, assets) => (d.sending (.submitValidated pid program assets), [])
  | .resume pid fromStart =>
    let r := resumeLocked L d.store pid fromStart nowMs
    let d := { d with store := r.2 }
    match r.1 with
    | .error e => (d, [.answered (.error e)])
    | .ok (out, program, assets) =>
      (d.sending (.resumeRunning pid out.fromStep program assets), [])
  | .cancel pid => (d.sending (.cancel pid "user"), [])
  | .start pid => (d.sending (.start pid), [])
  | .gc =>
    let store := gcLocked L d.store nowMs
    ({ d with store := store },
      ((d.store.programs.rows.filter fun e => (store.row e.1).isNone).map fun e =>
        .collected e.1 e.2.state) ++ [.answered (.ok none)])
  | .shutdown => (d.sending .shutdown, [])

def unsent : SchedulerCommand → Except Ipc.ErrorPayload (Option SchedulerCommand)
  | .submitValidated .. =>
    .error { code := .daemonBusy, message := "scheduler command queue full" }
  | .cancel .. | .start _ => .error { code := .daemonBusy, message := "cmd queue full" }
  | .resumeRunning .. | .shutdown => .ok none

/-- One of the waiting handlers gets its turn at the channel: it sends as soon as there is
room, or finds the scheduler gone. -/
def deliver (d : Daemon σ τ α) (i : Nat) : Daemon σ τ α × List Notice :=
  match d.inflight[i]? with
  | none => (d, [])
  | some c =>
    if d.stopped then
      ({ d with inflight := d.inflight.eraseIdx i }, [.answered (unsent c)])
    else if d.cmds.length < cmdCapacity then
      ({ d with inflight := d.inflight.eraseIdx i, cmds := d.cmds ++ [c] },
        [.answered (.ok (some c))])
    else (d, [])

def bootSend (d : Daemon σ τ α) : Daemon σ τ α :=
  match d.backlog with
  | [] => d
  | c :: rest =>
    if d.cmds.length < cmdCapacity then { d with cmds := d.cmds ++ [c], backlog := rest } else d

def scheduled (d : Daemon σ τ α) (stamps : Nat → UnixMs)
    (r : Scheduler σ τ × List (Moment ProgramMap)) : Daemon σ τ α × List Notice :=
  ({ d with sched := r.1, events := d.events ++ emitAll stamps r.2 }, r.2.map .observed)

def drain (d : Daemon σ τ α) (nowMs : UnixMs) (stamps : Nat → UnixMs) :
    Daemon σ τ α × List Notice :=
  match d.cmds with
  | [] => (d, [])
  | .shutdown :: rest => ({ d with cmds := rest, stopped := true }, [])
  | c :: rest => { d with cmds := rest }.scheduled stamps (d.sched.drainOne nowMs c)

def pump (d : Daemon σ τ α) : Daemon σ τ α :=
  match d.events with
  | [] => d
  | ev :: rest => { d with store := pumpEvent d.store ev, events := rest }

def up (d : Daemon σ τ α) : Bool := d.backlog.isEmpty

def step (B : Backends σ τ) (d : Daemon σ τ α) :
    DaemonInput σ τ α → Daemon σ τ α × List Notice
  | .request L nowMs freshId r => if d.up then d.request L nowMs freshId r else (d, [])
  | .deliver i => d.deliver i
  | .bootSend => (d.bootSend, [])
  | .drain nowMs stamps => if d.up && !d.stopped then d.drain nowMs stamps else (d, [])
  | .tick t stamps =>
    if d.up && !d.stopped then d.scheduled stamps (d.sched.tickOnce B t) else (d, [])
  | .pump => (d.pump, [])
  | .restart L nowMs env => (startup L nowMs env d.store, [])

end Daemon

end Vcli

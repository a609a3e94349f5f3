import Vcli.Daemon.Effects
import Vcli.Daemon.Guarded
import Vcli.Lib.Polling

/-! The daemon process with its threads: the main thread from start-up to exit, the loop of the
scheduler thread, and the event pump. -/

namespace Vcli

open Transducer Polling

/-- Where `run_foreground` is: each phase waits for what its name says. -/
inductive MainPhase
  | booting
  | serving
  | closing
  | stopping
  | joining
  | pumping
  | exited
deriving DecidableEq

/-- `fired` tells whether the shutdown signal of the server has been sent. -/
structure Process (σ τ α : Type) where
  world : Guarded σ τ α
  loop : Phase
  main : MainPhase
  fired : Bool

def daemonStopped (nowMs : UnixMs) : Event := ⟨nowMs, .daemonStopped⟩

namespace Process

inductive Move (σ τ α : Type)
  | handle (K : Hazard α) (L : Loader α) (nowMs : UnixMs) (freshId : ProgramId) (r : Request)
  | deliver (i : Nat)
  | pump
  | signal
  | main (nowMs : UnixMs) (acceptFails : Bool)
  | scheduler (nowMs : UnixMs) (stamps : Nat → UnixMs) (t : TickInput)

variable {σ τ α : Type}

def start (L : Loader α) (nowMs : UnixMs) (env : Env σ τ) (image : Store α) : Process σ τ α :=
  ⟨.start L nowMs env image, .draining, .booting, false⟩

def mainTurn (s : Process σ τ α) (nowMs : UnixMs) (acceptFails : Bool) : Process σ τ α :=
  let d := s.world.daemon
  match s.main with
  | .booting =>
    if d.up then { s with main := .serving }
    else { s with world := { s.world with daemon := d.bootSend } }
  | .serving => if s.fired || acceptFails then { s with main := .closing } else s
  | .closing =>
    -- the send fails once the scheduler has gone, and waits while the channel is full
    if d.stopped then { s with main := .stopping }
    else if d.cmds.length < cmdCapacity then
      { s with
        world := { s.world with daemon := { d with cmds := d.cmds ++ [.shutdown] } }
        main := .stopping }
    else s
  | .stopping =>
    { s with
      world := Guarded.heard
        { s.world with daemon := { d with events := d.events ++ [daemonStopped nowMs] } }
      main := .joining }
  | .joining => if d.stopped then { s with main := .pumping } else s
  | .pumping => if d.events.isEmpty then { s with main := .exited } else s
  | .exited => s

/-- The scheduler thread runs from the end of start-up until it takes a `Shutdown`. -/
def running (s : Process σ τ α) : Bool := s.world.daemon.up && !s.world.daemon.stopped

/-- A turn of `run_until_shutdown`: a command, the look at the empty channel, the tick, the sleep. -/
def schedulerTurn (B : Backends σ τ) (s : Process σ τ α) (nowMs : UnixMs) (stamps : Nat → UnixMs)
    (t : TickInput) : Process σ τ α × List Notice :=
  if s.running then
    match s.loop with
    | .draining =>
      if s.world.daemon.cmds.isEmpty then ({ s with loop := .working }, [])
      else ({ s with world := (s.world.obey B (.drain nowMs stamps)).1 },
        (s.world.obey B (.drain nowMs stamps)).2)
    | .working =>
      ({ s with world := (s.world.obey B (.tick t stamps)).1, loop := .resting },
        (s.world.obey B (.tick t stamps)).2)
    | .resting => ({ s with loop := .draining }, [])
  else (s, [])

def handleTurn (B : Backends σ τ) (s : Process σ τ α) (K : Hazard α) (L : Loader α)
    (nowMs : UnixMs) (freshId : ProgramId) (r : Request) : Process σ τ α × List Notice :=
  if s.main = .booting then (s, [])
  else
    ({ s with
        world := (s.world.step B (K, .request L nowMs freshId r)).1
        fired := s.fired || match r with
          | .shutdown => true
          | _ => false },
      (s.world.step B (K, .request L nowMs freshId r)).2)

def turn (B : Backends σ τ) (s : Process σ τ α) : Move σ τ α → Process σ τ α × List Notice
  | .handle K L nowMs freshId r => s.handleTurn B K L nowMs freshId r
  | .deliver i =>
    ({ s with world := (s.world.obey B (.deliver i)).1 }, (s.world.obey B (.deliver i)).2)
  | .pump => ({ s with world := s.world.pump B }, [])
  -- the signal handlers are installed once start-up is over
  | .signal => (if s.main = .booting then s else { s with fired := true }, [])
  | .main nowMs acceptFails => (s.mainTurn nowMs acceptFails, [])
  | .scheduler nowMs stamps t => s.schedulerTurn B nowMs stamps t

/-- Nothing runs once the main thread has returned. -/
def step (B : Backends σ τ) (s : Process σ τ α) (m : Move σ τ α) : Process σ τ α × List Notice :=
  if s.main = .exited then (s, []) else s.turn B m

def view (s : Process σ τ α) : Phase × List SchedulerCommand := (s.loop, s.world.daemon.cmds)

def mark (s : Process σ τ α) : Move σ τ α → Option (Mark SchedulerCommand)
  | .scheduler .. =>
    if s.main = .exited || !s.running then none
    else match s.loop, s.world.daemon.cmds with
      | .draining, [] => some .emptied
      | .draining, c :: _ => some (.taken c)
      | .working, _ => some .worked
      | .resting, _ => some .woke
  | _ => none

def ticks (B : Backends σ τ) (s : Process σ τ α) (ms : List (Move σ τ α)) : Nat :=
  works (step B) mark s ms

def log (s : Process σ τ α) : List Event := s.world.sent ++ s.world.daemon.events

variable {B : Backends σ τ} {s : Process σ τ α}

theorem step_live (h : s.main ≠ .exited) (m : Move σ τ α) : step B s m = s.turn B m := if_neg h

theorem step_exited (h : s.main = .exited) (m : Move σ τ α) : step B s m = (s, []) := if_pos h

theorem running_iff : s.running = true ↔ s.world.daemon.up = true ∧ s.world.daemon.stopped = false := by
  rw [running, Bool.and_eq_true, Bool.not_eq_true']

theorem drain_cmds {d : Daemon σ τ α} {c : SchedulerCommand} {rest : List SchedulerCommand}
    (hcmds : d.cmds = c :: rest) (hup : d.up = true) (hrun : d.stopped = false) (nowMs : UnixMs)
    (stamps : Nat → UnixMs) : (d.step B (.drain nowMs stamps)).1.cmds = rest := by
  simp only [Daemon.step, hup, hrun, Bool.not_false, Bool.and_self, if_true, Daemon.drain, hcmds]
  cases c with
  | shutdown | submitValidated | cancel | start | resumeRunning => rfl

theorem schedulerTurn_turn (hrun : s.running = true) (nowMs : UnixMs) (stamps : Nat → UnixMs)
    (t : TickInput) {m : Mark SchedulerCommand} (hlive : s.main ≠ .exited)
    (hm : s.mark (.scheduler nowMs stamps t) = some m) :
    LoopStep s.view m (s.schedulerTurn B nowMs stamps t).1.view := by
  obtain ⟨hup, hgoes⟩ := running_iff.mp hrun
  simp only [mark, hlive, hrun, decide_false, Bool.not_true, Bool.or_self, Bool.false_eq_true,
    if_false] at hm
  simp only [schedulerTurn, hrun, if_true, view]
  cases hloop : s.loop with
  | draining =>
    cases hcmds : s.world.daemon.cmds with
    | nil =>
      simp only [hloop, hcmds] at hm
      obtain rfl := Option.some.inj hm
      simp only [List.isEmpty_nil, if_true, hcmds]
      exact .emptied
    | cons c rest =>
      simp only [hloop, hcmds] at hm
      obtain rfl := Option.some.inj hm
      have hrest : (s.world.obey B (.drain nowMs stamps)).1.daemon.cmds = rest :=
        drain_cmds hcmds hup hgoes nowMs stamps
      simp only [List.isEmpty_cons, Bool.false_eq_true, if_false, hrest]
      exact .taken c rest
  | working =>
    simp only [hloop] at hm
    obtain rfl := Option.some.inj hm
    have hsame : (s.world.obey B (.tick t stamps)).1.daemon.cmds = s.world.daemon.cmds :=
      Daemon.tick_cmds _ t stamps
    simp only [hsame]
    exact .worked _
  | resting =>
    simp only [hloop] at hm
    obtain rfl := Option.some.inj hm
    exact .woke _

theorem handled_cmds (w : Guarded σ τ α) (K : Hazard α) (L : Loader α) (nowMs : UnixMs)
    (freshId : ProgramId) (r : Request) :
    (w.step B (K, .request L nowMs freshId r)).1.daemon.cmds = w.daemon.cmds := by
  rcases w.step_request (B := B) K L nowMs freshId r with ⟨store, poisoned, heq⟩ | heq
  · rw [heq]
  · rw [heq]
    exact Daemon.request_cmds w.daemon L nowMs freshId r

theorem schedulerTurn_kept (nowMs : UnixMs) (stamps : Nat → UnixMs) (t : TickInput) :
    let r := (s.schedulerTurn B nowMs stamps t).1
    r.main = s.main ∧ r.fired = s.fired ∧ r.world.sent = s.world.sent ∧
      r.world.daemon.store = s.world.daemon.store ∧
      r.world.daemon.inflight = s.world.daemon.inflight ∧
      r.world.daemon.backlog = s.world.daemon.backlog := by
  have hdrain : ∀ d : Daemon σ τ α, let d' := (d.step B (.drain nowMs stamps)).1
      d'.store = d.store ∧ d'.inflight = d.inflight ∧ d'.backlog = d.backlog := by
    intro d
    rw [Daemon.step]
    split
    · rw [Daemon.drain]
      split <;> exact ⟨rfl, rfl, rfl⟩
    · exact ⟨rfl, rfl, rfl⟩
  have htick : ∀ d : Daemon σ τ α, let d' := (d.step B (.tick t stamps)).1
      d'.store = d.store ∧ d'.inflight = d.inflight ∧ d'.backlog = d.backlog := by
    intro d
    rw [Daemon.step]
    split <;> exact ⟨rfl, rfl, rfl⟩
  unfold schedulerTurn
  split
  · split
    · split
      · exact ⟨rfl, rfl, rfl, rfl, rfl, rfl⟩
      · exact ⟨rfl, rfl, List.append_nil _, hdrain _⟩
    · exact ⟨rfl, rfl, List.append_nil _, htick _⟩
    · exact ⟨rfl, rfl, rfl, rfl, rfl, rfl⟩
  · exact ⟨rfl, rfl, rfl, rfl, rfl, rfl⟩

theorem step_main {m : Move σ τ α} (h : ∀ nowMs acceptFails, m ≠ .main nowMs acceptFails) :
    (step B s m).1.main = s.main := by
  by_cases hlive : s.main = .exited
  · rw [step_exited hlive]
  rw [step_live hlive]
  cases m with
  | handle K L nowMs freshId r =>
    simp only [turn, handleTurn]
    split <;> rfl
  | signal =>
    simp only [turn]
    split <;> rfl
  | deliver | pump => rfl
  | main nowMs acceptFails => exact absurd rfl (h nowMs acceptFails)
  | scheduler nowMs stamps t => exact (schedulerTurn_kept nowMs stamps t).1

/-- The loop stays where it is, and what is sent goes to the end of the channel: a command of
start-up, one that a request is told to be accepted, or the last `Shutdown`. -/
structure Sends (s : Process σ τ α) (r : Process σ τ α × List Notice) : Prop where
  loop : r.1.loop = s.loop
  cmds : ∃ more, r.1.world.daemon.cmds = s.world.daemon.cmds ++ more ∧
    ∀ c ∈ more, s.main = .booting ∨ c = .shutdown ∨ .answered (.ok (some c)) ∈ r.2

theorem Sends.nothing {r : Process σ τ α × List Notice} (hloop : r.1.loop = s.loop)
    (hcmds : r.1.world.daemon.cmds = s.world.daemon.cmds) : s.Sends r :=
  ⟨hloop, [], by rw [hcmds, List.append_nil], by simp⟩

theorem sends_deliver (i : Nat) : s.Sends (s.turn B (.deliver i)) := by
  have hdaemon : ∃ more, (s.world.daemon.deliver i).1.cmds = s.world.daemon.cmds ++ more ∧
      ∀ c ∈ more, .answered (.ok (some c)) ∈ (s.world.daemon.deliver i).2 := by
    unfold Daemon.deliver
    split
    · exact ⟨[], (List.append_nil _).symm, by simp⟩
    · split_ifs
      · exact ⟨[], (List.append_nil _).symm, by simp⟩
      · exact ⟨_, rfl, by simp⟩
      · exact ⟨[], (List.append_nil _).symm, by simp⟩
  obtain ⟨more, hcmds, hall⟩ := hdaemon
  exact ⟨rfl, more, hcmds, fun c hc => .inr (.inr (hall c hc))⟩

theorem sends_main (nowMs : UnixMs) (acceptFails : Bool) :
    s.Sends (s.turn B (.main nowMs acceptFails)) := by
  unfold turn mainTurn
  cases hmain : s.main with
  | booting =>
    simp only
    split_ifs
    · exact .nothing rfl rfl
    · rw [Daemon.bootSend]
      split
      · exact .nothing rfl rfl
      · split_ifs
        · exact ⟨rfl, _, rfl, fun _ _ => .inl hmain⟩
        · exact .nothing rfl rfl
  | closing =>
    simp only
    split_ifs
    · exact .nothing rfl rfl
    · exact ⟨rfl, _, rfl, fun c hc => .inr (.inl (List.mem_singleton.mp hc))⟩
    · exact .nothing rfl rfl
  | serving | joining | pumping =>
    simp only
    split_ifs <;> exact .nothing rfl rfl
  | stopping | exited => exact .nothing rfl rfl

theorem running_of_mark {nowMs : UnixMs} {stamps : Nat → UnixMs} {t : TickInput}
    (hlive : s.main ≠ .exited) (hm : s.mark (.scheduler nowMs stamps t) = none) :
    s.running = false := by
  cases hrun : s.running with
  | false => rfl
  | true =>
    simp only [mark, hlive, hrun, decide_false, Bool.not_true, Bool.or_self,
      Bool.false_eq_true, if_false] at hm
    split at hm <;> cases hm

theorem step_sends {m : Move σ τ α} (hm : s.mark m = none) : s.Sends (step B s m) := by
  by_cases hlive : s.main = .exited
  · rw [step_exited hlive]
    exact .nothing rfl rfl
  rw [step_live hlive]
  cases m with
  | handle K L nowMs freshId r =>
    simp only [turn, handleTurn]
    split_ifs
    · exact .nothing rfl rfl
    · exact .nothing rfl (handled_cmds s.world K L nowMs freshId r)
  | deliver i => exact sends_deliver i
  | pump => exact .nothing rfl s.world.pump_kept.1
  | signal =>
    simp only [turn]
    split <;> exact .nothing rfl rfl
  | main nowMs acceptFails => exact sends_main nowMs acceptFails
  | scheduler nowMs stamps t =>
    rw [turn, schedulerTurn, running_of_mark hlive hm]
    exact .nothing rfl rfl

theorem polls : Polls (step B) (view : Process σ τ α → _) mark where
  turn s m c hm := by
    cases m with
    | scheduler nowMs stamps t =>
      by_cases hquiet : s.main = .exited ∨ s.running = false
      · rcases hquiet with h | h <;> simp [mark, h] at hm
      · obtain ⟨hlive, hon⟩ := not_or.mp hquiet
        have hrun : s.running = true := by simpa using hon
        rw [step_live hlive]
        exact schedulerTurn_turn hrun nowMs stamps t hlive hm
    | handle | deliver | pump | signal | main => cases hm
  phase s m hm := (step_sends hm).loop
  queue s m hm := by
    obtain ⟨more, hcmds, -⟩ := (step_sends (B := B) hm).cmds
    exact ⟨more, hcmds.symm⟩

end Process

end Vcli

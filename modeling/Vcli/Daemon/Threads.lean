import Vcli.Daemon.Lifecycle
import Vcli.Daemon.Mirror
import Vcli.Lib.Simulation

/-! The process with its threads does nothing that the daemon as one machine could not do, up to
the last event; and it comes up only when its waiting programs fit the channel. -/

namespace Vcli

open Transducer Polling

section Unscoped
variable {σ τ : Type} {B : Backends σ τ} {tk : Tick} {order : List ProgramId} {s : Scheduler σ τ}
  {m : Moment ProgramMap}

namespace Scheduler

theorem lift_subject {g : ProgramId → Stage σ τ} {nowMs : UnixMs} {id : ProgramId}
    (hg : Stage.Owned g) (hm : m ∈ (s.lift nowMs g id).2) : m.obs.subject = some id := by
  cases hid : s.programs.lookup id with
  | none => simp [lift_none hid] at hm
  | some rp =>
    rw [lift_some hid] at hm
    obtain ⟨o, ho, rfl⟩ := List.mem_map.mp hm
    exact hg id rp s.env o ho

theorem dispatchOne_subject {d : Dispatching σ τ} {dec : Arbiter.Decision WatchFire}
    (hm : m ∈ (dispatchOne B tk d dec).2) : m.obs.subject = some dec.programId := by
  unfold dispatchOne at hm
  split_ifs at hm
  · exact lift_subject (owned_dispatchProgram _ _ _) hm
  · exact lift_subject (owned_dispatchProgram _ _ _) hm
  · cases hwinner : dec.loserOf with
    | none => simp [hwinner] at hm
    | some winner =>
      rw [hwinner] at hm
      exact lift_subject (owned_deferProgram dec.payload winner) hm

theorem capturedTick_subject (hm : m ∈ (capturedTick B tk order s).2) :
    ∃ p, m.obs.subject = some p := by
  simp only [capturedTick, List.mem_append] at hm
  rcases hm with hm | hm | hm | hm | hm
  · obtain ⟨r, -, hout⟩ := mem_run_iff.mp hm
    exact ⟨_, lift_subject owned_triggerProgram hout⟩
  · obtain ⟨e, he, hseen⟩ := List.mem_flatMap.mp hm
    obtain ⟨o, ho, rfl⟩ := List.mem_map.mp hseen
    exact ⟨_, evaluated_owned e he o ho⟩
  · obtain ⟨r, -, hout⟩ := mem_run_iff.mp hm
    exact ⟨_, lift_subject (owned_directProgram _) hout⟩
  · obtain ⟨r, -, hout⟩ := mem_run_iff.mp hm
    exact ⟨_, dispatchOne_subject hout⟩
  · obtain ⟨r, -, hout⟩ := mem_run_iff.mp hm
    unfold bodyOne at hout
    split_ifs at hout
    · cases hout
    · exact ⟨_, lift_subject owned_bodyProgram hout⟩

theorem step_emits {i : Input} {e : EventData} (hm : m ∈ (step B s i).2)
    (he : m.obs = .emitted e) :
    (∃ p, e.programIdOf = some p) ∨ e = .tickFrameSkipped "capture_failed" := by
  have hsubject : ∀ p, m.obs.subject = some p → ∃ p, e.programIdOf = some p := by
    intro p hp
    rw [he] at hp
    exact ⟨p, hp⟩
  cases i with
  | command c nowMs =>
    left
    cases c with
    | shutdown => cases hm
    | submitValidated id program assets | resumeRunning id fromStep program assets =>
      simp only [step, drainOne, List.mem_cons, List.not_mem_nil, or_false] at hm
      rcases hm with rfl | rfl <;> exact ⟨id, by rw [← Obs.emitted.inj he]; rfl⟩
    | cancel id reason | start id =>
      refine hsubject id (lift_subject ?_ hm)
      intro id rp env
      exact owned_singleton rfl
  | tick t =>
    rw [step, tickOnce] at hm
    split at hm
    · rw [List.mem_singleton.mp hm] at he
      exact .inr (Obs.emitted.inj he).symm
    · obtain ⟨p, hp⟩ := capturedTick_subject hm
      exact .inl (hsubject p hp)

end Scheduler

end Unscoped

def Event.beforeStop (ev : Event) : Bool :=
  match ev.data with
  | .daemonStopped => false
  | _ => true

theorem beforeStop_daemonStopped (nowMs : UnixMs) : (daemonStopped nowMs).beforeStop = false := rfl

variable {σ τ α : Type} {B : Backends σ τ}

namespace Daemon

variable {d : Daemon σ τ α}

def unannounced (d : Daemon σ τ α) : Daemon σ τ α :=
  { d with events := d.events.filter Event.beforeStop }

theorem beforeStop_emitAll (i : Input) (stamps : Nat → UnixMs) (s : Scheduler σ τ) :
    (emitAll stamps (s.step B i).2).filter Event.beforeStop = emitAll stamps (s.step B i).2 := by
  rw [List.filter_eq_self]
  intro ev hev
  obtain ⟨m, hm, hobs⟩ := mem_emitAll hev
  rw [Event.beforeStop]
  split
  · rename_i hdata
    rcases Scheduler.step_emits hm hobs with ⟨p, hp⟩ | hskip
    · simp [hdata, EventData.programIdOf] at hp
    · simp [hdata] at hskip
  · rfl

theorem scheduled_unannounced (d : Daemon σ τ α) (i : Input) (stamps : Nat → UnixMs) :
    d.unannounced.scheduled stamps (d.sched.step B i) =
      ((d.scheduled stamps (d.sched.step B i)).1.unannounced,
        (d.scheduled stamps (d.sched.step B i)).2) := by
  simp only [scheduled, unannounced, List.filter_append, beforeStop_emitAll]

theorem request_unannounced (L : Loader α) (nowMs : UnixMs) (freshId : ProgramId)
    (d : Daemon σ τ α) (r : Request) : d.unannounced.request L nowMs freshId r =
      ((d.request L nowMs freshId r).1.unannounced, (d.request L nowMs freshId r).2) := by
  cases r with
  | submit programJson baseDir =>
    simp only [request]
    cases L.validateValue programJson with
    | error e => rfl
    | ok program =>
      dsimp only [unannounced]
      split <;> rfl
  | resume pid fromStart =>
    simp only [request]
    dsimp only [unannounced]
    split <;> rfl
  | cancel | start | gc | shutdown => rfl

theorem deliver_unannounced (d : Daemon σ τ α) (i : Nat) :
    d.unannounced.deliver i = ((d.deliver i).1.unannounced, (d.deliver i).2) := by
  cases hget : d.inflight[i]? with
  | none => simp only [deliver, unannounced, hget]
  | some c =>
    by_cases hstop : d.stopped = true
    · simp [deliver, unannounced, hget, hstop]
    · by_cases hroom : d.cmds.length < cmdCapacity
      · simp [deliver, unannounced, hget, hstop, hroom]
      · simp [deliver, unannounced, hget, hstop, hroom]

theorem bootSend_unannounced (d : Daemon σ τ α) :
    d.unannounced.bootSend = d.bootSend.unannounced := by
  cases hback : d.backlog with
  | nil => simp [bootSend, unannounced, hback]
  | cons c rest =>
    by_cases hroom : d.cmds.length < cmdCapacity
    · simp [bootSend, unannounced, hback, hroom]
    · simp [bootSend, unannounced, hback, hroom]

theorem drain_unannounced (B : Backends σ τ) (d : Daemon σ τ α) (nowMs : UnixMs)
    (stamps : Nat → UnixMs) :
    d.unannounced.drain nowMs stamps =
      ((d.drain nowMs stamps).1.unannounced, (d.drain nowMs stamps).2) := by
  unfold drain
  dsimp only [unannounced]
  split
  · rfl
  · rfl
  · rename_i c rest hno hcmds
    exact scheduled_unannounced (B := B) { d with cmds := rest } (.command c nowMs) stamps

theorem step_unannounced {i : DaemonInput σ τ α} (hpump : i ≠ .pump)
    (hi : ∀ L nowMs env, i ≠ .restart L nowMs env) :
    d.unannounced.step B i = ((d.step B i).1.unannounced, (d.step B i).2) := by
  cases i with
  | restart L nowMs env => exact absurd rfl (hi L nowMs env)
  | pump => exact absurd rfl hpump
  | deliver i => exact deliver_unannounced d i
  | bootSend => simp only [step, bootSend_unannounced]
  | request L nowMs freshId r =>
    by_cases hup : d.up = true
    · have hsame : d.unannounced.up = true := hup
      rw [step, step, if_pos hsame, if_pos hup]
      exact request_unannounced L nowMs freshId d r
    · have hsame : ¬ d.unannounced.up = true := hup
      rw [step, step, if_neg hsame, if_neg hup]
  | drain nowMs stamps =>
    by_cases hrun : (d.up && !d.stopped) = true
    · have hsame : (d.unannounced.up && !d.unannounced.stopped) = true := hrun
      rw [step, step, if_pos hsame, if_pos hrun]
      exact drain_unannounced B d nowMs stamps
    · have hsame : ¬ (d.unannounced.up && !d.unannounced.stopped) = true := hrun
      rw [step, step, if_neg hsame, if_neg hrun]
  | tick t stamps =>
    by_cases hrun : (d.up && !d.stopped) = true
    · have hsame : (d.unannounced.up && !d.unannounced.stopped) = true := hrun
      rw [step, step, if_pos hsame, if_pos hrun]
      exact scheduled_unannounced d (.tick t) stamps
    · have hsame : ¬ (d.unannounced.up && !d.unannounced.stopped) = true := hrun
      rw [step, step, if_neg hsame, if_neg hrun]

end Daemon

namespace Guarded

variable {w : Guarded σ τ α}

def unannounced (w : Guarded σ τ α) : Guarded σ τ α :=
  { w with daemon := w.daemon.unannounced, sent := w.sent.filter Event.beforeStop }

theorem obey_unannounced {i : DaemonInput σ τ α} (hpump : i ≠ .pump)
    (hi : ∀ L nowMs env, i ≠ .restart L nowMs env) :
    w.unannounced.obey B i = ((w.obey B i).1.unannounced, (w.obey B i).2) := by
  have hstep := Daemon.step_unannounced (B := B) (d := w.daemon) hpump hi
  have hnone : ∀ d : Daemon σ τ α, Broadcasting.published d i = [] := by
    intro d
    cases i with
    | pump => exact absurd rfl hpump
    | request | deliver | bootSend | drain | tick | restart => rfl
  simp only [obey, heard, Broadcasting.step_eq i hi, unannounced, hstep, hnone, List.append_nil]
  cases w.pumpGone <;> simp [Daemon.unannounced]

theorem request_unannounced (K : Hazard α) (L : Loader α) (nowMs : UnixMs) (freshId : ProgramId)
    (r : Request) : step B w.unannounced (K, .request L nowMs freshId r) =
      ((step B w (K, .request L nowMs freshId r)).1.unannounced,
        (step B w (K, .request L nowMs freshId r)).2) := by
  have hdaemon := Daemon.request_unannounced L nowMs freshId w.daemon r
  simp only [step]
  by_cases hup : w.daemon.up = true
  · have hsame : w.unannounced.daemon.up = true := hup
    rw [if_pos hsame, if_pos hup]
    unfold request
    dsimp only [unannounced] at hdaemon ⊢
    by_cases hlocked : (w.poisoned && r.locks L) = true
    · simp only [hlocked, if_true]
    · simp only [hlocked, Bool.false_eq_true, if_false]
      have hstore : w.daemon.unannounced.store = w.daemon.store := rfl
      rw [hstore]
      cases K.crashed L nowMs w.daemon.store r with
      | some store => rfl
      | none =>
        dsimp only
        rw [hdaemon]
  · have hsame : ¬ w.unannounced.daemon.up = true := hup
    rw [if_neg hsame, if_neg hup]

theorem pump_unannounced (w : Guarded σ τ α) :
    (w.pump B).unannounced = w.unannounced ∨ w.unannounced.pump B = (w.pump B).unannounced := by
  cases hevents : w.daemon.events with
  | nil =>
    right
    simp [pump, lethal, Broadcasting.step_pump, Daemon.pump, unannounced, Daemon.unannounced, hevents]
  | cons ev rest =>
    cases hkeep : ev.beforeStop with
    | true =>
      right
      by_cases hlethal : (w.poisoned && ev.data.programIdOf.isSome) = true
      · simp [pump, lethal, unannounced, Daemon.unannounced, hevents, hkeep, hlethal]
      · simp [pump, lethal, Broadcasting.step_pump, Daemon.pump, unannounced, Daemon.unannounced,
          hevents, hkeep, hlethal]
    | false =>
      left
      have hscope : ev.data.programIdOf = none := by
        rw [Event.beforeStop] at hkeep
        split at hkeep
        · rename_i hdata
          rw [hdata]
          rfl
        · cases hkeep
      simp [pump, lethal, Broadcasting.step_pump, Daemon.pump, pumpEvent, unannounced,
        Daemon.unannounced, hevents, hkeep, hscope]

def Silent (w : Guarded σ τ α) : Prop := w.pumpGone = true → w.daemon.events = []

theorem heard_silent (w : Guarded σ τ α) : w.heard.Silent := by
  intro hgone
  have hsame : w.pumpGone = true := hgone
  simp [heard, hsame]

theorem obey_bootSend (h : w.Silent) :
    w.obey B .bootSend = ({ w with daemon := w.daemon.bootSend }, []) := by
  have hevents : (if w.pumpGone = true then [] else w.daemon.bootSend.events) =
      w.daemon.bootSend.events := by
    split
    · rename_i hgone
      rw [Process.bootSend_events, h hgone]
    · rfl
  simp [obey, heard, Broadcasting.step, Broadcasting.published, Daemon.step, hevents]

theorem Silent.pump (h : w.Silent) : (w.pump B).Silent := by
  unfold Guarded.pump
  split
  · exact fun _ => rfl
  · intro hgone
    have hnone := h hgone
    simp [Broadcasting.step_pump, Daemon.pump, hnone]

end Guarded

namespace Process

variable {s : Process σ τ α}

/-- What is seen of the process, but that it acknowledges a `Shutdown`. -/
def seen : Notice → Option Notice
  | .answered (.ok (some .shutdown)) => none
  | n => some n

def Alive (i : Hazard α × DaemonInput σ τ α) : Prop := ∀ L nowMs env, i.2 ≠ .restart L nowMs env

def Follows (B : Backends σ τ) (s : Process σ τ α) (r : Process σ τ α × List Notice) : Prop :=
  ∃ inputs : List (Hazard α × DaemonInput σ τ α), (∀ i ∈ inputs, Alive i) ∧
    (run (Guarded.step B) s.world.unannounced inputs).1 = r.1.world.unannounced ∧
    (run (Guarded.step B) s.world.unannounced inputs).2.filterMap seen = r.2.filterMap seen

theorem Follows.idle {s' : Process σ τ α} (h : s'.world.unannounced = s.world.unannounced) :
    Follows B s (s', []) :=
  ⟨[], by simp, h.symm, rfl⟩

theorem Follows.input {r : Process σ τ α × List Notice} (i : Hazard α × DaemonInput σ τ α)
    (hi : Alive i) (h : Guarded.step B s.world.unannounced i = (r.1.world.unannounced, r.2)) :
    Follows B s r := by
  refine ⟨[i], by simpa using hi, ?_, ?_⟩
  · simp only [run_cons, run_nil, h]
  · simp only [run_cons, run_nil, h, List.append_nil]

theorem follows_scheduler (nowMs : UnixMs) (stamps : Nat → UnixMs) (t : TickInput) :
    Follows B s (s.schedulerTurn B nowMs stamps t) := by
  unfold schedulerTurn
  split
  · split
    · split
      · exact .idle rfl
      · refine .input (.calm, .drain nowMs stamps) (by simp [Alive]) ?_
        exact Guarded.obey_unannounced (by simp) (by simp)
    · refine .input (.calm, .tick t stamps) (by simp [Alive]) ?_
      exact Guarded.obey_unannounced (by simp) (by simp)
    · exact .idle rfl
  · exact .idle rfl

theorem follows_pump : Follows B s (s.turn B .pump) := by
  rcases Guarded.pump_unannounced (B := B) s.world with hsame | hstep
  · exact .idle hsame
  · refine .input (.calm, .pump) (by simp [Alive]) ?_
    simp only [Guarded.step, hstep, turn]

theorem follows_shutdown (L : Loader α) (hsilent : s.world.Silent)
    (hup : s.world.daemon.backlog = []) (hgoes : s.world.daemon.stopped = false)
    (hroom : s.world.daemon.cmds.length < cmdCapacity) (main : MainPhase) :
    let d := s.world.daemon
    Follows B s ({ s with
      world := { s.world with daemon := { d with cmds := d.cmds ++ [.shutdown] } }
      main := main }, []) := by
  have hlast : (s.world.daemon.inflight ++ [SchedulerCommand.shutdown]).eraseIdx
      s.world.daemon.inflight.length = s.world.daemon.inflight := by
    rw [List.eraseIdx_append_of_length_le (Nat.le_refl _)]
    simp
  have hkept : (if s.world.pumpGone = true then [] else
      s.world.daemon.events.filter Event.beforeStop) =
        s.world.daemon.events.filter Event.beforeStop := by
    split
    · rename_i hgone
      rw [hsilent hgone, List.filter_nil]
    · rfl
  refine ⟨[(.calm, .request L 0 ⟨0⟩ .shutdown), (.calm, .deliver s.world.daemon.inflight.length)],
    by simp [Alive], ?_, ?_⟩
  · simp [hlast, hkept, Guarded.step, Guarded.request, Request.locks, Hazard.crashed, Guarded.obey,
      Guarded.heard, Broadcasting.step, Broadcasting.published, Guarded.unannounced,
      Daemon.unannounced, Daemon.step, Daemon.up, Daemon.request, Daemon.sending, Daemon.deliver,
      hup, hgoes, hroom]
  · simp [Guarded.step, Guarded.request, Request.locks, Hazard.crashed, Guarded.obey,
      Guarded.unannounced, Daemon.unannounced, Daemon.step, Daemon.up, Daemon.request,
      Daemon.sending, Daemon.deliver, hup, hgoes, hroom, seen]

theorem follows_main (L : Loader α) (h : s.Phased) (hsilent : s.world.Silent) (nowMs : UnixMs)
    (acceptFails : Bool) : Follows B s (s.mainTurn nowMs acceptFails, []) := by
  unfold mainTurn
  cases hmain : s.main with
  | booting =>
    dsimp only
    split
    · exact .idle rfl
    · refine .input (.calm, .bootSend) (by simp [Alive]) ?_
      have hboot := Guarded.obey_unannounced (B := B) (w := s.world) (i := .bootSend)
        (by simp) (by simp)
      rw [Guarded.obey_bootSend hsilent] at hboot
      exact hboot
  | closing =>
    have hup := h.up (by simp [hmain])
    dsimp only
    split
    · exact .idle rfl
    · rename_i hgoes
      split
      · rename_i hroom
        exact follows_shutdown L hsilent hup (by simpa using hgoes) hroom .stopping
      · exact .idle rfl
  | stopping =>
    refine .idle ?_
    cases hgone : s.world.pumpGone with
    | false =>
      simp [Guarded.unannounced, Guarded.heard, Daemon.unannounced, beforeStop_daemonStopped, hgone]
    | true =>
      simp [Guarded.unannounced, Guarded.heard, Daemon.unannounced, hgone, hsilent hgone]
  | serving | joining | pumping =>
    dsimp only
    split <;> exact .idle rfl
  | exited => exact .idle rfl

theorem step_follows (L : Loader α) (h : s.Phased) (hsilent : s.world.Silent) (m : Move σ τ α) :
    Follows B s (step B s m) := by
  by_cases hlive : s.main = .exited
  · rw [step_exited hlive]
    exact .idle rfl
  rw [step_live hlive]
  cases m with
  | handle K L nowMs freshId r =>
    simp only [turn, handleTurn]
    split
    · exact .idle rfl
    · exact .input (K, .request L nowMs freshId r) (by simp [Alive])
        (Guarded.request_unannounced K L nowMs freshId r)
  | deliver i =>
    refine .input (.calm, .deliver i) (by simp [Alive]) ?_
    exact Guarded.obey_unannounced (by simp) (by simp)
  | pump => exact follows_pump
  | signal =>
    simp only [turn]
    split <;> exact .idle rfl
  | main nowMs acceptFails => exact follows_main L h hsilent nowMs acceptFails
  | scheduler nowMs stamps t => exact follows_scheduler nowMs stamps t

theorem step_silent (h : s.world.Silent) (m : Move σ τ α) : (step B s m).1.world.Silent := by
  have hsteers := step_steers (B := B) (s := s) m
  generalize (step B s m).1.world = w' at hsteers
  cases hsteers with
  | rests | closes => exact h
  | obeys | stops => exact Guarded.heard_silent _
  | handles K L nowMs freshId r =>
    rcases s.world.step_request (B := B) K L nowMs freshId r with ⟨store, poisoned, heq⟩ | heq
    · rw [heq]
      exact h
    · rw [heq]
      exact fun hgone => (request_kept s.world.daemon L nowMs freshId r).1.trans (h hgone)
  | pumps => exact h.pump
  | boots => exact fun hgone => (bootSend_events s.world.daemon).trans (h hgone)

theorem start_unannounced (L : Loader α) (nowMs : UnixMs) (env : Env σ τ) (image : Store α) :
    (start L nowMs env image).world.unannounced = .start L nowMs env image := by
  have hall : ((Daemon.startup L nowMs env image).events).filter Event.beforeStop =
      (Daemon.startup L nowMs env image).events := by
    rw [List.filter_eq_self]
    intro ev hev
    rw [Event.beforeStop]
    split
    · rename_i hdata
      rcases Daemon.recoveryEvents_data hev with ⟨_, hd⟩ | ⟨_, -, hd | ⟨_, hd⟩⟩ <;>
        cases hdata.symm.trans hd
    · rfl
  simp [start, Guarded.start, Broadcasting.start, Guarded.unannounced, Daemon.unannounced, hall]

/-- Whatever the threads of the process do, from start-up through shutdown, the daemon as one machine
can do as well without dying, and shows the same: only the news that the daemon has stopped and the
last `Shutdown` are the main thread's own. -/
theorem threads_refine (B : Backends σ τ) (L : Loader α) (nowMs : UnixMs) (env : Env σ τ)
    (image : Store α) (moves : List (Move σ τ α)) :
    let s := run (step B) (start L nowMs env image) moves
    ∃ inputs : List (Hazard α × DaemonInput σ τ α), (∀ i ∈ inputs, Alive i) ∧
      (run (Guarded.step B) (.start L nowMs env image) inputs).1 = s.1.world.unannounced ∧
      (run (Guarded.step B) (.start L nowMs env image) inputs).2.filterMap seen =
        s.2.filterMap seen := by
  have hphased : ∀ x ∈ trail (step B) (start L nowMs env image) moves,
      x.1.Phased ∧ x.1.world.Silent :=
    trail_invariant (I := fun s : Process σ τ α => s.Phased ∧ s.world.Silent)
      ⟨start_phased L nowMs env image, nofun⟩ fun x _ h => ⟨h.1.step x.2, step_silent h.2 x.2⟩
  have hrefines := Simulation.run_refines (m := fun s : Process σ τ α => s.world.unannounced)
    fun x hx => step_follows (B := B) L (hphased x hx).1 (hphased x hx).2 x.2
  rw [start_unannounced] at hrefines
  exact hrefines

structure Loading (loaded : List SchedulerCommand) (s : Process σ τ α) : Prop where
  main : s.main = .booting
  sent : s.world.daemon.cmds ++ s.world.daemon.backlog = loaded
  room : s.world.daemon.cmds.length ≤ cmdCapacity
  inflight : s.world.daemon.inflight = []

/-- Nothing takes from the channel before everything that was loaded is in it. -/
theorem Loading.step {loaded : List SchedulerCommand} (h : s.Loading loaded)
    (hmore : s.world.daemon.backlog ≠ []) (m : Move σ τ α) :
    (step B s m).1.Loading loaded ∧ (step B s m).2 = [] := by
  have hdown : s.world.daemon.up = false := by simpa [Daemon.up] using hmore
  rw [step_live (by simp [h.main])]
  cases m with
  | handle K L nowMs freshId r =>
    simp only [turn, handleTurn, h.main, if_true]
    exact ⟨h, trivial⟩
  | deliver i =>
    simp only [turn, Guarded.obey, Guarded.heard, Broadcasting.step, Daemon.step, Daemon.deliver,
      h.inflight, List.getElem?_nil]
    exact ⟨⟨h.main, h.sent, h.room, rfl⟩, trivial⟩
  | pump =>
    obtain ⟨hcmds, -, hinflight, hbacklog, -⟩ := s.world.pump_kept (B := B)
    refine ⟨⟨h.main, ?_, ?_, ?_⟩, rfl⟩
    · exact (congrArg₂ (· ++ ·) hcmds hbacklog).trans h.sent
    · exact (congrArg List.length hcmds).trans_le h.room
    · exact hinflight.trans h.inflight
  | signal =>
    simp only [turn, h.main, if_true]
    exact ⟨h, trivial⟩
  | scheduler nowMs stamps t =>
    have hrun : s.running = false := by simp [running, hdown]
    simp only [turn, schedulerTurn, hrun, Bool.false_eq_true, if_false]
    exact ⟨h, trivial⟩
  | main nowMs acceptFails =>
    refine ⟨?_, rfl⟩
    have hsent := h.sent
    simp only [turn, mainTurn, h.main, hdown, Bool.false_eq_true, if_false, Daemon.bootSend]
    cases hback : s.world.daemon.backlog with
    | nil => exact absurd hback hmore
    | cons c rest =>
      rw [hback] at hsent
      dsimp only
      split_ifs with hroom
      · refine ⟨rfl, by simpa using hsent, ?_, h.inflight⟩
        rw [List.length_append]
        exact hroom
      · exact ⟨rfl, by rw [hback, hsent], h.room, h.inflight⟩

def Loads (loaded : List SchedulerCommand) (s : Process σ τ α) : Prop :=
  s.main = .booting → s.world.daemon.backlog = [] ∨ s.Loading loaded

theorem Loads.step {loaded : List SchedulerCommand} (h : s.Loads loaded) (m : Move σ τ α) :
    (step B s m).1.Loads loaded := by
  intro hboot
  have hbefore : s.main = .booting := by
    by_contra hno
    exact step_booted hno m hboot
  by_cases hmore : s.world.daemon.backlog = []
  · left
    by_cases hm : ∀ nowMs acceptFails, m ≠ .main nowMs acceptFails
    · exact (step_kept hm).backlog.trans hmore
    · simp only [not_forall, not_not] at hm
      obtain ⟨nowMs, acceptFails, rfl⟩ := hm
      rw [step_live (by simp [hbefore])] at hboot
      simp [turn, mainTurn, hbefore, Daemon.up, hmore] at hboot
  · right
    exact ((h hbefore).resolve_left hmore |>.step hmore m).1

end Process

end Vcli

import Vcli.Daemon.Serving
import Vcli.Ipc.Calls

/-! A client of the daemon on the other end of its connection. Their turns come between those of
the scheduler, of the pump and of the other clients. -/

namespace Vcli

open Ipc Transducer Simulation

def Daemon.sends {σ τ α : Type} (d : Daemon σ τ α) (sent : Bool) : Bool :=
  if d.stopped then !sent else sent && decide (d.cmds.length < cmdCapacity)

structure Calling (σ τ α : Type) where
  world : Broadcasting σ τ α
  session : Session DaemonHandler.Task

namespace Calling

inductive Move (σ τ α : Type)
  | daemon (i : DaemonInput σ τ α)
  | turn (t : EndMove DaemonHandler.Told)

variable {σ τ α : Type} (B : Backends σ τ) (S : SerdeJson) (debug : RequestOp → String)

def Waits (s : Calling σ τ α) : EndMove DaemonHandler.Told → Bool
  | .serve _ (.answer told) => match s.session.server with
    | .handling _ op => told.commands op && !s.world.daemon.sends told.sent
    | _ => false
  | _ => false

/-- The connection is one of a single process: a restart is none of its moves. -/
def step (s : Calling σ τ α) : Move σ τ α →
    Calling σ τ α × List (Happening (Broadcasting σ τ α) DaemonHandler.Told)
  | .daemon (.restart ..) => (s, [])
  | .daemon i => ({ s with world := (s.world.step B i).1 }, [])
  | .turn t =>
    if s.Waits t then (s, [])
    else
      let r := s.session.step S (DaemonHandler.handler S debug) (s.world, t)
      ({ s with session := r.1 }, r.2)

def Move.Allowed : Move σ τ α → Prop
  | daemon _ => True
  | turn t => t.Allowed DaemonHandler.Told.Fits

def Move.Fresh (s : Calling σ τ α) : Move σ τ α → Prop
  | daemon _ => True
  | turn t => t.Fresh s.session

abbrev Directly (S : SerdeJson) (ρ : F64 → F64) (debug : RequestOp → String) :
    Direct DaemonHandler.Task → Happening (Broadcasting σ τ α) DaemonHandler.Told →
      Direct DaemonHandler.Task → Prop :=
  Direct.Step S ρ (DaemonHandler.handler S debug) DaemonHandler.Told.Fits

variable {B S debug} {s : Calling σ τ α} {ρ : F64 → F64}

theorem step_turn (B : Backends σ τ) (S : SerdeJson) (debug : RequestOp → String)
    (s : Calling σ τ α) (t : EndMove DaemonHandler.Told) :
    step B S debug s (.turn t) = (s, []) ∨ step B S debug s (.turn t) =
      ({ s with session := (s.session.step S (DaemonHandler.handler S debug) (s.world, t)).1 },
        (s.session.step S (DaemonHandler.handler S debug) (s.world, t)).2) := by
  rw [step]
  split_ifs
  · exact .inl rfl
  · exact .inr rfl

theorem turn_world (t : EndMove DaemonHandler.Told) :
    (step B S debug s (.turn t)).1.world = s.world := by
  rcases step_turn B S debug s t with h | h <;> rw [h]

theorem turn_polled {t : EndMove DaemonHandler.Told} {w' : Broadcasting σ τ α}
    {told : DaemonHandler.Told} (h : .polled w' told ∈ (step B S debug s (.turn t)).2) :
    (step B S debug s (.turn t)).2 = [.polled w' told] ∧ w' = s.world ∧
      ∃ id kind task rx, s.session.server = .streaming id kind (some task) rx := by
  rcases step_turn B S debug s t with hsame | hstep
  · rw [hsame] at h
    exact absurd h List.not_mem_nil
  · rw [hstep] at h ⊢
    exact Session.polled_alone h

theorem step_ofSteps (h : s.world.OfSteps) (m : Move σ τ α) :
    (step B S debug s m).1.world.OfSteps := by
  match m with
  | .turn t =>
    rw [turn_world]
    exact h
  | .daemon (.restart ..) => exact h
  | .daemon (.request ..) | .daemon (.deliver _) | .daemon .bootSend | .daemon (.drain ..)
  | .daemon (.tick ..) | .daemon .pump => exact h.step _

def Stands (S : SerdeJson) (debug : RequestOp → String) (s : Calling σ τ α)
    (d : Direct DaemonHandler.Task) : Prop :=
  s.world.OfSteps ∧ Ipc.Stands S
    (DaemonHandler.handler S debug : Handler (Broadcasting σ τ α) _ _) DaemonHandler.Task.Valid
    s.session d

theorem step_path (hS : S.Sound ρ) {d : Direct DaemonHandler.Task} {m : Move σ τ α}
    (htyped : s.world.Typed) (hm : m.Allowed) (hfresh : m.Fresh s) (h : Stands S debug s d) :
    ∃ d', Path (Directly S ρ debug) d (step B S debug s m).2 d' ∧
      Stands S debug (step B S debug s m).1 d' := by
  have hsteps : (step B S debug s m).1.world.OfSteps := step_ofSteps h.1 m
  match m with
  | .turn t =>
    rcases step_turn B S debug s t with hsame | hstep
    · rw [hsame]
      exact ⟨d, .nil d, h⟩
    · rw [hstep] at hsteps ⊢
      obtain ⟨d', hpath, hnext⟩ := step_matched (DaemonHandler.handler_lawful hS debug) hS
        ⟨h.1, htyped⟩ h.2 hm hfresh
      exact ⟨d', hpath, hsteps, hnext⟩
  | .daemon (.restart ..) | .daemon (.request ..) | .daemon (.deliver _) | .daemon .bootSend
  | .daemon (.drain ..) | .daemon (.tick ..) | .daemon .pump => exact ⟨d, .nil d, hsteps, h.2⟩

theorem run_path (hS : S.Sound ρ) {moves : List (Move σ τ α)} {d : Direct DaemonHandler.Task}
    (htyped : ∀ x ∈ trail (step B S debug) s moves, x.1.world.Typed)
    (hmoves : ∀ x ∈ trail (step B S debug) s moves, x.2.Allowed ∧ x.2.Fresh x.1)
    (h : Stands S debug s d) :
    ∃ d', Path (Directly S ρ debug) d (run (step B S debug) s moves).2 d' ∧
      Stands S debug (run (step B S debug) s moves).1 d' :=
  Simulation.run_path (fun x hx _ hd =>
    step_path hS (htyped x hx) (hmoves x hx).1 (hmoves x hx).2 hd) h

def connected (B : Backends σ τ) (L : Loader α) (nowMs : UnixMs) (env : Env σ τ) (assets : α)
    (past : List (DaemonInput σ τ α)) : Calling σ τ α :=
  ⟨(run (Broadcasting.step B) (Broadcasting.start L nowMs env (Store.fresh assets)) past).1,
    .connect⟩

theorem connected_stands (L : Loader α) (nowMs : UnixMs) (env : Env σ τ) (assets : α)
    (past : List (DaemonInput σ τ α)) :
    Stands S debug (connected B L nowMs env assets past) .idle := by
  refine ⟨?_, .idle⟩
  refine run_invariant (fun w i _ hw => hw.step i) ?_
  exact Broadcasting.start_ofSteps L nowMs env (List.forall_mem_nil _)

/-- Whatever the daemon does in between, what a client calls and gets is what happens when it calls
the handler itself, each call with one answer and each stream frame by frame. -/
theorem calls_are_direct (hS : S.Sound ρ) (L : Loader α) (nowMs : UnixMs) (env : Env σ τ)
    (assets : α) (past : List (DaemonInput σ τ α)) (moves : List (Move σ τ α))
    (htyped : ∀ x ∈ trail (step B S debug) (connected B L nowMs env assets past) moves,
      x.1.world.Typed)
    (hmoves : ∀ x ∈ trail (step B S debug) (connected B L nowMs env assets past) moves,
      x.2.Allowed ∧ x.2.Fresh x.1) :
    let r := run (step B S debug) (connected B L nowMs env assets past) moves
    ∃ d, Path (Directly S ρ debug) .idle r.2 d ∧ r.1.session.client = d.client := by
  intro r
  have hstart : Stands S debug (connected B L nowMs env assets past) .idle :=
    connected_stands L nowMs env assets past
  obtain ⟨d, hpath, hstands⟩ := run_path hS htyped hmoves hstart
  exact ⟨d, hpath, hstands.2.client⟩

section Quiet
variable {moves : List (Move σ τ α)}

def Untouched (w : Broadcasting σ τ α) : Prop :=
  w.daemon.store.events = [] ∧ ∀ ev ∈ w.sent ++ w.daemon.events, ev = daemonStarted 0

theorem Untouched.typed {w : Broadcasting σ τ α} (h : Untouched w) : w.Typed := by
  refine ⟨by simp [h.1], fun ev hev => ?_⟩
  rw [h.2 ev (List.mem_append_left _ hev)]
  exact ⟨⟨by decide, by decide⟩, trivial⟩

theorem Untouched.pump {w : Broadcasting σ τ α} (h : Untouched w) :
    Untouched (w.step B .pump).1 := by
  rw [Broadcasting.step_eq _ (by simp)]
  cases hev : w.daemon.events with
  | nil => simpa [Daemon.step, Daemon.pump, hev, Broadcasting.published] using h
  | cons ev rest =>
    have hstarted : ev = daemonStarted 0 := h.2 ev (by simp [hev])
    constructor
    · simpa [Daemon.step, Daemon.pump, hev, hstarted, pumpEvent, daemonStarted,
        EventData.programIdOf] using h.1
    · simpa [Daemon.step, Daemon.pump, hev, Broadcasting.published] using h.2

def Move.Alone : Move σ τ α → Prop
  | daemon i => i = .pump
  | turn t => ∀ op, t ≠ .request ⟨0#128⟩ op

def Move.Talks : Move σ τ α → Prop
  | daemon _ => False
  | turn t => ∀ op, t ≠ .request ⟨0#128⟩ op

theorem talks_step {m : Move σ τ α} (hm : m.Talks)
    (hclient : s.session.client ≠ .requested ⟨0#128⟩) :
    (step B S debug s m).1.world = s.world ∧
      (step B S debug s m).1.session.client ≠ .requested ⟨0#128⟩ := by
  cases m with
  | daemon i => exact hm.elim
  | turn t =>
    rcases step_turn B S debug s t with hsame | hstep
    · rw [hsame]
      exact ⟨rfl, hclient⟩
    · rw [hstep]
      refine ⟨rfl, fun heq => ?_⟩
      rcases Session.requested_of_step heq with hsame | ⟨op, rfl⟩
      · exact hclient hsame
      · exact hm op rfl

theorem talks_trail (hmoves : ∀ m ∈ moves, m.Talks)
    (hclient : s.session.client ≠ .requested ⟨0#128⟩) :
    ∀ x ∈ trail (step B S debug) s moves,
      x.1.world = s.world ∧ x.1.session.client ≠ .requested ⟨0#128⟩ := by
  refine trail_invariant (I := fun t : Calling σ τ α => t.world = s.world ∧
    t.session.client ≠ .requested ⟨0#128⟩) ⟨rfl, hclient⟩ ?_
  rintro x hx ⟨hworld, hclient⟩
  obtain ⟨hsame, hnext⟩ := talks_step (hmoves x.2 (mem_of_mem_trail hx)) hclient
  exact ⟨hsame.trans hworld, hnext⟩

theorem alone_step {m : Move σ τ α} (hm : m.Alone)
    (h : Untouched s.world ∧ s.session.client ≠ .requested ⟨0#128⟩) :
    Untouched (step B S debug s m).1.world ∧
      (step B S debug s m).1.session.client ≠ .requested ⟨0#128⟩ := by
  cases m with
  | daemon i =>
    obtain rfl : i = .pump := hm
    exact ⟨h.1.pump, h.2⟩
  | turn t =>
    obtain ⟨hworld, hclient⟩ := talks_step (m := .turn t) hm h.2
    rw [hworld]
    exact ⟨h.1, hclient⟩

theorem alone_trail (hmoves : ∀ m ∈ moves, m.Alone)
    (h : Untouched s.world ∧ s.session.client ≠ .requested ⟨0#128⟩) :
    ∀ x ∈ trail (step B S debug) s moves,
      Untouched x.1.world ∧ x.1.session.client ≠ .requested ⟨0#128⟩ :=
  trail_invariant (I := fun s : Calling σ τ α => Untouched s.world ∧
    s.session.client ≠ .requested ⟨0#128⟩) h
    fun x hx => alone_step (hmoves x.2 (mem_of_mem_trail hx))

theorem alone_run (hmoves : ∀ m ∈ moves, m.Alone)
    (h : Untouched s.world ∧ s.session.client ≠ .requested ⟨0#128⟩) :
    Untouched (run (step B S debug) s moves).1.world := by
  have hend := run_invariant (f := step B S debug) (I := fun s : Calling σ τ α =>
    Untouched s.world ∧ s.session.client ≠ .requested ⟨0#128⟩)
    (fun s m hm => alone_step (s := s) (hmoves m hm)) h
  exact hend.1

end Quiet

def visiting : List (Move Unit Unit Unit) :=
  [.turn (.request ⟨1#128⟩ .health), .turn (.serve [3] (.read ⟨0#128⟩)), .daemon .pump,
    .turn (.serve [] (.answer Serving.quiet)), .turn (.response [1, 2] 5),
    .turn (.requestStream ⟨2#128⟩ (.events true)), .turn (.nextFrame []),
    .turn (.serve [] (.read ⟨0#128⟩)), .turn (.serve [] (.poll Serving.quiet)),
    .turn (.serve [] .abort), .turn (.serve [] .write), .turn (.nextFrame [0])]

def visited : Calling Unit Unit Unit :=
  connected (Backends.constant (.ok ⟨true, none, 0⟩)) (Loader.constant (Program.blank "demo")) 0
    ⟨(), ()⟩ () []

theorem visited_untouched : Untouched visited.world := by
  refine ⟨rfl, fun ev hev => ?_⟩
  have hone : visited.world.sent ++ visited.world.daemon.events = [daemonStarted 0] := rfl
  rw [hone] at hev
  exact List.mem_singleton.mp hev

theorem visited_trail {moves : List (Move Unit Unit Unit)} (hmoves : ∀ m ∈ moves, m.Alone) :
    ∀ x ∈ trail (step (Backends.constant (.ok ⟨true, none, 0⟩)) Serving.sampleJson fun _ => "")
      visited moves, x.1.world.Typed ∧ x.1.session.client ≠ .requested ⟨0#128⟩ := fun x hx =>
  have hx := alone_trail hmoves ⟨visited_untouched, show Client.idle ≠ _ by simp⟩ x hx
  ⟨hx.1.typed, hx.2⟩

theorem visiting_allowed (s : Calling Unit Unit Unit)
    (hclient : s.session.client ≠ .requested ⟨0#128⟩) :
    ∀ m ∈ visiting, m.Alone ∧ m.Allowed ∧ m.Fresh s := by
  simp [visiting, Move.Alone, Move.Allowed, Move.Fresh, EndMove.Allowed, EndMove.Fresh, Action.Allowed,
    RequestOp.Fits, isStreaming, Serving.quiet_fits, hclient]

theorem visiting_alone : ∀ m ∈ visiting, m.Alone := fun m hm =>
  (visiting_allowed visited (show Client.idle ≠ _ by simp) m hm).1

theorem calls_are_direct_visiting :
    let r := run (step (Backends.constant (.ok ⟨true, none, 0⟩)) Serving.sampleJson fun _ => "")
      visited visiting
    ∃ d, Path (Directly Serving.sampleJson id fun _ => "") .idle r.2 d ∧
      r.1.session.client = d.client := by
  have htrail := visited_trail visiting_alone
  exact calls_are_direct Serving.sampleJson_sound (Loader.constant (Program.blank "demo")) 0
    ⟨(), ()⟩ () [] visiting (fun x hx => (htrail x hx).1)
    fun x hx => (visiting_allowed x.1 (htrail x hx).2 x.2 (mem_of_mem_trail hx)).2

/-- Turns for which the channel is no obstacle are turns of the session. -/
theorem step_turns {turns : List (EndMove DaemonHandler.Told)}
    (h : ∀ t ∈ turns, ∀ c, Waits (⟨s.world, c⟩ : Calling σ τ α) t = false) :
    ∀ c, ∀ x ∈ turns.map (s.world, ·), step B S debug ⟨s.world, c⟩ (.turn x.2) =
      (⟨s.world, (c.step S (DaemonHandler.handler S debug) x).1⟩,
        (c.step S (DaemonHandler.handler S debug) x).2) := by
  intro c x hx
  obtain ⟨t, ht, rfl⟩ := List.mem_map.mp hx
  have hgoes : Waits (⟨s.world, c⟩ : Calling σ τ α) t = false := h t ht c
  simp only [step, hgoes, Bool.false_eq_true, if_false]

theorem run_turns (turns : List (EndMove DaemonHandler.Told))
    (h : ∀ t ∈ turns, ∀ c, Waits (⟨s.world, c⟩ : Calling σ τ α) t = false) :
    run (step B S debug) s (turns.map .turn) =
      (⟨s.world, (run (Session.step S (DaemonHandler.handler S debug)) s.session
        (turns.map (s.world, ·))).1⟩,
        (run (Session.step S (DaemonHandler.handler S debug)) s.session
          (turns.map (s.world, ·))).2) := by
  rw [← run_embed (step_turns h) s.session, List.map_map]
  rfl

theorem trail_turns (turns : List (EndMove DaemonHandler.Told))
    (h : ∀ t ∈ turns, ∀ c, Waits (⟨s.world, c⟩ : Calling σ τ α) t = false) :
    trail (step B S debug) s (turns.map .turn) =
      (trail (Session.step S (DaemonHandler.handler S debug)) s.session
        (turns.map (s.world, ·))).map fun x => (⟨s.world, x.1⟩, .turn x.2.2) := by
  rw [← trail_embed (step_turns h) s.session, List.map_map]
  rfl

/-- A command that the scheduler takes, or a turn of the ends in which the handler is told this and
whether its command was sent. -/
def Move.Helps (told : DaemonHandler.Told) : Move σ τ α → Prop
  | daemon i => ∃ nowMs stamps, i = .drain nowMs stamps
  | turn t => ∃ sent, t.Speaks { told with sent := sent }

theorem waits_of_speaks {told : DaemonHandler.Told} {t : EndMove DaemonHandler.Told}
    (ht : t.Speaks told) (hsends : s.world.daemon.sends told.sent = true) (c : Session _) :
    Waits (⟨s.world, c⟩ : Calling σ τ α) t = false := by
  unfold Waits
  split
  · next told' =>
    obtain rfl : told' = told := ht
    dsimp only
    split
    · rw [hsends, Bool.not_true, Bool.and_false]
    · rfl
  · rfl

theorem turns_return (hS : S.Sound ρ) {d : Direct DaemonHandler.Task} (hstands : Stands S debug s d)
    (htyped : s.world.Typed) {told : DaemonHandler.Told} (htold : told.Fits)
    (hsends : s.world.daemon.sends told.sent = true) {id : RequestId}
    (hclient : s.session.client = .requested id) :
    ∃ turns : List (EndMove DaemonHandler.Told), turns.length ≤ 3 ∧ (∀ t ∈ turns, t.Speaks told) ∧
      (∀ x ∈ trail (step B S debug) s (turns.map .turn), x.2.Allowed ∧ x.2.Fresh x.1) ∧
      ∃ result, .returned result ∈ (run (step B S debug) s (turns.map .turn)).2 := by
  obtain ⟨turns, hlen, hspeaks, hall, hresult⟩ := call_returns
    (DaemonHandler.handler_lawful hS debug) hS ⟨hstands.1, htyped⟩ htold hstands.2 hclient
  have hgoes : ∀ t ∈ turns, ∀ c, Waits (⟨s.world, c⟩ : Calling σ τ α) t = false := fun t ht c =>
    waits_of_speaks (hspeaks t ht) hsends c
  refine ⟨turns, hlen, hspeaks, ?_, ?_⟩
  · rw [trail_turns turns hgoes]
    exact List.forall_mem_map.mpr hall
  · rw [run_turns turns hgoes]
    exact hresult

theorem drained {d : Daemon σ τ α} (hup : d.up = true) (hroom : d.cmds.length ≤ cmdCapacity)
    (hfull : d.stopped = false ∧ ¬ d.cmds.length < cmdCapacity) (nowMs : UnixMs)
    (stamps : Nat → UnixMs) : ∃ sent, (d.step B (.drain nowMs stamps)).1.sends sent = true := by
  obtain ⟨hrun, hfull⟩ := hfull
  simp only [Daemon.step, hup, hrun, Bool.not_false, Bool.and_self, if_true]
  cases hcmds : d.cmds with
  | nil => simp [hcmds, cmdCapacity] at hfull
  | cons c rest =>
    have hless : rest.length < cmdCapacity := by
      rw [hcmds, List.length_cons] at hroom
      exact hroom
    cases c with
    | shutdown => exact ⟨false, by simp [Daemon.drain, hcmds, Daemon.sends]⟩
    | submitValidated | cancel | start | resumeRunning =>
      exact ⟨true, by simp [Daemon.drain, hcmds, Daemon.sends, Daemon.scheduled, hrun, hless]⟩

theorem room (L : Loader α) (nowMs : UnixMs) (env : Env σ τ) (assets : α)
    (past : List (DaemonInput σ τ α)) (moves : List (Move σ τ α)) :
    (run (step B S debug) (connected B L nowMs env assets past) moves).1.world.daemon.cmds.length ≤
      cmdCapacity := by
  have hworld : ∀ (w : Broadcasting σ τ α) (i : DaemonInput σ τ α),
      w.daemon.cmds.length ≤ cmdCapacity → (w.step B i).1.daemon.cmds.length ≤ cmdCapacity := by
    intro w i hw
    cases i with
    | restart L nowMs env => exact Nat.zero_le _
    | request | deliver | bootSend | drain | tick | pump => exact Daemon.step_room _ hw
  refine run_invariant (I := fun s : Calling σ τ α => s.world.daemon.cmds.length ≤ cmdCapacity) ?_ ?_
  · intro s m _ hs
    match m with
    | .turn t =>
      rw [turn_world]
      exact hs
    | .daemon (.restart ..) => exact hs
    | .daemon (.request ..) | .daemon (.deliver _) | .daemon .bootSend | .daemon (.drain ..)
    | .daemon (.tick ..) | .daemon .pump => exact hworld s.world _ hs
  · exact run_invariant (I := fun w : Broadcasting σ τ α => w.daemon.cmds.length ≤ cmdCapacity)
      (fun w i _ => hworld w i) (Nat.zero_le _)

theorem typed_drain {w : Broadcasting σ τ α} (h : w.Typed) (nowMs : UnixMs)
    (stamps : Nat → UnixMs) : (w.step B (.drain nowMs stamps)).1.Typed := by
  have hstore : (w.daemon.step B (.drain nowMs stamps)).1.store = w.daemon.store := by
    simp only [Daemon.step, Daemon.drain]
    split
    · split <;> rfl
    · rfl
  rw [Broadcasting.step_eq _ (by simp)]
  refine ⟨?_, ?_⟩
  · rw [hstore]
    exact h.stored
  · simpa [Broadcasting.published] using h.sent

/-- Whatever has happened, a client that waits for a response of a daemon that is up is at most four
moves away from it, whatever its handler is told: the scheduler may have to take a command first. -/
theorem calls_return (hS : S.Sound ρ) (L : Loader α) (nowMs : UnixMs) (env : Env σ τ)
    (assets : α) (past : List (DaemonInput σ τ α)) (moves : List (Move σ τ α))
    (htyped : ∀ x ∈ trail (step B S debug) (connected B L nowMs env assets past) moves,
      x.1.world.Typed)
    (hmoves : ∀ x ∈ trail (step B S debug) (connected B L nowMs env assets past) moves,
      x.2.Allowed ∧ x.2.Fresh x.1) :
    let r := run (step B S debug) (connected B L nowMs env assets past) moves
    ∀ id, r.1.world.Typed → r.1.world.daemon.up = true → r.1.session.client = .requested id →
      ∀ told : DaemonHandler.Told, told.Fits → ∃ more : List (Move σ τ α), more.length ≤ 4 ∧
        (∀ m ∈ more, m.Helps told) ∧
        (∀ x ∈ trail (step B S debug) r.1 more, x.2.Allowed ∧ x.2.Fresh x.1) ∧
        ∃ result, .returned result ∈ (run (step B S debug) r.1 more).2 := by
  intro r id hend hup hclient told htold
  have hstart : Stands S debug (connected B L nowMs env assets past) .idle :=
    connected_stands L nowMs env assets past
  obtain ⟨d, -, hstands⟩ := run_path hS htyped hmoves hstart
  have hroom : r.1.world.daemon.cmds.length ≤ cmdCapacity := room L nowMs env assets past moves
  by_cases hfull : r.1.world.daemon.stopped = false ∧ ¬ r.1.world.daemon.cmds.length < cmdCapacity
  · obtain ⟨sent, hsends⟩ := drained (B := B) hup hroom hfull 0 fun _ => 0
    let first : Move σ τ α := .daemon (.drain 0 fun _ => 0)
    have hnext : Stands S debug (step B S debug r.1 first).1 d :=
      ⟨step_ofSteps hstands.1 first, hstands.2⟩
    obtain ⟨turns, hlen, hspeaks, hall, hresult⟩ := turns_return (B := B) hS hnext
      (typed_drain hend 0 fun _ => 0) (htold.sent sent) hsends hclient
    refine ⟨first :: turns.map .turn, ?_, ?_, ?_, ?_⟩
    · rw [List.length_cons, List.length_map]
      exact Nat.succ_le_succ hlen
    · refine List.forall_mem_cons.mpr ⟨⟨0, _, rfl⟩, List.forall_mem_map.mpr fun t ht => ?_⟩
      exact ⟨sent, hspeaks t ht⟩
    · rw [trail_cons]
      exact List.forall_mem_cons.mpr ⟨⟨trivial, trivial⟩, hall⟩
    · obtain ⟨result, hresult⟩ := hresult
      rw [run_cons]
      exact ⟨result, List.mem_append_right _ hresult⟩
  · obtain ⟨sent, hsends⟩ : ∃ sent, r.1.world.daemon.sends sent = true := by
      cases hstopped : r.1.world.daemon.stopped with
      | true => exact ⟨false, by simp [Daemon.sends, hstopped]⟩
      | false =>
        have hless : r.1.world.daemon.cmds.length < cmdCapacity := by
          by_contra hnot
          exact hfull ⟨hstopped, hnot⟩
        exact ⟨true, by simp [Daemon.sends, hstopped, hless]⟩
    obtain ⟨turns, hlen, hspeaks, hall, hresult⟩ := turns_return (B := B) hS hstands hend
      (htold.sent sent) hsends hclient
    refine ⟨turns.map .turn, ?_, List.forall_mem_map.mpr fun t ht => ⟨sent, hspeaks t ht⟩, hall,
      hresult⟩
    rw [List.length_map]
    exact hlen.trans (Nat.le_succ 3)

def cancels : List (DaemonInput Unit Unit Unit) :=
  (List.replicate cmdCapacity [.request (Loader.constant (Program.blank "demo")) 0 ⟨0#128⟩
    (.cancel ⟨7#128⟩), .deliver 0]).flatten

theorem crowd_untouched {past : List (DaemonInput Unit Unit Unit)}
    (h : ∀ i ∈ past, i = .request (Loader.constant (Program.blank "demo")) 0 ⟨0#128⟩
      (.cancel ⟨7#128⟩) ∨ i = .deliver 0) :
    Untouched (connected (Backends.constant (.ok ⟨true, none, 0⟩))
      (Loader.constant (Program.blank "demo")) 0 ⟨(), ()⟩ () past).world := by
  refine run_invariant (I := Untouched) ?_ visited_untouched
  intro w i hi hw
  rcases h i hi with rfl | rfl
  · simp only [Broadcasting.step, Daemon.step, Daemon.request, Broadcasting.published,
      List.append_nil]
    split_ifs <;> exact hw
  · simp only [Broadcasting.step, Daemon.step, Daemon.deliver, Broadcasting.published,
      List.append_nil]
    split
    · exact hw
    · split_ifs <;> exact hw

theorem cancels_untouched : Untouched (connected (Backends.constant (.ok ⟨true, none, 0⟩))
    (Loader.constant (Program.blank "demo")) 0 ⟨(), ()⟩ () cancels).world := by
  apply crowd_untouched
  intro i hi
  obtain ⟨pair, hpair, hi⟩ := List.mem_flatten.mp hi
  rw [List.eq_of_mem_replicate hpair] at hi
  simpa using hi

def starting : List (Move Unit Unit Unit) :=
  [.turn (.request ⟨1#128⟩ (.start ⟨7#128⟩)), .turn (.serve [4] (.read ⟨0#128⟩)),
    .turn (.serve [] (.answer { Serving.quiet with sent := true }))]

theorem starting_alone : ∀ m ∈ starting, m.Alone := by
  simp [starting, Move.Alone]

theorem cancels_alone : Untouched (connected (Backends.constant (.ok ⟨true, none, 0⟩))
    (Loader.constant (Program.blank "demo")) 0 ⟨(), ()⟩ () cancels).world ∧
    (connected (Backends.constant (.ok ⟨true, none, 0⟩)) (Loader.constant (Program.blank "demo"))
      0 ⟨(), ()⟩ () cancels).session.client ≠ .requested ⟨0#128⟩ :=
  ⟨cancels_untouched, show Client.idle ≠ _ by simp⟩

theorem starting_trail : ∀ x ∈ trail
    (step (Backends.constant (.ok ⟨true, none, 0⟩)) Serving.sampleJson fun _ => "")
    (connected (Backends.constant (.ok ⟨true, none, 0⟩)) (Loader.constant (Program.blank "demo"))
      0 ⟨(), ()⟩ () cancels) starting, x.1.world.Typed ∧ x.2.Allowed ∧ x.2.Fresh x.1 := by
  have hsent : ({ Serving.quiet with sent := true } : DaemonHandler.Told).Fits :=
    Serving.quiet_fits.sent true
  intro x hx
  obtain ⟨hworld, hclient⟩ := alone_trail starting_alone cancels_alone x hx
  have hallowed : ∀ m ∈ starting, m.Allowed ∧ m.Fresh x.1 := by
    simp [starting, Move.Allowed, Move.Fresh, EndMove.Allowed, EndMove.Fresh, Action.Allowed,
      RequestOp.Fits, isStreaming, hsent, hclient]
  exact ⟨hworld.typed, hallowed x.2 (mem_of_mem_trail hx)⟩

theorem calls_return_crowded :
    ∃ s : Calling Unit Unit Unit, s.world.daemon.cmds.length = cmdCapacity ∧
      s.session.client = .requested ⟨1#128⟩ ∧ ∃ more : List (Move Unit Unit Unit),
        more.length ≤ 4 ∧ (∀ m ∈ more, m.Helps Serving.quiet) ∧
        ∃ result, .returned result ∈ (run (step (Backends.constant (.ok ⟨true, none, 0⟩))
          Serving.sampleJson fun _ => "") s more).2 := by
  have hreached : (run (step (Backends.constant (.ok ⟨true, none, 0⟩)) Serving.sampleJson fun _ => "")
      (connected (Backends.constant (.ok ⟨true, none, 0⟩)) (Loader.constant (Program.blank "demo"))
        0 ⟨(), ()⟩ () cancels) starting).1.world.daemon.cmds.length = cmdCapacity ∧
      (run (step (Backends.constant (.ok ⟨true, none, 0⟩)) Serving.sampleJson fun _ => "")
        (connected (Backends.constant (.ok ⟨true, none, 0⟩)) (Loader.constant (Program.blank "demo"))
          0 ⟨(), ()⟩ () cancels) starting).1.world.daemon.up = true ∧
      (run (step (Backends.constant (.ok ⟨true, none, 0⟩)) Serving.sampleJson fun _ => "")
        (connected (Backends.constant (.ok ⟨true, none, 0⟩)) (Loader.constant (Program.blank "demo"))
          0 ⟨(), ()⟩ () cancels) starting).1.session.client = .requested ⟨1#128⟩ := by
    decide +kernel
  obtain ⟨hfull, hup, hclient⟩ := hreached
  have hend : Untouched (run (step (Backends.constant (.ok ⟨true, none, 0⟩)) Serving.sampleJson
      fun _ => "") (connected (Backends.constant (.ok ⟨true, none, 0⟩))
        (Loader.constant (Program.blank "demo")) 0 ⟨(), ()⟩ () cancels) starting).1.world :=
    alone_run starting_alone cancels_alone
  obtain ⟨more, hlen, hhelps, -, hresult⟩ := calls_return Serving.sampleJson_sound
    (Loader.constant (Program.blank "demo")) 0 ⟨(), ()⟩ () cancels starting
    (fun x hx => (starting_trail x hx).1) (fun x hx => (starting_trail x hx).2) ⟨1#128⟩
    hend.typed hup hclient Serving.quiet Serving.quiet_fits
  exact ⟨_, hfull, hclient, more, hlen, hhelps, hresult⟩

end Calling

end Vcli

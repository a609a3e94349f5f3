import Vcli.Daemon.Latency

/-! The life of the daemon process: when start-up comes to an end, what a shutdown still lets
through, and that the process gets to its exit with everything published. -/

namespace Vcli

open Transducer Polling

namespace Process

variable {σ τ α : Type} {B : Backends σ τ} {s : Process σ τ α}

/-- The scheduler has gone, or it will be told to. -/
def Told (s : Process σ τ α) : Prop :=
  s.world.daemon.stopped = true ∨ .shutdown ∈ s.world.daemon.cmds

section Frame

theorem request_kept (d : Daemon σ τ α) (L : Loader α) (nowMs : UnixMs) (freshId : ProgramId)
    (r : Request) : let d' := (d.step B (.request L nowMs freshId r)).1
    d'.events = d.events ∧ d'.backlog = d.backlog ∧ d'.stopped = d.stopped := by
  rw [Daemon.step]
  split
  · cases r with
    | submit programJson baseDir =>
      simp only [Daemon.request]
      cases L.validateValue programJson with
      | error e => exact ⟨rfl, rfl, rfl⟩
      | ok program =>
        dsimp only
        split <;> exact ⟨rfl, rfl, rfl⟩
    | resume pid fromStart =>
      simp only [Daemon.request]
      split <;> exact ⟨rfl, rfl, rfl⟩
    | cancel | start | gc | shutdown => exact ⟨rfl, rfl, rfl⟩
  · exact ⟨rfl, rfl, rfl⟩

theorem deliver_kept (d : Daemon σ τ α) (i : Nat) : let d' := (d.deliver i).1
    d'.events = d.events ∧ d'.backlog = d.backlog ∧ d'.stopped = d.stopped := by
  unfold Daemon.deliver
  split
  · exact ⟨rfl, rfl, rfl⟩
  · split_ifs <;> exact ⟨rfl, rfl, rfl⟩

/-- What is sent goes to the end of the log, unless the pump has gone. -/
theorem heard_log {w : Guarded σ τ α} (halive : w.pumpGone = false)
    (hsent : w.sent = s.world.sent) (hevents : s.world.daemon.events <+: w.daemon.events) :
    s.log <+: w.heard.sent ++ w.heard.daemon.events := by
  obtain ⟨more, hmore⟩ := hevents
  refine ⟨more, ?_⟩
  simp only [log, Guarded.heard, halive, Bool.false_eq_true, if_false, hsent, ← hmore,
    List.append_assoc]

/-- What every turn but one of the main thread leaves as it is. A pump that has gone does not come
back, and as long as it lives nothing of the log is lost. -/
structure Kept (s s' : Process σ τ α) : Prop where
  backlog : s'.world.daemon.backlog = s.world.daemon.backlog
  stopped : s.world.daemon.stopped = true → s'.world.daemon.stopped = true
  alive : s'.world.pumpGone = false → s.world.pumpGone = false
  log : s'.world.pumpGone = false → s.log <+: s'.log

theorem Kept.refl (s : Process σ τ α) : Kept s s := ⟨rfl, id, id, fun _ => List.prefix_rfl⟩

theorem Kept.obey {s' : Process σ τ α} {i : DaemonInput σ τ α}
    (hworld : s'.world = (s.world.obey B i).1) (hi : ∀ L nowMs env, i ≠ .restart L nowMs env)
    (hquiet : Broadcasting.published s.world.daemon i = [])
    (hbacklog : (s.world.daemon.step B i).1.backlog = s.world.daemon.backlog)
    (hstopped : s.world.daemon.stopped = true → (s.world.daemon.step B i).1.stopped = true)
    (hevents : s.world.daemon.events <+: (s.world.daemon.step B i).1.events) : Kept s s' := by
  have hstep := Broadcasting.step_eq (B := B) (w := s.world.toBroadcasting) i hi
  rw [hquiet, List.append_nil] at hstep
  refine ⟨?_, ?_, ?_, ?_⟩
  · rw [hworld]
    simp only [Guarded.obey, Guarded.heard, hstep]
    exact hbacklog
  · rw [hworld]
    simp only [Guarded.obey, Guarded.heard, hstep]
    exact hstopped
  · rw [hworld]
    exact id
  · intro halive
    rw [hworld] at halive
    show s.log <+: s'.world.sent ++ s'.world.daemon.events
    rw [hworld]
    refine heard_log halive ?_ ?_
    · simp only [hstep]
    · simp only [hstep]
      exact hevents

theorem Kept.pump : Kept s { s with world := s.world.pump B } := by
  obtain ⟨-, -, -, hbacklog, hstopped⟩ := s.world.pump_kept (B := B)
  refine ⟨hbacklog, hstopped.trans, ?_, ?_⟩
  · unfold Guarded.pump
    split
    · exact nofun
    · exact id
  · unfold Guarded.pump
    split
    · exact nofun
    · intro _
      refine ⟨[], ?_⟩
      simp only [Process.log, Broadcasting.step, Broadcasting.published, Daemon.step, Daemon.pump]
      split <;> simp [*]

theorem schedulerTurn_obeys (nowMs : UnixMs) (stamps : Nat → UnixMs) (t : TickInput) :
    Kept s (s.schedulerTurn B nowMs stamps t).1 := by
  have hdrain : ∀ d : Daemon σ τ α, let d' := (d.step B (.drain nowMs stamps)).1
      d'.backlog = d.backlog ∧ (d.stopped = true → d'.stopped = true) ∧ d.events <+: d'.events := by
    intro d
    rw [Daemon.step]
    split
    · rw [Daemon.drain]
      split
      · exact ⟨rfl, id, List.prefix_rfl⟩
      · exact ⟨rfl, fun _ => rfl, List.prefix_rfl⟩
      · exact ⟨rfl, id, ⟨_, rfl⟩⟩
    · exact ⟨rfl, id, List.prefix_rfl⟩
  have htick : ∀ d : Daemon σ τ α, let d' := (d.step B (.tick t stamps)).1
      d'.backlog = d.backlog ∧ (d.stopped = true → d'.stopped = true) ∧ d.events <+: d'.events := by
    intro d
    rw [Daemon.step]
    split
    · exact ⟨rfl, id, ⟨_, rfl⟩⟩
    · exact ⟨rfl, id, List.prefix_rfl⟩
  unfold schedulerTurn
  split
  · split
    · split
      · exact ⟨rfl, id, id, fun _ => List.prefix_rfl⟩
      · obtain ⟨hbacklog, hstopped, hevents⟩ := hdrain s.world.daemon
        exact .obey (i := .drain nowMs stamps) rfl (by simp) rfl hbacklog hstopped hevents
    · obtain ⟨hbacklog, hstopped, hevents⟩ := htick s.world.daemon
      exact .obey (i := .tick t stamps) rfl (by simp) rfl hbacklog hstopped hevents
    · exact ⟨rfl, id, id, fun _ => List.prefix_rfl⟩
  · exact .refl s

theorem step_kept {m : Move σ τ α} (hm : ∀ nowMs acceptFails, m ≠ .main nowMs acceptFails) :
    Kept s (step B s m).1 := by
  by_cases hlive : s.main = .exited
  · rw [step_exited hlive]
    exact .refl s
  rw [step_live hlive]
  cases m with
  | main nowMs acceptFails => exact absurd rfl (hm nowMs acceptFails)
  | handle K L nowMs freshId r =>
    simp only [turn, handleTurn]
    split
    · exact .refl s
    · obtain ⟨hevents, hbacklog, hstopped⟩ := request_kept (B := B) s.world.daemon L nowMs freshId r
      rcases s.world.step_request (B := B) K L nowMs freshId r with ⟨store, poisoned, heq⟩ | heq
      · rw [heq]
        exact ⟨rfl, id, id, fun _ => List.prefix_rfl⟩
      · rw [heq]
        refine ⟨hbacklog, hstopped.trans, id, fun _ => ⟨[], ?_⟩⟩
        simp only [log, hevents, List.append_nil]
  | deliver i =>
    obtain ⟨hevents, hbacklog, hstopped⟩ := deliver_kept s.world.daemon i
    exact .obey (i := .deliver i) rfl (by simp) rfl hbacklog hstopped.trans
      ⟨[], (List.append_nil _).trans hevents.symm⟩
  | pump => exact .pump
  | signal =>
    simp only [turn]
    split <;> exact ⟨rfl, id, id, fun _ => List.prefix_rfl⟩
  | scheduler nowMs stamps t => exact schedulerTurn_obeys nowMs stamps t

theorem bootSend_events (d : Daemon σ τ α) : d.bootSend.events = d.events := by
  unfold Daemon.bootSend
  split
  · rfl
  · split_ifs <;> rfl

theorem mainTurn_kept (nowMs : UnixMs) (acceptFails : Bool) :
    (s.mainTurn nowMs acceptFails).world.daemon.stopped = s.world.daemon.stopped ∧
      (s.mainTurn nowMs acceptFails).world.pumpGone = s.world.pumpGone ∧
      (s.world.pumpGone = false → s.log <+: (s.mainTurn nowMs acceptFails).log) := by
  have hboot : s.world.daemon.bootSend.stopped = s.world.daemon.stopped := by
    unfold Daemon.bootSend
    split
    · rfl
    · split_ifs <;> rfl
  unfold mainTurn
  cases s.main with
  | booting =>
    dsimp only
    split
    · exact ⟨rfl, rfl, fun _ => List.prefix_rfl⟩
    · refine ⟨hboot, rfl, fun _ => ⟨[], ?_⟩⟩
      simp only [log, bootSend_events, List.append_nil]
  | closing =>
    dsimp only
    split
    · exact ⟨rfl, rfl, fun _ => List.prefix_rfl⟩
    · split <;> exact ⟨rfl, rfl, fun _ => List.prefix_rfl⟩
  | stopping => exact ⟨rfl, rfl, fun halive => heard_log halive rfl ⟨_, rfl⟩⟩
  | serving | joining | pumping =>
    dsimp only
    split <;> exact ⟨rfl, rfl, fun _ => List.prefix_rfl⟩
  | exited => exact ⟨rfl, rfl, fun _ => List.prefix_rfl⟩

theorem step_grows (m : Move σ τ α) :
    (s.world.daemon.stopped = true → (step B s m).1.world.daemon.stopped = true) ∧
      ((step B s m).1.world.pumpGone = false → s.world.pumpGone = false) ∧
      ((step B s m).1.world.pumpGone = false → s.log <+: (step B s m).1.log) := by
  cases m with
  | main nowMs acceptFails =>
    by_cases hlive : s.main = .exited
    · rw [step_exited hlive]
      exact ⟨id, id, fun _ => List.prefix_rfl⟩
    · rw [step_live hlive]
      obtain ⟨hstopped, hgone, hlog⟩ := mainTurn_kept (s := s) nowMs acceptFails
      exact ⟨hstopped.trans, hgone.symm.trans, fun halive => hlog (hgone.symm.trans halive)⟩
  | handle | deliver | pump | signal | scheduler =>
    refine ⟨Kept.stopped ?_, Kept.alive ?_, Kept.log ?_⟩ <;> exact step_kept (by simp)

theorem taken_shutdown {m : Move σ τ α} (hm : s.mark m = some (.taken .shutdown)) :
    (step B s m).1.world.daemon.stopped = true := by
  obtain ⟨nowMs, stamps, rest, hcmds, -, hstopped⟩ := drain_of_taken (B := B) hm
  rw [hstopped, Daemon.drain, hcmds]

theorem Told.step (h : s.Told) (m : Move σ τ α) : (step B s m).1.Told := by
  rcases h with hstopped | hmem
  · exact .inl ((step_grows m).1 hstopped)
  · cases hmark : s.mark m with
    | none =>
      obtain ⟨more, hmore⟩ := (polls (B := B)).queue s m hmark
      refine .inr ?_
      rw [show (Process.step B s m).1.world.daemon.cmds = _ from hmore.symm]
      exact List.mem_append_left _ hmem
    | some k =>
      by_cases hk : k = .taken .shutdown
      · rw [hk] at hmark
        exact .inl (taken_shutdown hmark)
      · have hturn := (polls (B := B)).turn s m k hmark
        refine .inr ?_
        revert hmem
        show .shutdown ∈ s.view.2 → .shutdown ∈ (view (Process.step B s m).1).2
        generalize s.view = v at hturn
        generalize view (Process.step B s m).1 = v' at hturn
        cases hturn with
        | taken c q =>
          intro hmem
          rcases List.mem_cons.mp hmem with rfl | hmem
          · exact absurd rfl hk
          · exact hmem
        | emptied | worked | woke => exact id

end Frame

structure Phased (s : Process σ τ α) : Prop where
  up : s.main ≠ .booting → s.world.daemon.backlog = []
  told : s.main = .stopping ∨ s.main = .joining → s.Told
  gone : s.main = .pumping ∨ s.main = .exited → s.world.daemon.stopped = true
  announced : s.main = .joining ∨ s.main = .pumping ∨ s.main = .exited →
    s.world.pumpGone = false → ∃ nowMs, daemonStopped nowMs ∈ s.log
  empty : s.main = .exited → s.world.daemon.events = []

theorem Phased.mainTurn (h : s.Phased) (nowMs : UnixMs) (acceptFails : Bool) :
    (s.mainTurn nowMs acceptFails).Phased := by
  unfold Process.mainTurn
  cases hmain : s.main with
  | booting =>
    dsimp only
    split
    · rename_i hup
      refine ⟨fun _ => List.isEmpty_iff.mp hup, ?_, ?_, ?_, ?_⟩ <;> simp
    · refine ⟨fun hno => absurd rfl hno, ?_, ?_, ?_, ?_⟩ <;> simp
  | serving =>
    have hup := h.up (by simp [hmain])
    dsimp only
    split
    · refine ⟨fun _ => hup, ?_, ?_, ?_, ?_⟩ <;> simp
    · refine ⟨fun _ => hup, ?_, ?_, ?_, ?_⟩ <;> simp [hmain]
  | closing =>
    have hup := h.up (by simp [hmain])
    dsimp only
    split
    · rename_i hstopped
      refine ⟨fun _ => hup, fun _ => .inl hstopped, ?_, ?_, ?_⟩ <;> simp
    · split
      · refine ⟨fun _ => hup, fun _ => .inr (by simp), ?_, ?_, ?_⟩ <;> simp
      · refine ⟨fun _ => hup, ?_, ?_, ?_, ?_⟩ <;> simp [hmain]
  | stopping =>
    have hup := h.up (by simp [hmain])
    have hlast : s.Told := h.told (.inl hmain)
    refine ⟨fun _ => hup, fun _ => hlast, ?_, fun _ halive => ⟨nowMs, ?_⟩, ?_⟩
    · simp
    · have hlives : s.world.pumpGone = false := halive
      simp [log, Guarded.heard, hlives]
    · simp
  | joining =>
    have hup := h.up (by simp [hmain])
    dsimp only
    split
    · rename_i hstopped
      refine ⟨fun _ => hup, ?_, fun _ => hstopped, fun _ => h.announced (.inl hmain), ?_⟩ <;> simp
    · exact h
  | pumping =>
    have hup := h.up (by simp [hmain])
    dsimp only
    split
    · rename_i hempty
      refine ⟨fun _ => hup, ?_, fun _ => h.gone (.inl hmain),
        fun _ => h.announced (.inr (.inl hmain)), fun _ => List.isEmpty_iff.mp hempty⟩
      simp
    · exact h
  | exited => exact h

theorem Phased.step (h : s.Phased) (m : Move σ τ α) : (step B s m).1.Phased := by
  by_cases hlive : s.main = .exited
  · rw [step_exited hlive]
    exact h
  by_cases hm : ∃ nowMs acceptFails, m = .main nowMs acceptFails
  · obtain ⟨nowMs, acceptFails, rfl⟩ := hm
    rw [step_live hlive]
    exact h.mainTurn nowMs acceptFails
  · have hnot : ∀ nowMs acceptFails, m ≠ .main nowMs acceptFails :=
      fun nowMs acceptFails heq => hm ⟨nowMs, acceptFails, heq⟩
    have hmain := step_main (B := B) (s := s) hnot
    obtain ⟨hbacklog, hstopped, halive, hlog⟩ := step_kept (B := B) (s := s) hnot
    refine ⟨?_, ?_, ?_, ?_, ?_⟩
    · rw [hmain, hbacklog]
      exact h.up
    · rw [hmain]
      exact fun hat => (h.told hat).step m
    · rw [hmain]
      exact fun hat => hstopped (h.gone hat)
    · rw [hmain]
      intro hat hlives
      obtain ⟨nowMs, hmem⟩ := h.announced hat (halive hlives)
      exact ⟨nowMs, (hlog hlives).mem hmem⟩
    · rw [hmain]
      exact fun hat => absurd hat hlive

theorem start_phased (L : Loader α) (nowMs : UnixMs) (env : Env σ τ) (image : Store α) :
    (start L nowMs env image : Process σ τ α).Phased := by
  refine ⟨fun hno => absurd rfl hno, ?_, ?_, ?_, ?_⟩ <;> simp [start]

theorem run_phased (L : Loader α) (nowMs : UnixMs) (env : Env σ τ) (image : Store α)
    (moves : List (Move σ τ α)) : (run (step B) (start L nowMs env image) moves).1.Phased :=
  run_invariant (fun _ m _ h => Phased.step h m) (start_phased L nowMs env image)

/-- What a turn of the process does to the daemon: it lets it take a step, or the main thread sends
it something. -/
inductive Steers (B : Backends σ τ) (w : Guarded σ τ α) : Guarded σ τ α → Prop
  | rests : Steers B w w
  | handles (K : Hazard α) (L : Loader α) (nowMs : UnixMs) (freshId : ProgramId) (r : Request) :
    Steers B w (w.step B (K, .request L nowMs freshId r)).1
  | obeys (i : DaemonInput σ τ α) : Steers B w (w.obey B i).1
  | pumps : Steers B w (w.pump B)
  | boots : Steers B w { w with daemon := w.daemon.bootSend }
  | closes :
    Steers B w { w with daemon := { w.daemon with cmds := w.daemon.cmds ++ [.shutdown] } }
  | stops (nowMs : UnixMs) : Steers B w
    (Guarded.heard
      { w with daemon := { w.daemon with events := w.daemon.events ++ [daemonStopped nowMs] } })

theorem mainTurn_steers (nowMs : UnixMs) (acceptFails : Bool) :
    Steers B s.world (s.mainTurn nowMs acceptFails).world := by
  unfold mainTurn
  cases s.main with
  | booting =>
    dsimp only
    split
    · exact .rests
    · exact .boots
  | closing =>
    dsimp only
    split
    · exact .rests
    · split
      · exact .closes
      · exact .rests
  | stopping => exact .stops nowMs
  | serving | joining | pumping =>
    dsimp only
    split <;> exact .rests
  | exited => exact .rests

theorem schedulerTurn_steers (nowMs : UnixMs) (stamps : Nat → UnixMs) (t : TickInput) :
    Steers B s.world (s.schedulerTurn B nowMs stamps t).1.world := by
  unfold schedulerTurn
  split
  · split
    · split
      · exact .rests
      · exact .obeys (.drain nowMs stamps)
    · exact .obeys (.tick t stamps)
    · exact .rests
  · exact .rests

theorem step_steers (m : Move σ τ α) : Steers B s.world (step B s m).1.world := by
  by_cases hlive : s.main = .exited
  · rw [step_exited hlive]
    exact .rests
  rw [step_live hlive]
  cases m with
  | handle K L nowMs freshId r =>
    simp only [turn, handleTurn]
    split
    · exact .rests
    · exact .handles K L nowMs freshId r
  | deliver i => exact .obeys (.deliver i)
  | pump => exact .pumps
  | signal =>
    simp only [turn]
    split <;> exact .rests
  | main nowMs acceptFails => exact mainTurn_steers nowMs acceptFails
  | scheduler nowMs stamps t => exact schedulerTurn_steers nowMs stamps t

theorem step_poisoned (h : s.world.pumpGone = true → s.world.poisoned = true) (m : Move σ τ α) :
    (step B s m).1.world.pumpGone = true → (step B s m).1.world.poisoned = true := by
  have hsteers := step_steers (B := B) (s := s) m
  generalize (step B s m).1.world = w' at hsteers
  cases hsteers with
  | rests | obeys | boots | closes | stops => exact h
  | handles K L nowMs freshId r =>
    simp only [Guarded.step]
    split
    · unfold Guarded.request
      split
      · exact h
      · split
        · exact fun _ => rfl
        · exact h
    · exact h
  | pumps =>
    unfold Guarded.pump
    split
    · rename_i hlethal
      rw [Guarded.lethal, Bool.and_eq_true] at hlethal
      exact fun _ => hlethal.1
    · exact h

def Move.OfThread : Move σ τ α → Prop
  | .main _ acceptFails => acceptFails = false
  | .scheduler .. | .pump => True
  | .handle .. | .deliver _ | .signal => False

def Leads (B : Backends σ τ) (s s' : Process σ τ α) : Prop :=
  ∃ moves : List (Move σ τ α), (∀ m ∈ moves, m.OfThread) ∧ (run (step B) s moves).1 = s'

theorem Leads.refl (s : Process σ τ α) : Leads B s s := ⟨[], by simp, rfl⟩

theorem Leads.turn {m : Move σ τ α} (hm : m.OfThread) {s' : Process σ τ α}
    (h : Leads B (step B s m).1 s') : Leads B s s' := by
  obtain ⟨moves, hall, rfl⟩ := h
  refine ⟨m :: moves, fun m' hm' => ?_, rfl⟩
  rcases List.mem_cons.mp hm' with rfl | hm'
  · exact hm
  · exact hall m' hm'

theorem Leads.trans {s' s'' : Process σ τ α} (h : Leads B s s') (h' : Leads B s' s'') :
    Leads B s s'' := by
  obtain ⟨moves, hall, rfl⟩ := h
  obtain ⟨moves', hall', rfl⟩ := h'
  refine ⟨moves ++ moves', fun m hm => ?_, by rw [run_append]⟩
  exact (List.mem_append.mp hm).elim (hall m) (hall' m)

theorem Leads.phased {s' : Process σ τ α} (h : Leads B s s') (hs : s.Phased) : s'.Phased := by
  obtain ⟨moves, -, rfl⟩ := h
  exact run_invariant (fun _ m _ h => Phased.step h m) hs

theorem Leads.told {s' : Process σ τ α} (h : Leads B s s') (hs : s.Told) : s'.Told := by
  obtain ⟨moves, -, rfl⟩ := h
  exact run_invariant (fun _ m _ h => Told.step h m) hs

def idleTurn : Move σ τ α := .scheduler 0 (fun _ => 0) ⟨none, 0, fun keys => ⟨keys, .refl keys⟩⟩

def Phase.distance : Phase → Nat
  | .draining => 0
  | .resting => 1
  | .working => 2

theorem mark_of_running (hlive : s.main ≠ .exited) (hrun : s.running = true) :
    ∃ k, s.mark idleTurn = some k := by
  simp only [mark, idleTurn, hlive, hrun, decide_false, Bool.not_true, Bool.or_self,
    Bool.false_eq_true, if_false]
  split <;> exact ⟨_, rfl⟩

theorem leads_drained (hlive : s.main ≠ .exited) (hup : s.world.daemon.backlog = []) :
    ∃ s', Leads B s s' ∧ s'.main = s.main ∧
      (s'.world.daemon.stopped = true ∨ s'.world.daemon.cmds = []) := by
  induction hn : 3 * s.view.2.length + Phase.distance s.view.1 using Nat.strong_induction_on
    generalizing s with
  | _ n ih =>
    by_cases hend : s.world.daemon.stopped = true ∨ s.world.daemon.cmds = []
    · exact ⟨s, .refl s, rfl, hend⟩
    obtain ⟨hgoes, hcmds⟩ := not_or.mp hend
    have hrun : s.running = true := running_iff.mpr ⟨List.isEmpty_iff.mpr hup, by simpa using hgoes⟩
    obtain ⟨k, hk⟩ := mark_of_running hlive hrun
    have hturn := (polls (B := B)).turn s idleTurn k hk
    have hmain : (step B s idleTurn).1.main = s.main := step_main (by simp [idleTurn])
    have hkept : Kept s (step B s idleTurn).1 := step_kept (by simp [idleTurn])
    have hless : 3 * (view (step B s idleTurn).1).2.length +
        Phase.distance (view (step B s idleTurn).1).1 < n := by
      rw [← hn]
      have hsome : s.view.2 ≠ [] := hcmds
      generalize s.view = v at hturn hsome
      generalize view (step B s idleTurn).1 = v' at hturn
      cases hturn with
      | taken c q =>
        simp only [List.length_cons, Phase.distance]
        omega
      | emptied => exact absurd rfl hsome
      | worked q | woke q =>
        simp only [Phase.distance]
        omega
    obtain ⟨s', hleads, hsame, hdone⟩ := ih _ hless (s := (step B s idleTurn).1)
      (by rw [hmain]; exact hlive) (hkept.backlog.trans hup) rfl
    exact ⟨s', Leads.turn (m := idleTurn) trivial hleads, hsame.trans hmain, hdone⟩

def mainStep : Move σ τ α := .main 0 false

theorem leads_main (hlive : s.main ≠ .exited) : Leads B s (s.mainTurn 0 false) := by
  have hstep : (step B s mainStep).1 = s.mainTurn 0 false := by rw [step_live hlive]; rfl
  refine Leads.turn (m := mainStep) rfl ?_
  rw [hstep]
  exact .refl _

theorem from_pumping (hmain : s.main = .pumping) : ∃ s', Leads B s s' ∧ s'.main = .exited := by
  induction hn : s.world.daemon.events generalizing s with
  | nil =>
    refine ⟨_, leads_main (by simp [hmain]), ?_⟩
    simp [mainTurn, hmain, hn]
  | cons e rest ih =>
    have hlive : s.main ≠ .exited := by simp [hmain]
    have hsame : (step B s .pump).1.main = s.main := step_main (by simp)
    -- the pump takes the event, or dies of it and takes all with it
    have hevents : (step B s .pump).1.world.daemon.events = [] ∨
        (step B s .pump).1.world.daemon.events = rest := by
      rw [step_live hlive]
      simp only [turn, Guarded.pump]
      split
      · exact .inl rfl
      · simp only [Broadcasting.step, Daemon.step, Daemon.pump, hn, or_true]
    have hnext : ∃ s', Leads B (step B s .pump).1 s' ∧ s'.main = .exited := by
      rcases hevents with hnil | hrest
      · refine ⟨_, leads_main (by simp [hsame, hmain]), ?_⟩
        simp [mainTurn, hsame, hmain, hnil]
      · exact ih (hsame.trans hmain) hrest
    obtain ⟨s', hleads, hexit⟩ := hnext
    exact ⟨s', Leads.turn (m := .pump) trivial hleads, hexit⟩

theorem from_joining (h : s.Phased) (hmain : s.main = .joining) :
    ∃ s', Leads B s s' ∧ s'.main = .exited := by
  have hlive : s.main ≠ .exited := by simp [hmain]
  obtain ⟨s₁, hleads, hsame, hdone⟩ := leads_drained (B := B) hlive (h.up (by simp [hmain]))
  have hat : s₁.main = .joining := hsame.trans hmain
  have hstopped : s₁.world.daemon.stopped = true := by
    rcases hleads.told (h.told (.inr hmain)) with hstopped | hmem
    · exact hstopped
    · refine hdone.resolve_right fun hnil => ?_
      simp [hnil] at hmem
  have hnext : (s₁.mainTurn 0 false).main = .pumping := by simp [mainTurn, hat, hstopped]
  obtain ⟨s', hrest, hexit⟩ := from_pumping (B := B) hnext
  exact ⟨s', (hleads.trans (leads_main (by simp [hat]))).trans hrest, hexit⟩

theorem from_stopping (h : s.Phased) (hmain : s.main = .stopping) :
    ∃ s', Leads B s s' ∧ s'.main = .exited := by
  have hnext : (s.mainTurn 0 false).main = .joining := by simp [mainTurn, hmain]
  obtain ⟨s', hrest, hexit⟩ := from_joining (B := B) (h.mainTurn 0 false) hnext
  exact ⟨s', (leads_main (by simp [hmain])).trans hrest, hexit⟩

/-- The channel may be full: the main thread then waits for the scheduler to take from it. -/
theorem from_closing (h : s.Phased) (hmain : s.main = .closing) :
    ∃ s', Leads B s s' ∧ s'.main = .exited := by
  have hlive : s.main ≠ .exited := by simp [hmain]
  obtain ⟨s₁, hleads, hsame, hdone⟩ := leads_drained (B := B) hlive (h.up (by simp [hmain]))
  have hat : s₁.main = .closing := hsame.trans hmain
  have hnext : (s₁.mainTurn 0 false).main = .stopping := by
    cases hstopped : s₁.world.daemon.stopped with
    | true => simp [mainTurn, hat, hstopped]
    | false =>
      have hnil := hdone.resolve_left (by simp [hstopped])
      simp [mainTurn, hat, hstopped, hnil, cmdCapacity]
  obtain ⟨s', hrest, hexit⟩ := from_stopping (B := B) ((hleads.phased h).mainTurn 0 false) hnext
  exact ⟨s', (hleads.trans (leads_main (by simp [hat]))).trans hrest, hexit⟩

theorem from_serving (h : s.Phased) (hmain : s.main = .serving) (hfired : s.fired = true) :
    ∃ s', Leads B s s' ∧ s'.main = .exited := by
  have hnext : (s.mainTurn 0 false).main = .closing := by simp [mainTurn, hmain, hfired]
  obtain ⟨s', hrest, hexit⟩ := from_closing (B := B) (h.mainTurn 0 false) hnext
  exact ⟨s', (leads_main (by simp [hmain])).trans hrest, hexit⟩

/-- No shutdown gets stuck: once the daemon serves and the shutdown signal is there, or the accept
loop is over, its own threads can always bring it to its exit, however full the channel is. -/
theorem exit_reachable (B : Backends σ τ) (L : Loader α) (nowMs : UnixMs) (env : Env σ τ)
    (image : Store α) (moves : List (Move σ τ α)) :
    let s := (run (step B) (start L nowMs env image) moves).1
    s.main ≠ .booting → s.fired = true ∨ s.main ≠ .serving →
      ∃ more : List (Move σ τ α), (∀ m ∈ more, m.OfThread) ∧
        (run (step B) s more).1.main = .exited := by
  intro s hup hgoing
  have h : s.Phased := run_phased L nowMs env image moves
  have hleads : ∃ s', Leads B s s' ∧ s'.main = .exited := by
    cases hmain : s.main with
    | booting => exact absurd hmain hup
    | serving => exact from_serving h hmain (hgoing.resolve_right (by simp [hmain]))
    | closing => exact from_closing h hmain
    | stopping => exact from_stopping h hmain
    | joining => exact from_joining h hmain
    | pumping => exact from_pumping hmain
    | exited => exact ⟨s, .refl s, hmain⟩
  obtain ⟨s', ⟨more, hall, rfl⟩, hexit⟩ := hleads
  exact ⟨more, hall, hexit⟩

/-- A daemon that takes a program and is signalled to stop. Its last command is sent, and a cancel
is accepted behind it. -/
def closingDown : List (Move Unit Unit Unit) :=
  [.main 0 false, .handle .calm (Loader.constant typist) 5 ⟨1⟩ (.submit .null none), .deliver 0,
    .signal, .main 0 false, .main 0 false,
    .handle .calm (Loader.constant typist) 5 ⟨2⟩ (.cancel ⟨1⟩), .deliver 0]

theorem exit_reachable_closing_down :
    let B : Backends Unit Unit := Backends.constant (.ok ⟨true, none, 0⟩)
    let s := (run (step B) (start (Loader.constant typist) 0 ⟨(), ()⟩ (.fresh ())) closingDown).1
    ∃ more : List (Move Unit Unit Unit), (∀ m ∈ more, m.OfThread) ∧
      (run (step B) s more).1.main = .exited := by
  intro B s
  have hmain : s.main = .stopping := by decide +kernel
  have hup : s.main ≠ .booting := by simp [hmain]
  have hfired : s.fired = true := by decide +kernel
  exact exit_reachable B (Loader.constant typist) 0 ⟨(), ()⟩ (.fresh ()) closingDown hup (.inl hfired)

end Process

end Vcli

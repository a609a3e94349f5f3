import Vcli.Daemon.Process
import Vcli.Runtime.Acting

/-! When a command takes effect that the scheduler has been sent: before the second tick that begins
after it was accepted. -/

namespace Vcli

open Transducer Polling

def SchedulerCommand.Revives (p : ProgramId) (c : SchedulerCommand) : Prop :=
  c = .start p ∨ c.inserts p

theorem SchedulerCommand.Revives.of_input {p : ProgramId} {c : SchedulerCommand} {nowMs : UnixMs}
    (h : (Input.command c nowMs).Revives p) : c.Revives p := by
  cases c with
  | start id => exact .inl (congrArg SchedulerCommand.start h)
  | submitValidated | cancel | resumeRunning | shutdown => exact .inr h

theorem Scheduler.step_halted {σ τ : Type} {B : Backends σ τ} {s : Scheduler σ τ} {p : ProgramId}
    {i : Input} (h : Halted (s.programs.lookup p)) (hi : ¬ i.Revives p) :
    Halted ((step B s i).1.programs.lookup p) ∧ ∀ m ∈ (step B s i).2, ¬ m.obs.ActsFor p := by
  obtain ⟨a, rfl, hlook, htrace⟩ := step_project (B := B) (s := s) (p := p) i
  obtain ⟨hnext, hidle⟩ := localStep_halted (B := B) h hi
  rw [hlook]
  refine ⟨hnext, fun m hm hact => ?_⟩
  have hmem : m.of p ∈ (localStep B p (s.programs.lookup p) a).2 := by
    rw [← htrace]
    exact mem_traceOf.mpr ⟨m, hm, hact.2, rfl⟩
  exact hidle _ hmem hact.1

namespace Process

variable {σ τ α : Type} {B : Backends σ τ} {s : Process σ τ α} {p : ProgramId}

inductive Schedules (B : Backends σ τ) (s : Process σ τ α) :
    Process σ τ α × List Notice → Prop
  | nothing {r : Process σ τ α × List Notice} (hsched : r.1.world.daemon.sched = s.world.daemon.sched)
      (hquiet : ∀ m, .observed m ∉ r.2) : Schedules B s r
  | tick {r : Process σ τ α × List Notice} (t : TickInput) (hrun : s.running = true)
      (hsched : r.1.world.daemon.sched = (s.world.daemon.sched.step B (.tick t)).1)
      (hout : r.2 = (s.world.daemon.sched.step B (.tick t)).2.map .observed) : Schedules B s r
  | command {r : Process σ τ α × List Notice} {c : SchedulerCommand} {rest : List SchedulerCommand}
      (nowMs : UnixMs) (hrun : s.running = true) (hcmds : s.world.daemon.cmds = c :: rest)
      (hsched : r.1.world.daemon.sched = (s.world.daemon.sched.step B (.command c nowMs)).1)
      (hout : r.2 = (s.world.daemon.sched.step B (.command c nowMs)).2.map .observed) :
      Schedules B s r

theorem schedules_scheduler (nowMs : UnixMs) (stamps : Nat → UnixMs) (t : TickInput) :
    Schedules B s (s.schedulerTurn B nowMs stamps t) := by
  by_cases hrun : s.running = true
  · obtain ⟨hup, hgoes⟩ := running_iff.mp hrun
    simp only [schedulerTurn, hrun, if_true]
    cases hloop : s.loop with
    | draining =>
      cases hcmds : s.world.daemon.cmds with
      | nil => exact .nothing rfl (by simp)
      | cons c rest =>
        simp only [List.isEmpty_cons, Bool.false_eq_true, if_false, Guarded.obey, Guarded.heard,
          Broadcasting.step, Daemon.step, hup, hgoes, Bool.not_false, Bool.and_self, if_true,
          Daemon.drain, hcmds]
        cases c with
        | shutdown => exact .nothing rfl (by simp)
        | submitValidated | cancel | start | resumeRunning => exact .command nowMs hrun hcmds rfl rfl
    | working =>
      simp only [Guarded.obey, Guarded.heard, Broadcasting.step, Daemon.step, hup, hgoes,
        Bool.not_false, Bool.and_self, if_true]
      exact .tick t hrun rfl rfl
    | resting => exact .nothing rfl (by simp)
  · simp only [schedulerTurn, hrun]
    exact .nothing rfl (by simp)

theorem request_sched (d : Daemon σ τ α) (L : Loader α) (nowMs : UnixMs) (freshId : ProgramId)
    (r : Request) : (d.request L nowMs freshId r).1.sched = d.sched ∧
      ∀ m, .observed m ∉ (d.request L nowMs freshId r).2 := by
  cases r with
  | submit programJson baseDir =>
    simp only [Daemon.request]
    cases L.validateValue programJson with
    | error e => simp
    | ok program =>
      dsimp only
      split <;> simp [Daemon.sending]
  | resume pid fromStart =>
    simp only [Daemon.request]
    split <;> simp [Daemon.sending]
  | cancel | start | gc | shutdown => simp [Daemon.request, Daemon.sending]

theorem handled_sched (w : Guarded σ τ α) (K : Hazard α) (L : Loader α) (nowMs : UnixMs)
    (freshId : ProgramId) (r : Request) :
    (w.step B (K, .request L nowMs freshId r)).1.daemon.sched = w.daemon.sched ∧
      ∀ m, .observed m ∉ (w.step B (K, .request L nowMs freshId r)).2 := by
  rcases w.step_request (B := B) K L nowMs freshId r with ⟨store, poisoned, heq⟩ | heq
  · rw [heq]
    exact ⟨rfl, by simp [Hazard.refusal]⟩
  · rw [heq, Daemon.step]
    split
    · exact request_sched w.daemon L nowMs freshId r
    · exact ⟨rfl, by simp⟩

theorem deliver_sched (d : Daemon σ τ α) (i : Nat) :
    (d.deliver i).1.sched = d.sched ∧ ∀ m, .observed m ∉ (d.deliver i).2 := by
  unfold Daemon.deliver
  split
  · exact ⟨rfl, by simp⟩
  · split_ifs <;> exact ⟨rfl, by simp⟩

theorem bootSend_sched (d : Daemon σ τ α) : d.bootSend.sched = d.sched := by
  unfold Daemon.bootSend
  split
  · rfl
  · split_ifs <;> rfl

theorem step_schedules (m : Move σ τ α) : Schedules B s (step B s m) := by
  by_cases hlive : s.main = .exited
  · rw [step_exited hlive]
    exact .nothing rfl (by simp)
  rw [step_live hlive]
  cases m with
  | handle K L nowMs freshId r =>
    simp only [turn, handleTurn]
    split_ifs
    · exact .nothing rfl (by simp)
    · obtain ⟨hsched, hquiet⟩ := handled_sched (B := B) s.world K L nowMs freshId r
      exact .nothing hsched hquiet
  | deliver i =>
    obtain ⟨hsched, hquiet⟩ := deliver_sched s.world.daemon i
    exact .nothing hsched hquiet
  | pump => exact .nothing s.world.pump_kept.2.1 (by simp [turn])
  | signal =>
    simp only [turn]
    split <;> exact .nothing rfl (by simp)
  | main nowMs acceptFails =>
    refine .nothing ?_ (by simp [turn])
    simp only [turn, mainTurn]
    cases s.main with
    | booting =>
      simp only
      split_ifs
      · rfl
      · exact bootSend_sched _
    | serving | closing | joining | pumping =>
      simp only
      split_ifs <;> rfl
    | stopping | exited => rfl
  | scheduler nowMs stamps t => exact schedules_scheduler nowMs stamps t

theorem step_booted (h : s.main ≠ .booting) (m : Move σ τ α) : (step B s m).1.main ≠ .booting := by
  cases m with
  | handle | deliver | pump | signal | scheduler =>
    rw [step_main (by simp)]
    exact h
  | main nowMs acceptFails =>
    by_cases hlive : s.main = .exited
    · rw [step_exited hlive]
      exact h
    rw [step_live hlive]
    simp only [turn, mainTurn]
    cases hmain : s.main with
    | booting => exact absurd hmain h
    | serving | closing | joining | pumping =>
      simp only
      split_ifs <;> simp [hmain]
    | stopping | exited => simp [hmain]

def Unhandled (s : Process σ τ α) : Prop := s.main = .booting → s.world.daemon.inflight = []

theorem bootSend_inflight (d : Daemon σ τ α) : d.bootSend.inflight = d.inflight := by
  unfold Daemon.bootSend
  split
  · rfl
  · split_ifs <;> rfl

theorem Unhandled.step (h : s.Unhandled) (m : Move σ τ α) : (step B s m).1.Unhandled := by
  intro hboot
  have hbefore : s.main = .booting := by
    by_contra hno
    exact step_booted hno m hboot
  have hnone := h hbefore
  rw [step_live (by simp [hbefore])]
  cases m with
  | handle K L nowMs freshId r =>
    simp only [turn, handleTurn, hbefore, if_true]
    exact hnone
  | deliver i =>
    simp only [turn, Guarded.obey, Guarded.heard, Broadcasting.step, Daemon.step, Daemon.deliver,
      hnone, List.getElem?_nil]
  | pump => exact s.world.pump_kept.2.2.1.trans hnone
  | signal =>
    simp only [turn, hbefore, if_true]
    exact hnone
  | main nowMs acceptFails =>
    simp only [turn, mainTurn, hbefore]
    split
    · exact hnone
    · exact (bootSend_inflight _).trans hnone
  | scheduler nowMs stamps t =>
    exact (schedulerTurn_kept nowMs stamps t).2.2.2.2.1.trans hnone

def Accepts (B : Backends σ τ) (P : SchedulerCommand → Prop) (s : Process σ τ α)
    (m : Move σ τ α) : Prop :=
  ∀ c, .answered (.ok (some c)) ∈ (step B s m).2 → P c

theorem adds_of_accepts {P : SchedulerCommand → Prop} {m : Move σ τ α} (hboot : s.main ≠ .booting)
    (hlast : P .shutdown) (hm : s.mark m = none) (h : Accepts B P s m) :
    Adds (step B) view P s m := by
  intro more hmore c hc
  obtain ⟨more', hcmds, hall⟩ := (step_sends (B := B) hm).cmds
  obtain rfl : more' = more := List.append_cancel_left (hcmds.symm.trans hmore)
  rcases hall c hc with hno | rfl | hans
  · exact absurd hno hboot
  · exact hlast
  · exact h c hans

theorem step_answered {i : Nat} {c : SchedulerCommand}
    (h : .answered (.ok (some c)) ∈ (step B s (.deliver i)).2) :
    s.world.daemon.inflight ≠ [] ∧
      (step B s (.deliver i)).1.world.daemon.cmds = s.world.daemon.cmds ++ [c] := by
  have hlive : s.main ≠ .exited := by
    intro hexit
    rw [step_exited hexit] at h
    cases h
  rw [step_live hlive] at h ⊢
  simp only [turn, Guarded.obey, Guarded.heard, Broadcasting.step, Daemon.step,
    Daemon.deliver] at h ⊢
  cases hget : s.world.daemon.inflight[i]? with
  | none => simp [hget] at h
  | some c' =>
    refine ⟨fun hnone => by simp [hnone] at hget, ?_⟩
    simp only [hget] at h ⊢
    split_ifs at h with hstop hroom
    · obtain hans := Notice.answered.inj (List.mem_singleton.mp h)
      cases c' <;> cases hans
    · obtain rfl : c = c' := by simpa using h
      simp [hstop, hroom]
    · cases h

structure Stopped (p : ProgramId) (s : Process σ τ α) : Prop where
  booted : s.main ≠ .booting
  halted : Halted (s.world.daemon.sched.programs.lookup p)
  cmds : ∀ c ∈ s.world.daemon.cmds, ¬ c.Revives p

theorem Stopped.step (h : Stopped p s) {m : Move σ τ α} (hm : Accepts B (fun c => ¬ c.Revives p) s m) :
    Stopped p (step B s m).1 ∧ ∀ n, .observed n ∈ (step B s m).2 → ¬ n.obs.ActsFor p := by
  have hcmds : ∀ c ∈ (Process.step B s m).1.world.daemon.cmds, ¬ c.Revives p := by
    cases hmark : s.mark m with
    | none =>
      obtain ⟨more, hmore⟩ := (polls (B := B)).queue s m hmark
      have hnew := adds_of_accepts h.booted (by rintro (hs | hs) <;> cases hs) hmark hm more hmore.symm
      intro c hc
      rw [show (Process.step B s m).1.world.daemon.cmds = _ from hmore.symm] at hc
      exact (List.mem_append.mp hc).elim (h.cmds c) (hnew c)
    | some k =>
      have hturn := (polls (B := B)).turn s m k hmark
      intro c hc
      apply h.cmds c
      revert hc
      show c ∈ (view (Process.step B s m).1).2 → c ∈ s.view.2
      generalize s.view = v at hturn
      generalize view (Process.step B s m).1 = v' at hturn
      cases hturn with
      | taken d q => exact List.mem_cons_of_mem d
      | emptied | worked | woke => exact id
  have hnext : ∀ i : Input, ¬ i.Revives p →
      (Process.step B s m).1.world.daemon.sched = (s.world.daemon.sched.step B i).1 →
      (Process.step B s m).2 = (s.world.daemon.sched.step B i).2.map .observed →
      Stopped p (Process.step B s m).1 ∧
        ∀ n, .observed n ∈ (Process.step B s m).2 → ¬ n.obs.ActsFor p := by
    intro i hi hsched hout
    obtain ⟨hhalted, hquiet⟩ := Scheduler.step_halted (B := B) h.halted hi
    refine ⟨⟨step_booted h.booted m, hsched ▸ hhalted, hcmds⟩, fun n hn => ?_⟩
    rw [hout] at hn
    obtain ⟨n', hn', heq⟩ := List.mem_map.mp hn
    rw [← Notice.observed.inj heq]
    exact hquiet n' hn'
  have hsch : Schedules B s (Process.step B s m) := step_schedules m
  cases hsch with
  | nothing hsched hquiet =>
    exact ⟨⟨step_booted h.booted m, hsched ▸ h.halted, hcmds⟩, fun n hn => absurd hn (hquiet n)⟩
  | tick t hrun hsched hout => exact hnext (.tick t) (fun hr => hr) hsched hout
  | @command c rest nowMs hrun hfirst hsched hout =>
    refine hnext (.command c nowMs) (fun hr => ?_) hsched hout
    refine h.cmds c ?_ (.of_input hr)
    rw [hfirst]
    exact List.mem_cons_self

theorem Stopped.run (h : Stopped p s) {ms : List (Move σ τ α)}
    (hms : ∀ x ∈ trail (Process.step B) s ms, Accepts B (fun c => ¬ c.Revives p) x.1 x.2) :
    ∀ n, .observed n ∈ (run (Process.step B) s ms).2 → ¬ n.obs.ActsFor p := by
  intro n hn
  obtain ⟨x, hx, hout⟩ := mem_run_iff.mp hn
  have hall := trail_invariant h (fun x hx hI => (Stopped.step hI (hms x hx)).1) x hx
  exact (Stopped.step hall (hms x hx)).2 n hout

/-- The command that the loop takes is the first in the channel. -/
theorem drain_of_taken {m : Move σ τ α} {c : SchedulerCommand} (hm : s.mark m = some (.taken c)) :
    ∃ nowMs stamps rest, s.world.daemon.cmds = c :: rest ∧
      (Process.step B s m).1.world.daemon.sched = (s.world.daemon.drain nowMs stamps).1.sched ∧
      (Process.step B s m).1.world.daemon.stopped =
        (s.world.daemon.drain nowMs stamps).1.stopped := by
  cases m with
  | handle | deliver | pump | signal | main => cases hm
  | scheduler nowMs stamps t =>
    by_cases hquiet : s.main = .exited ∨ s.running = false
    · rcases hquiet with h | h <;> simp [mark, h] at hm
    · obtain ⟨hlive, hon⟩ := not_or.mp hquiet
      have hrun : s.running = true := by simpa using hon
      obtain ⟨hup, hgoes⟩ := running_iff.mp hrun
      simp only [mark, hlive, hrun, decide_false, Bool.not_true, Bool.or_self,
        Bool.false_eq_true, if_false] at hm
      split at hm
      · cases hm
      · obtain rfl := Mark.taken.inj (Option.some.inj hm)
        rename_i rest hloop hcmds
        refine ⟨nowMs, stamps, rest, hcmds, ?_⟩
        simp [step_live hlive, turn, schedulerTurn, hrun, hloop, hcmds, Guarded.obey, Guarded.heard,
          Broadcasting.step, Daemon.step, hup, hgoes]
      · cases hm
      · cases hm

theorem step_taken {m : Move σ τ α} {c : SchedulerCommand} (hm : s.mark m = some (.taken c))
    (hc : c ≠ .shutdown) : ∃ nowMs, (Process.step B s m).1.world.daemon.sched =
      (s.world.daemon.sched.step B (.command c nowMs)).1 := by
  obtain ⟨nowMs, stamps, rest, hcmds, hsched, -⟩ := drain_of_taken (B := B) hm
  refine ⟨nowMs, ?_⟩
  rw [hsched, Daemon.drain, hcmds]
  cases c with
  | shutdown => exact absurd rfl hc
  | submitValidated | cancel | start | resumeRunning => rfl

theorem halted_command (s : Scheduler σ τ) (nowMs : UnixMs) (reason : String) :
    Halted ((s.step B (.command (.cancel p reason) nowMs)).1.programs.lookup p) := by
  have hself : (s.drainOne nowMs (.cancel p reason)).1.programs.lookup p =
      (localCommand p nowMs (s.programs.lookup p) (.cancel p reason)).1 :=
    (Scheduler.drainOne_self rfl).1
  rw [Scheduler.step, hself]
  exact halted_cancel nowMs reason p

theorem taken_cancel {m : Move σ τ α} {rest : List SchedulerCommand} {reason : String}
    (hboot : s.main ≠ .booting) (hview : s.view = (.draining, .cancel p reason :: rest))
    (hm : s.mark m = some (.taken (.cancel p reason))) (hrest : ∀ d ∈ rest, ¬ d.Revives p) :
    Stopped p (Process.step B s m).1 := by
  obtain ⟨nowMs, hsched⟩ := step_taken (B := B) hm (by simp)
  have hturn := (polls (B := B)).turn s m _ hm
  rw [hview] at hturn
  refine ⟨step_booted hboot m, ?_, ?_⟩
  · rw [hsched]
    exact halted_command _ nowMs reason
  · show ∀ c ∈ (view (Process.step B s m).1).2, ¬ c.Revives p
    generalize view (Process.step B s m).1 = v at hturn
    cases hturn with
    | taken => exact hrest

/-- Once a cancel has been accepted, and as long as nothing is accepted that sets the program going
again, at most one more tick begins before the program is halted for good. -/
theorem cancel_in_time (B : Backends σ τ) (L : Loader α) (nowMs : UnixMs) (env : Env σ τ)
    (image : Store α) (past : List (Move σ τ α)) (i : Nat) (p : ProgramId) (reason : String)
    (moves : List (Move σ τ α)) :
    let s := (run (step B) (start L nowMs env image) past).1
    let s' := (step B s (.deliver i)).1
    .answered (.ok (some (.cancel p reason))) ∈ (step B s (.deliver i)).2 →
    (∀ x ∈ trail (step B) s' moves, Accepts B (fun c => ¬ c.Revives p) x.1 x.2) →
    ∃ now later, moves = now ++ later ∧ ticks B s' now ≤ 1 ∧
      ∀ n, .observed n ∈ (run (step B) (run (step B) s' now).1 later).2 → ¬ n.obs.ActsFor p := by
  intro s s' hans haccepts
  obtain ⟨hinflight, hcmds⟩ := step_answered hans
  have hunhandled : s.Unhandled := run_invariant (fun s m _ h => Unhandled.step h m) (fun _ => rfl)
  have hboot : s'.main ≠ .booting := step_booted (fun h => hinflight (hunhandled h)) _
  have hbooted : ∀ x ∈ trail (step B) s' moves, x.1.main ≠ .booting :=
    trail_invariant (I := fun s : Process σ τ α => s.main ≠ .booting) hboot fun x _ h => step_booted h x.2
  have hqueue : s'.view.2 = s.world.daemon.cmds ++ .cancel p reason :: [] := hcmds
  have htime := (polls (B := B)).inTime hqueue (by simp)
    fun x hx hmark => adds_of_accepts (hbooted x hx) (by rintro (h | h) <;> cases h) hmark
      (haccepts x hx)
  rcases htime with ⟨now, a, later, rest, rfl, hview, hmark, hrest, hworks⟩ | ⟨hworks, -⟩
  · have hat : (run (step B) s' now).1.main ≠ .booting := by
      refine hbooted ((run (step B) s' now).1, a) (mem_trail_iff.mpr ⟨now, a, later, rfl, rfl⟩)
    have hstopped := taken_cancel (B := B) hat hview hmark hrest
    have hafter : (run (step B) s' (now ++ [a])).1 = (step B (run (step B) s' now).1 a).1 := by
      rw [run_append]
      rfl
    refine ⟨now ++ [a], later, by simp, ?_, ?_⟩
    · rw [ticks, works_snoc, hmark]
      exact hworks.trans s'.loop.budget_le_one
    · rw [hafter]
      apply Stopped.run hstopped
      intro x hx
      refine haccepts x ?_
      rw [trail_append, List.mem_append]
      exact .inr (List.mem_cons_of_mem _ hx)
  · refine ⟨moves, [], (List.append_nil _).symm, hworks.trans s'.loop.budget_le_one, ?_⟩
    intro n hn
    cases hn

theorem accepts_scheduler {P : SchedulerCommand → Prop} (nowMs : UnixMs) (stamps : Nat → UnixMs)
    (t : TickInput) : Accepts B P s (.scheduler nowMs stamps t) := by
  intro c hans
  exfalso
  have hno : .answered (.ok (some c)) ∉ (s.schedulerTurn B nowMs stamps t).2 := by
    have hsch : ∀ ms : List (Moment ProgramMap), .answered (.ok (some c)) ∉ ms.map Notice.observed := by
      simp
    unfold schedulerTurn
    split
    · split
      · split
        · exact List.not_mem_nil
        · simp only [Guarded.obey, Daemon.step, Daemon.drain]
          split
          · split
            · exact List.not_mem_nil
            · exact List.not_mem_nil
            · exact hsch _
          · exact List.not_mem_nil
      · simp only [Guarded.obey, Daemon.step]
        split
        · exact hsch _
        · exact List.not_mem_nil
      · exact List.not_mem_nil
    · exact List.not_mem_nil
  by_cases hlive : s.main = .exited
  · rw [step_exited hlive] at hans
    exact List.not_mem_nil hans
  · rw [step_live hlive] at hans
    exact hno hans

def around : Move Unit Unit Unit := .scheduler 6 (fun _ => 7) (.plain .dot 6)

def typist : Program := { Program.blank "demo" with body := [.type "a", .type "b", .type "c"] }

def cancelling : List (Move Unit Unit Unit) :=
  [.main 0 false, .handle .calm (Loader.constant typist) 5 ⟨1⟩ (.submit .null none), .deliver 0,
    around, around, around, around, around, .handle .calm (Loader.constant typist) 5 ⟨2⟩ (.cancel ⟨1⟩)]

def goingRound : List (Move Unit Unit Unit) := List.replicate 6 around

def typed (p : ProgramId) : Notice → Option String
  | .observed ⟨_, _, .called q (.typeText text) _⟩ => if q = p then some text else none
  | _ => none

def cancelTaken (p : ProgramId) (reason : String) : Notice → Bool
  | .answered (.ok (some (.cancel q because))) => q = p && because = reason
  | _ => false

theorem mem_of_cancelTaken {reason : String} {ns : List Notice}
    (h : ns.any (cancelTaken p reason) = true) : .answered (.ok (some (.cancel p reason))) ∈ ns := by
  obtain ⟨n, hn, htaken⟩ := List.any_eq_true.mp h
  unfold cancelTaken at htaken
  split at htaken
  · obtain ⟨rfl, rfl⟩ : _ ∧ _ := by simpa using htaken
    exact hn
  · cases htaken

/-- The tick that was due still types; after it the program does nothing more. -/
theorem cancel_in_time_going_round :
    let B : Backends Unit Unit := Backends.constant (.ok ⟨true, none, 0⟩)
    let s := (run (step B) (start (Loader.constant typist) 0 ⟨(), ()⟩ (.fresh ())) cancelling).1
    let s' := (step B s (.deliver 0)).1
    (run (step B) s' goingRound).2.filterMap (typed ⟨1⟩) = ["b"] ∧
      ∃ now later, goingRound = now ++ later ∧ ticks B s' now ≤ 1 ∧
        ∀ n, .observed n ∈ (run (step B) (run (step B) s' now).1 later).2 → ¬ n.obs.ActsFor ⟨1⟩ := by
  intro B s s'
  constructor
  · decide +kernel
  · refine cancel_in_time B _ 0 ⟨(), ()⟩ (.fresh ()) cancelling 0 ⟨1⟩ "user" goingRound ?_ ?_
    · exact mem_of_cancelTaken (by decide +kernel)
    · intro x hx
      have hmove := List.eq_of_mem_replicate (mem_of_mem_trail hx)
      rw [hmove]
      exact accepts_scheduler 6 _ _

end Process

end Vcli

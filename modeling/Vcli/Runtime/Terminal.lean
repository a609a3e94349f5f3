import Vcli.Runtime.Local

/-! Terminal states. Ticks leave a terminal program alone; the commands look at no state, so
whether a terminal program stays as it is depends on what is sent to it. -/

namespace Vcli

open Transducer

variable {σ τ : Type}

def Input.submits (p : ProgramId) (i : Input) : Prop :=
  ∃ program assets nowMs, i = .command (.submitValidated p program assets) nowMs

def Input.resumes (p : ProgramId) (i : Input) : Prop :=
  ∃ fromStep program assets nowMs, i = .command (.resumeRunning p fromStep program assets) nowMs

def Input.cancels (p : ProgramId) (i : Input) : Prop :=
  ∃ reason nowMs, i = .command (.cancel p reason) nowMs

def Input.starts (p : ProgramId) (i : Input) : Prop := ∃ nowMs, i = .command (.start p) nowMs

def NoStateChange (p : ProgramId) (ms : List (Moment ProgramMap)) : Prop :=
  ∀ m ∈ ms, ∀ from_ to_ reason, m.obs ≠ .emitted (.programStateChanged p from_ to_ reason)

namespace Scheduler

structure Absorbing (B : Backends σ τ) (p : ProgramId) (s : Scheduler σ τ) (i : Input) : Prop where
  stays : ∀ st, stateIn s.programs p = some st → st.isTerminal → ¬ i.submits p →
    ¬ (i.resumes p ∧ st = .failed) → stateIn (step B s i).1.programs p = some st
  cancel : ∀ st, stateIn s.programs p = some st → st.isTerminal → i.cancels p →
    stateIn (step B s i).1.programs p = some st ∧ NoStateChange p (step B s i).2
  start : ∀ st, stateIn s.programs p = some st → i.starts p →
    stateIn (step B s i).1.programs p = some .running → st = .waiting ∨ st = .running

def Misplaced (p : ProgramId) (s : Scheduler σ τ) (i : Input) : Prop :=
  ∃ st, stateIn s.programs p = some st ∧
    ((i.cancels p ∧ st.isTerminal) ∨ (i.starts p ∧ st ≠ .waiting ∧ st ≠ .running) ∨
      (i.resumes p ∧ (st = .completed ∨ st = .cancelled)))

variable {B : Backends σ τ} {p : ProgramId} {s : Scheduler σ τ} {st : ProgramState}

theorem stateIn_drainOne_ne {c : SchedulerCommand} {nowMs : UnixMs} (h : c.programId ≠ some p) :
    stateIn (s.drainOne nowMs c).1.programs p = stateIn s.programs p := by
  rw [stateIn, (drainOne_ne h).1, stateIn]

theorem stateIn_drainOne_self {c : SchedulerCommand} {nowMs : UnixMs}
    (h : c.programId = some p) : stateIn (s.drainOne nowMs c).1.programs p =
      (localCommand p nowMs (s.programs.lookup p) c).1.map RunningProgram.state := by
  rw [stateIn, (drainOne_self h).1]

theorem stateIn_tick (t : TickInput) (h : stateIn s.programs p = some st)
    (hterm : st.isTerminal) : stateIn (step B s (.tick t)).1.programs p = some st := by
  obtain ⟨rp, hrp, rfl⟩ := Option.map_eq_some_iff.mp h
  obtain ⟨sur, loser, hlook, _⟩ := tickOnce_project (B := B) (s := s) (p := p) t
  have hw : rp.state ≠ .waiting := fun he => by simp [he, ProgramState.isTerminal] at hterm
  have hr : rp.state ≠ .running := fun he => by simp [he, ProgramState.isTerminal] at hterm
  have hlocal : (localStep B p (some rp) ⟨.tick t, sur, loser⟩).1 = some rp := by
    cases hc : t.capture with
    | none => simp only [localStep, hc]
    | some frame => simp only [localStep, hc, tickProgram_inert B _ p sur loser rp hw hr]
  rw [hrp, hlocal] at hlook
  rw [stateIn, step, hlook, Option.map_some]

theorem stateIn_start {nowMs : UnixMs} (h : stateIn s.programs p = some st) :
    stateIn (s.drainOne nowMs (.start p)).1.programs p = some .running := by
  obtain ⟨rp, hrp, rfl⟩ := Option.map_eq_some_iff.mp h
  rw [stateIn_drainOne_self rfl, hrp]
  rfl

theorem stateIn_resume {nowMs : UnixMs} {fromStep : Nat} {program : Program} {assets : Assets} :
    stateIn (s.drainOne nowMs (.resumeRunning p fromStep program assets)).1.programs p =
      some .running := by
  rw [stateIn_drainOne_self rfl]
  rfl

theorem cancel_announces {reason : String} {nowMs : UnixMs}
    (h : stateIn s.programs p = some st) :
    ¬ NoStateChange p (s.drainOne nowMs (.cancel p reason)).2 := by
  obtain ⟨rp, hrp, rfl⟩ := Option.map_eq_some_iff.mp h
  intro hno
  have htrace : traceOf p (s.drainOne nowMs (.cancel p reason)).2 =
      [⟨nowMs, some (cancelled rp),
        .emitted (.programStateChanged p rp.state .cancelled reason)⟩] := by
    rw [(drainOne_self rfl).2, hrp]
    rfl
  obtain ⟨m, hm, _, hof⟩ := mem_traceOf.mp (htrace ▸ List.mem_singleton_self _)
  have hobs : m.obs = .emitted (.programStateChanged p rp.state .cancelled reason) :=
    congrArg Moment.obs hof
  exact hno m hm _ _ _ hobs

/-- One step keeps the terminal states of a program unless it is a misplaced command. -/
theorem absorbing_iff (i : Input) : Absorbing B p s i ↔ ¬ Misplaced p s i := by
  constructor
  -- each misplaced command moves a terminal program, or announces that it does
  · rintro h ⟨st, hst, ⟨⟨reason, nowMs, rfl⟩, hterm⟩ | ⟨⟨nowMs, rfl⟩, hnw, hnr⟩ |
      ⟨⟨fromStep, program, assets, nowMs, rfl⟩, hdone⟩⟩
    · exact cancel_announces hst (h.cancel st hst hterm ⟨_, _, rfl⟩).2
    · rcases h.start st hst ⟨_, rfl⟩ (stateIn_start hst) with hw | hr
      · exact hnw hw
      · exact hnr hr
    · have hterm : st.isTerminal := by rcases hdone with rfl | rfl <;> rfl
      have hnf : st ≠ .failed := by rcases hdone with rfl | rfl <;> exact ProgramState.noConfusion
      have hns : ¬ Input.submits p (.command (.resumeRunning p fromStep program assets) nowMs) := by
        rintro ⟨_, _, _, heq⟩
        cases heq
      have hstay := h.stays st hst hterm hns fun hf => hnf hf.2
      rw [step, stateIn_resume] at hstay
      rw [← Option.some.inj hstay] at hterm
      exact Bool.false_ne_true hterm
  · intro h
    refine ⟨?_, ?_, ?_⟩
    · intro st hst hterm hns hnr
      cases i with
      -- a tick passes over terminal programs, and a command concerns its own program only
      | tick t => exact stateIn_tick t hst hterm
      | command c nowMs =>
        by_cases hc : c.programId = some p
        · cases c with
          | shutdown => exact hst
          | submitValidated id program assets =>
            obtain rfl : id = p := Option.some.inj hc
            exact absurd ⟨_, _, _, rfl⟩ hns
          | cancel id reason =>
            obtain rfl : id = p := Option.some.inj hc
            exact (h ⟨st, hst, .inl ⟨⟨_, _, rfl⟩, hterm⟩⟩).elim
          | start id =>
            obtain rfl : id = p := Option.some.inj hc
            have hnw : st ≠ .waiting := by rintro rfl; exact Bool.false_ne_true hterm
            have hnr : st ≠ .running := by rintro rfl; exact Bool.false_ne_true hterm
            exact (h ⟨st, hst, .inr (.inl ⟨⟨_, rfl⟩, hnw, hnr⟩)⟩).elim
          | resumeRunning id fromStep program assets =>
            obtain rfl : id = p := Option.some.inj hc
            have hdone : st = .completed ∨ st = .cancelled := by
              cases st with
              | completed => exact .inl rfl
              | cancelled => exact .inr rfl
              | failed => exact absurd ⟨⟨_, _, _, _, rfl⟩, rfl⟩ hnr
              | pending | waiting | running | blocked => exact absurd hterm Bool.false_ne_true
            exact (h ⟨st, hst, .inr (.inr ⟨⟨_, _, _, _, rfl⟩, hdone⟩)⟩).elim
        · exact (stateIn_drainOne_ne hc).trans hst
    · intro st hst hterm hc
      exact absurd ⟨st, hst, .inl ⟨hc, hterm⟩⟩ h
    · intro st hst hs _
      by_contra hne
      rw [not_or] at hne
      exact h ⟨st, hst, .inr (.inl ⟨hs, hne⟩)⟩

/-- Over whole runs: terminal states are absorbing exactly when no command of the run is
misplaced. -/
theorem terminal_absorbing_iff (B : Backends σ τ) (env : Env σ τ) (is : List Input) :
    (∀ x ∈ trail (step B) (new env) is, ∀ p, Absorbing B p x.1 x.2) ↔
      ∀ x ∈ trail (step B) (new env) is, ∀ p, ¬ Misplaced p x.1 x.2 := by
  constructor
  · exact fun h x hx p => (absorbing_iff x.2).mp (h x hx p)
  · exact fun h x hx p => (absorbing_iff x.2).mpr (h x hx p)

/-- A cancelled program is set running by a plain start. -/
theorem cancelled_program_starts_again :
    ¬ ∀ x ∈ trail (step (Backends.constant (.ok ⟨false, none, 0⟩))) (new ⟨(), ()⟩)
        [.command (.submitValidated ⟨1⟩ (.blank "demo") ∅) 0, .command (.cancel ⟨1⟩ "user") 1,
          .command (.start ⟨1⟩) 2],
      ∀ p, Absorbing (Backends.constant (.ok ⟨false, none, 0⟩)) p x.1 x.2 := by
  intro h
  have hstart := (h _ (List.mem_cons_of_mem _ (List.mem_cons_of_mem _ List.mem_cons_self)) ⟨1⟩).start
    .cancelled (by decide) ⟨_, rfl⟩ (by decide)
  rcases hstart with hw | hr
  · exact ProgramState.noConfusion hw
  · exact ProgramState.noConfusion hr

end Scheduler

end Vcli

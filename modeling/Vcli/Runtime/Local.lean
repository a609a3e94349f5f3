import Vcli.Runtime.Projection

/-! The scheduler seen by one program, over whole runs. The program is a machine of its own:
commands for it and captured ticks move it, everything else passes it by. -/

namespace Vcli

open Transducer

structure LocalInput (σ τ : Type) where
  input : Input
  sur : Surroundings σ τ
  loser : Option ProgramId

def stateIn (programs : ProgramMap) (p : ProgramId) : Option ProgramState :=
  (programs.lookup p).map RunningProgram.state

def Input.inserts (p : ProgramId) : Input → Prop
  | .command c _ => c.inserts p
  | .tick _ => False

instance (p : ProgramId) : DecidablePred (Input.inserts p) := fun i => by
  unfold Input.inserts
  cases i <;> infer_instance

section Machine
variable {σ τ : Type} (B : Backends σ τ) (p : ProgramId)

abbrev LocalTrace := List (Moment (Option RunningProgram))

def cancelled (rp : RunningProgram) : RunningProgram := { rp with state := .cancelled }

def started (nowMs : UnixMs) (rp : RunningProgram) : RunningProgram :=
  { rp with state := .running, runningSinceMs := some nowMs }

def localCommand (nowMs : UnixMs) (v : Option RunningProgram) :
    SchedulerCommand → Option RunningProgram × LocalTrace
  | .shutdown => (v, [])
  | .submitValidated _ program assets =>
    (some (Scheduler.submitted program assets),
      [⟨nowMs, v, .emitted (.programSubmitted p program.name)⟩,
       ⟨nowMs, v, .emitted (.programStateChanged p .pending .waiting "submitted")⟩])
  | .cancel _ reason =>
    (v.map cancelled, (v.map fun rp => ⟨nowMs, some (cancelled rp),
      .emitted (.programStateChanged p rp.state .cancelled reason)⟩).toList)
  | .start _ =>
    (v.map (started nowMs), (v.map fun rp => ⟨nowMs, some (started nowMs rp),
      .emitted (.programStateChanged p rp.state .running "start")⟩).toList)
  | .resumeRunning _ fromStep program assets =>
    (some (Scheduler.resumed nowMs fromStep program assets),
      [⟨nowMs, v, .emitted (.programStateChanged p .failed .running "resume")⟩,
       ⟨nowMs, v, .emitted (.programResumed p fromStep)⟩])

def localStep (v : Option RunningProgram) (a : LocalInput σ τ) :
    Option RunningProgram × LocalTrace :=
  match a.input with
  | .command c nowMs => if c.programId = some p then localCommand p nowMs v c else (v, [])
  | .tick t =>
    match t.capture, v with
    | some frame, some rp =>
      let r := tickProgram B ⟨frame, t.nowMs⟩ p a.sur a.loser rp
      (some r.1, moments t.nowMs r.2)
    | _, v => (v, [])

/-- What can happen to a program at a step: nothing; its insertion by a submission or a
resumption; if it is there, a cancellation, a start or a captured tick. -/
inductive LocalMove (v : Option RunningProgram) (a : LocalInput σ τ) :
    Option RunningProgram × LocalTrace → Prop
  | idle (hi : ¬ a.input.inserts p) : LocalMove v a (v, [])
  | submitted (program : Program) (assets : Assets) (nowMs : UnixMs)
      (ha : a.input = .command (.submitValidated p program assets) nowMs) :
    LocalMove v a (some (Scheduler.submitted program assets),
      [⟨nowMs, v, .emitted (.programSubmitted p program.name)⟩,
       ⟨nowMs, v, .emitted (.programStateChanged p .pending .waiting "submitted")⟩])
  | resumed (fromStep : Nat) (program : Program) (assets : Assets) (nowMs : UnixMs)
      (ha : a.input = .command (.resumeRunning p fromStep program assets) nowMs) :
    LocalMove v a (some (Scheduler.resumed nowMs fromStep program assets),
      [⟨nowMs, v, .emitted (.programStateChanged p .failed .running "resume")⟩,
       ⟨nowMs, v, .emitted (.programResumed p fromStep)⟩])
  | cancelled (rp : RunningProgram) (reason : String) (nowMs : UnixMs) (hv : v = some rp)
      (ha : a.input = .command (.cancel p reason) nowMs) :
    LocalMove v a (some (cancelled rp), [⟨nowMs, some (cancelled rp),
      .emitted (.programStateChanged p rp.state .cancelled reason)⟩])
  | started (rp : RunningProgram) (nowMs : UnixMs) (hv : v = some rp)
      (ha : a.input = .command (.start p) nowMs) :
    LocalMove v a (some (started nowMs rp), [⟨nowMs, some (started nowMs rp),
      .emitted (.programStateChanged p rp.state .running "start")⟩])
  | ticked (rp : RunningProgram) (t : TickInput) (frame : Frame) (hv : v = some rp)
      (ha : a.input = .tick t) (hcapture : t.capture = some frame) :
    LocalMove v a (some (tickProgram B ⟨frame, t.nowMs⟩ p a.sur a.loser rp).1,
      moments t.nowMs (tickProgram B ⟨frame, t.nowMs⟩ p a.sur a.loser rp).2)

variable {B p}

theorem localStep_move (v : Option RunningProgram) (a : LocalInput σ τ) :
    LocalMove B p v a (localStep B p v a) := by
  obtain ⟨input, sur, loser⟩ := a
  cases input with
  | command c nowMs =>
    by_cases hc : c.programId = some p
    · simp only [localStep, hc, if_true]
      cases c with
      | shutdown => exact .idle id
      | submitValidated q program assets =>
        obtain rfl : q = p := Option.some.inj hc
        exact .submitted program assets nowMs rfl
      | resumeRunning q fromStep program assets =>
        obtain rfl : q = p := Option.some.inj hc
        exact .resumed fromStep program assets nowMs rfl
      | cancel q reason =>
        obtain rfl : q = p := Option.some.inj hc
        cases v with
        | none => exact .idle id
        | some rp => exact .cancelled rp reason nowMs rfl rfl
      | start q =>
        obtain rfl : q = p := Option.some.inj hc
        cases v with
        | none => exact .idle id
        | some rp => exact .started rp nowMs rfl rfl
    · simp only [localStep, hc, if_false]
      refine .idle fun hi => hc ?_
      cases c with
      | shutdown | cancel | start => exact hi.elim
      | submitValidated | resumeRunning => exact congrArg some hi
  | tick t =>
    cases hcapture : t.capture with
    | none =>
      simp only [localStep, hcapture]
      exact .idle id
    | some frame =>
      cases v with
      | none =>
        simp only [localStep, hcapture]
        exact .idle id
      | some rp =>
        simp only [localStep, hcapture]
        exact .ticked rp t frame rfl rfl hcapture

theorem localStep_absent {a : LocalInput σ τ} (hi : ¬ a.input.inserts p) :
    localStep B p none a = (none, []) := by
  have h := localStep_move (B := B) (p := p) none a
  generalize localStep B p none a = r at h ⊢
  cases h with
  | idle => rfl
  | submitted _ _ _ ha | resumed _ _ _ _ ha => exact absurd (ha ▸ rfl) hi
  | cancelled _ _ _ hv | started _ _ hv | ticked _ _ _ hv => exact nomatch hv

end Machine

namespace Scheduler

variable {σ τ : Type} {B : Backends σ τ} {s : Scheduler σ τ} {p : ProgramId}

theorem drainOne_ne {c : SchedulerCommand} {nowMs : UnixMs} (h : c.programId ≠ some p) :
    (s.drainOne nowMs c).1.programs.lookup p = s.programs.lookup p ∧
      traceOf p (s.drainOne nowMs c).2 = [] := by
  have hne : ∀ {q : ProgramId}, some q ≠ some p → p ≠ q := fun h e => h (congrArg some e.symm)
  cases c with
  | shutdown => exact ⟨rfl, rfl⟩
  | submitValidated q program assets | resumeRunning q fromStep program assets =>
    refine ⟨AList.lookup_insert_ne (hne h), ?_⟩
    simp [drainOne, traceOf, Moment.mine, Obs.subject, EventData.programIdOf, (hne h).symm]
  | cancel q reason | start q =>
    refine ⟨lift_lookup_ne (hne h).symm, traceOf_eq_nil (lift_filter_ne ?_ (hne h).symm)⟩
    exact fun _ _ _ => owned_singleton rfl

theorem drainOne_self {c : SchedulerCommand} {nowMs : UnixMs} (h : c.programId = some p) :
    (s.drainOne nowMs c).1.programs.lookup p =
        (localCommand p nowMs (s.programs.lookup p) c).1 ∧
      traceOf p (s.drainOne nowMs c).2 = (localCommand p nowMs (s.programs.lookup p) c).2 := by
  cases c with
  | shutdown => simp [SchedulerCommand.programId] at h
  | submitValidated q program assets | resumeRunning q fromStep program assets =>
    obtain rfl : q = p := Option.some.inj h
    refine ⟨AList.lookup_insert _, ?_⟩
    simp [drainOne, traceOf, Moment.mine, Obs.subject, EventData.programIdOf, Moment.of,
      localCommand]
  | cancel q reason | start q =>
    obtain rfl : q = p := Option.some.inj h
    cases hl : s.programs.lookup q with
    | none =>
      rw [drainOne, lift_none hl]
      exact ⟨hl, rfl⟩
    | some rp =>
      refine ⟨lift_lookup_self _ hl, lift_traceOf_self _ ?_ hl⟩
      exact fun _ _ _ => owned_singleton rfl

theorem tickOnce_project (t : TickInput) :
    ∃ sur loser,
      (tickOnce B t s).1.programs.lookup p =
        (localStep B p (s.programs.lookup p) ⟨.tick t, sur, loser⟩).1 ∧
      traceOf p (tickOnce B t s).2 =
        (localStep B p (s.programs.lookup p) ⟨.tick t, sur, loser⟩).2 := by
  cases hc : t.capture with
  | none =>
    refine ⟨⟨s.env, s.env, s.env, s.env⟩, none, ?_⟩
    simp only [tickOnce, hc, localStep]
    exact ⟨trivial, rfl⟩
  | some frame =>
    cases hl : s.programs.lookup p with
    | none =>
      obtain ⟨hv, ht⟩ := capturedTick_none B ⟨frame, t.nowMs⟩
        (t.arrange s.programs.keys).1 hl
      refine ⟨⟨s.env, s.env, s.env, s.env⟩, none, ?_⟩
      simp only [tickOnce, hc, localStep]
      exact ⟨hv, ht⟩
    | some rp =>
      have hperm := (t.arrange s.programs.keys).2
      have hmem : p ∈ (t.arrange s.programs.keys).1 :=
        hperm.mem_iff.mpr (AList.mem_keys.mpr (AList.lookup_isSome.mp (by rw [hl]; rfl)))
      obtain ⟨sur, hv, ht, -⟩ := capturedTick_project B ⟨frame, t.nowMs⟩
        (hperm.nodup_iff.mpr s.programs.keys_nodup) hmem hl
      refine ⟨sur, verdict B ⟨frame, t.nowMs⟩ (t.arrange s.programs.keys).1 s p, ?_⟩
      simp only [tickOnce, hc, localStep]
      exact ⟨hv, ht⟩

/-- A step of the scheduler is a step of each program's own machine. -/
theorem step_project (i : Input) :
    ∃ a : LocalInput σ τ, a.input = i ∧
      (step B s i).1.programs.lookup p = (localStep B p (s.programs.lookup p) a).1 ∧
      traceOf p (step B s i).2 = (localStep B p (s.programs.lookup p) a).2 := by
  cases i with
  | command c nowMs =>
    refine ⟨⟨.command c nowMs, ⟨s.env, s.env, s.env, s.env⟩, none⟩, rfl, ?_⟩
    by_cases h : c.programId = some p
    · simp only [localStep, h, if_true]
      exact drainOne_self h
    · simp only [localStep, h, if_false]
      exact drainOne_ne h
  | tick t =>
    obtain ⟨sur, loser, h⟩ := tickOnce_project (B := B) (s := s) (p := p) t
    exact ⟨⟨.tick t, sur, loser⟩, rfl, h⟩

theorem step_absent {i : Input} (h : s.programs.lookup p = none) (hi : ¬ i.inserts p) :
    (step B s i).1.programs.lookup p = none ∧ traceOf p (step B s i).2 = [] := by
  obtain ⟨a, rfl, hlook, htrace⟩ := step_project (B := B) (s := s) (p := p) i
  rw [hlook, htrace, h, localStep_absent hi]
  exact ⟨rfl, rfl⟩

/-- A run of the scheduler is a run of each program's own machine over the same inputs. -/
theorem run_project (s : Scheduler σ τ) (is : List Input) :
    ∃ as : List (LocalInput σ τ), as.map LocalInput.input = is ∧
      (run (step B) s is).1.programs.lookup p =
        (run (localStep B p) (s.programs.lookup p) as).1 ∧
      traceOf p (run (step B) s is).2 = (run (localStep B p) (s.programs.lookup p) as).2 := by
  induction is generalizing s with
  | nil => exact ⟨[], rfl, rfl, rfl⟩
  | cons i is ih =>
    obtain ⟨a, ha, hlook, htrace⟩ := step_project (B := B) (s := s) (p := p) i
    obtain ⟨as, has, hlooks, htraces⟩ := ih (step B s i).1
    rw [hlook] at hlooks htraces
    refine ⟨a :: as, by rw [List.map_cons, ha, has], hlooks, ?_⟩
    rw [run_cons, run_cons, traceOf_append, htrace, htraces]

end Scheduler

end Vcli

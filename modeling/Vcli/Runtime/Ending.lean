import Vcli.Runtime.Acting
import Vcli.Runtime.WatchTick

/-! The events that end a program. Each change into a terminal state has one of its own, with the
custom event the program declares for it, but for the trigger, whose failure forgets it. -/

namespace Vcli

open Transducer

def EventData.ending (p : ProgramId) : EventData → Option (ProgramState × Option String)
  | programCompleted id emit => if id = p then some (.completed, emit) else none
  | programFailed id _ _ emit => if id = p then some (.failed, emit) else none
  | _ => none

def Obs.ending (p : ProgramId) : Obs → Option (ProgramState × Option String)
  | emitted data => data.ending p
  | _ => none

def endings {L : Type} (p : ProgramId) (ms : List (Moment L)) :
    List (ProgramState × Option String) :=
  ms.filterMap fun m => m.obs.ending p

def endingsIn (p : ProgramId) (os : List (RunningProgram × Obs)) :
    List (ProgramState × Option String) :=
  os.filterMap fun o => o.2.ending p

def Program.closing (program : Program) : ProgramState → List (ProgramState × Option String)
  | .completed => [(.completed, program.onComplete)]
  | .failed => [(.failed, program.onFail)]
  | _ => []

def endingsDue (st : Option ProgramState) :
    Option RunningProgram → List (ProgramState × Option String)
  | none => []
  | some rp => if st = some rp.state then [] else rp.program.closing rp.state

def Obs.TriggerErr (p : ProgramId) (o : Obs) : Prop :=
  ∃ e, o = perceived p .trigger (.error e)

section Traces
variable {p : ProgramId}

theorem endingsIn_append (l r : List (RunningProgram × Obs)) :
    endingsIn p (l ++ r) = endingsIn p l ++ endingsIn p r := List.filterMap_append

theorem Obs.ending_subject {o : Obs} {c : ProgramState × Option String}
    (h : o.ending p = some c) : o.subject = some p := by
  cases o with
  | emitted data =>
    cases data with
    | programCompleted | programFailed =>
      simp only [Obs.ending, EventData.ending, Option.ite_none_right_eq_some] at h
      exact congrArg some h.1
    | _ => exact nomatch h
  | _ => exact nomatch h

theorem endings_traceOf (ms : List (Moment ProgramMap)) :
    endings p ms = endings p (traceOf p ms) :=
  filterMap_traceOf (fun _ _ h => Obs.ending_subject h) ms

theorem endings_moments (nowMs : UnixMs) (os : List (RunningProgram × Obs)) :
    endings p (moments nowMs os) = endingsIn p os := by
  rw [endings, moments, List.filterMap_map]
  rfl

theorem Obs.In.ending {part : Part} {o : Obs} (h : o.In part p) : o.ending p = none := by
  match o, h with
  | perceived .., _ | decided .., _ | called .., _ | emitted (.actionDispatched ..), _ => rfl

theorem Obs.In.not_triggerErr {part : Part} {o : Obs} (h : o.In part p) (hp : part ≠ .trigger) :
    ¬ o.TriggerErr p := by
  rintro ⟨e, rfl⟩
  exact hp h.2.symm

end Traces

structure Closes (p : ProgramId) (os : List (RunningProgram × Obs)) (rp : RunningProgram) :
    Prop where
  endings : endingsIn p os = rp.program.closing rp.state
  heard : ∀ o ∈ os, ¬ o.2.TriggerErr p

structure Drops (p : ProgramId) (rp : RunningProgram) (os : List (RunningProgram × Obs))
    (rp' : RunningProgram) : Prop where
  program : rp'.program = rp.program
  waiting : rp.state = .waiting
  failed : rp'.state = .failed
  endings : endingsIn p os = [(.failed, none)]
  heard : ∃ o ∈ os, o.2.TriggerErr p

section Stages
variable {σ τ : Type} (B : Backends σ τ) (tk : Tick) (p : ProgramId) (rp : RunningProgram)

theorem endingsIn_map {part : Part} {os : List Obs} (h : ∀ o ∈ os, o.In part p) :
    endingsIn p (os.map fun o => (rp, o)) = [] := by
  rw [endingsIn, List.filterMap_map]
  exact List.filterMap_eq_nil_iff.mpr fun o ho => (h o ho).ending

variable {p rp}

theorem closing_live {program : Program} {st : ProgramState} (h : st.isTerminal = false) :
    program.closing st = [] := by
  cases st <;> first | rfl | exact nomatch h

theorem endingsDue_live {st : ProgramState} (h : st.isTerminal = false) :
    endingsDue (some st) (some rp) = rp.program.closing rp.state := by
  by_cases hst : st = rp.state
  · rw [endingsDue, if_pos (congrArg some hst), closing_live (hst ▸ h)]
  · rw [endingsDue, if_neg fun h => hst (Option.some.inj h)]

theorem closes_live {os : List (RunningProgram × Obs)} (hst : rp.state.isTerminal = false)
    (h : endingsIn p os = []) (heard : ∀ o ∈ os, ¬ o.2.TriggerErr p) : Closes p os rp := by
  refine ⟨?_, heard⟩
  rw [h, closing_live hst]

theorem not_triggerErr_nil : ∀ o ∈ ([] : List (RunningProgram × Obs)), ¬ o.2.TriggerErr p :=
  fun _ ho => absurd ho List.not_mem_nil

theorem not_triggerErr_append {l r : List (RunningProgram × Obs)}
    (hl : ∀ o ∈ l, ¬ o.2.TriggerErr p) (hr : ∀ o ∈ r, ¬ o.2.TriggerErr p) :
    ∀ o ∈ l ++ r, ¬ o.2.TriggerErr p := fun o ho => (List.mem_append.mp ho).elim (hl o) (hr o)

theorem not_triggerErr_emitted {data : EventData} :
    ∀ o ∈ [(rp, Obs.emitted data)], ¬ o.2.TriggerErr p := by
  intro o ho
  rw [List.mem_singleton.mp ho]
  exact fun ⟨_, h⟩ => nomatch h

variable (p rp)

theorem evaluateNamed_seen (c : Caller) (site : Site) (name : String) (env : Env σ τ) :
    (evaluateNamed B tk c site name env).2.2 =
      [.perceived c.id site (evaluateNamed B tk c site name env).1] := rfl

theorem triggerFires_error {env : Env σ τ} {e : RuntimeError}
    (h : (triggerFires B tk p rp env).1 = .error e) :
    ∃ o ∈ (triggerFires B tk p rp env).2.2, o.TriggerErr p := by
  unfold triggerFires at h ⊢
  cases ht : rp.program.trigger with
  | onSubmit | manual =>
    rw [ht] at h
    exact nomatch h
  | onPredicate name =>
    rw [ht] at h
    have hseen := evaluateNamed_seen B tk (rp.caller p) .trigger name env
    cases hr : (evaluateNamed B tk (rp.caller p) .trigger name env).1 with
    | error err =>
      rw [hr] at hseen
      refine ⟨_, List.mem_append_left _ ?_, err, rfl⟩
      rw [hseen]
      exact List.mem_singleton.mpr rfl
    | ok r =>
      simp only [Interaction.bind_apply, hr, Interaction.pure_apply] at h
      exact nomatch h

theorem triggerFires_ok {env : Env σ τ} {b : Bool}
    (h : (triggerFires B tk p rp env).1 = .ok b) :
    ∀ o ∈ (triggerFires B tk p rp env).2.2, ¬ o.TriggerErr p := by
  unfold triggerFires at h ⊢
  cases ht : rp.program.trigger with
  | onSubmit | manual => exact fun o ho => absurd ho List.not_mem_nil
  | onPredicate name =>
    rw [ht] at h
    intro o ho
    have hseen := evaluateNamed_seen B tk (rp.caller p) .trigger name env
    cases hr : (evaluateNamed B tk (rp.caller p) .trigger name env).1 with
    | error err =>
      simp only [Interaction.bind_apply, hr, Interaction.pure_apply] at h
      exact nomatch h
    | ok r =>
      simp only [Interaction.bind_apply, hr, Interaction.pure_apply, List.append_nil] at ho
      rw [hseen, hr] at ho
      rintro ⟨e, rfl⟩
      have hsame := List.mem_singleton.mp ho
      simp only [Obs.perceived.injEq] at hsame
      exact nomatch hsame.2.2

theorem triggerPart_closes (h : rp.state.isTerminal = false) (env : Env σ τ) :
    Closes p (triggerPart B tk p env rp).2 (triggerPart B tk p env rp).1 ∨
      Drops p rp (triggerPart B tk p env rp).2 (triggerPart B tk p env rp).1 := by
  have hseen : endingsIn p ((triggerFires B tk p rp env).2.2.map fun o => (rp, o)) = [] :=
    endingsIn_map p rp (emits_triggerFires B tk p rp env)
  unfold triggerPart
  split_ifs with hw
  · dsimp only [triggerProgram]
    have hheard : ∀ b, (triggerFires B tk p rp env).1 = .ok b →
        ∀ o ∈ (triggerFires B tk p rp env).2.2.map fun o => (rp, o), ¬ o.2.TriggerErr p := by
      intro b hr o ho
      obtain ⟨x, hx, rfl⟩ := List.mem_map.mp ho
      exact triggerFires_ok B tk p rp hr x hx
    split
    · rename_i hr
      left
      apply closes_live rfl
      · rw [endingsIn_append, hseen]
        rfl
      · exact not_triggerErr_append (hheard true hr) not_triggerErr_emitted
    · rename_i hr
      exact .inl (closes_live h hseen (hheard false hr))
    · rename_i e hr
      right
      refine ⟨rfl, hw, rfl, ?_, ?_⟩
      · rw [endingsIn_append, hseen]
        simp [endingsIn, Obs.ending, EventData.ending]
      · obtain ⟨x, hx, herr⟩ := triggerFires_error B tk p rp hr
        exact ⟨(rp, x), List.mem_append_left _ (List.mem_map_of_mem hx), herr⟩
  · exact .inl (closes_live h rfl not_triggerErr_nil)

theorem not_triggerErr_map {part : Part} (hp : part ≠ .trigger) {os : List Obs}
    (h : ∀ o ∈ os, o.In part p) : ∀ o ∈ os.map fun o => (rp, o), ¬ o.2.TriggerErr p := by
  intro o ho
  obtain ⟨x, hx, rfl⟩ := List.mem_map.mp ho
  exact (h x hx).not_triggerErr hp

theorem firePart_closes (env : Env σ τ) (h : rp.state = .running) (loser : Option ProgramId)
    (e : ProgEval) :
    Closes p (firePart B tk p env loser e rp).2.1 (firePart B tk p env loser e rp).1 := by
  have hlive : rp.state.isTerminal = false := by rw [h]; rfl
  have hdone := fun f : WatchFire => emits_dispatchSteps B tk (rp.caller p) f.steps env
  have hseen := fun f => endingsIn_map p rp (hdone f)
  have hheard := fun f => not_triggerErr_map p rp Part.noConfusion (hdone f)
  have hfired := firePart_dispatched B tk p env rp loser e
  generalize firePart B tk p env loser e rp = r at hfired ⊢
  cases hfired with
  | idle => exact closes_live hlive rfl not_triggerErr_nil
  | direct | deferred => exact closes_live hlive rfl not_triggerErr_emitted
  | failed f =>
    refine ⟨?_, not_triggerErr_append (hheard f) not_triggerErr_emitted⟩
    rw [endingsIn_append, hseen f]
    simp [endingsIn, Obs.ending, EventData.ending, Program.closing]
  | done f =>
    refine closes_live hlive ?_ (not_triggerErr_append (hheard f) not_triggerErr_emitted)
    rw [endingsIn_append, hseen f]
    rfl

variable {p} in
theorem closes_complete {os : List (RunningProgram × Obs)} (hos : endingsIn p os = [])
    (hheard : ∀ o ∈ os, ¬ o.2.TriggerErr p) :
    Closes p (os ++ (completeProgram p rp).2) (completeProgram p rp).1 := by
  constructor
  · rw [endingsIn_append, hos]
    simp [completeProgram, endingsIn, Obs.ending, EventData.ending, Program.closing]
  · apply not_triggerErr_append hheard
    intro o ho
    rcases List.mem_cons.mp ho with rfl | ho
    · exact fun ⟨_, h⟩ => nomatch h
    · exact not_triggerErr_emitted o ho

theorem bodyProgram_closes (h : rp.state = .running) (env : Env σ τ) :
    Closes p (bodyProgram B tk p rp env).2.2 (bodyProgram B tk p rp env).1 := by
  have hlive : rp.state.isTerminal = false := by rw [h]; rfl
  have hdone := emits_stepOnce B tk (rp.caller p) rp.program.body rp.cursor rp.bodyState env
  have hseen : endingsIn p (((stepOnce B tk (rp.caller p) rp.program.body rp.cursor
      rp.bodyState env).2.2 ++ [Obs.stepped p rp.cursor (stepOnce B tk (rp.caller p)
      rp.program.body rp.cursor rp.bodyState env).1.1]).map fun o => (rp, o)) = [] := by
    rw [List.map_append, endingsIn_append, endingsIn_map p rp hdone]
    rfl
  have hheard : ∀ o ∈ ((stepOnce B tk (rp.caller p) rp.program.body rp.cursor
      rp.bodyState env).2.2 ++ [Obs.stepped p rp.cursor (stepOnce B tk (rp.caller p)
      rp.program.body rp.cursor rp.bodyState env).1.1]).map fun o => (rp, o),
      ¬ o.2.TriggerErr p := by
    rw [List.map_append]
    apply not_triggerErr_append (not_triggerErr_map p rp Part.noConfusion hdone)
    intro o ho
    rw [List.mem_singleton.mp ho]
    exact fun ⟨_, h⟩ => nomatch h
  have hbody := bodyProgram_run B tk p rp env
  generalize bodyProgram B tk p rp env = x at hbody ⊢
  cases hbody with
  | inert hinert => exact absurd h hinert
  | kept => exact closes_live hlive hseen hheard
  | completed => exact closes_complete _ hseen hheard
  | failed =>
    refine ⟨?_, not_triggerErr_append hheard not_triggerErr_emitted⟩
    rw [endingsIn_append, hseen]
    simp [endingsIn, Obs.ending, EventData.ending, Program.closing, RunningProgram.stepTaken]

theorem runPart_closes (h : rp.state = .running) (sur : Surroundings σ τ)
    (loser : Option ProgramId) :
    Closes p (runPart B tk p sur loser rp).2 (runPart B tk p sur loser rp).1 := by
  have heval := emits_evalWatches B tk p rp rp.program.watches.zipIdx sur.eval
  have hseen : endingsIn p (evalProgram B tk p rp sur.eval).1.seen = [] := endingsIn_map p rp heval
  have hheard : ∀ o ∈ (evalProgram B tk p rp sur.eval).1.seen, ¬ o.2.TriggerErr p :=
    not_triggerErr_map p rp Part.noConfusion heval
  have hfire := firePart_closes B tk p rp sur.fire h loser (evalProgram B tk p rp sur.eval).1
  have hsettled : (settlePart tk (evalProgram B tk p rp sur.eval).1
      (firePart B tk p sur.fire loser (evalProgram B tk p rp sur.eval).1 rp).2.2
      (firePart B tk p sur.fire loser (evalProgram B tk p rp sur.eval).1 rp).1).state =
        (firePart B tk p sur.fire loser (evalProgram B tk p rp sur.eval).1 rp).1.state :=
    Scheduler.settlePart_state _ _
  have hprogram := (settlePart_same tk
    (firePart B tk p sur.fire loser (evalProgram B tk p rp sur.eval).1 rp).1
    (evalProgram B tk p rp sur.eval).1
    (firePart B tk p sur.fire loser (evalProgram B tk p rp sur.eval).1 rp).2.2).program
  unfold runPart
  dsimp only
  rcases firePart_same_or_failed B tk p h sur.fire loser (evalProgram B tk p rp sur.eval).1
    with ⟨hsame, -⟩ | ⟨hfailed, -⟩
  · have hrunning : rp.state = .running := h
    rw [← hsame, ← hsettled] at hrunning
    have hbody := bodyProgram_closes B tk p _ hrunning sur.body
    refine ⟨?_, not_triggerErr_append hheard (not_triggerErr_append hfire.heard hbody.heard)⟩
    rw [endingsIn_append, endingsIn_append, hseen, hfire.endings, hbody.endings, hsame, h]
    rfl
  · -- after a failed dispatch there is no body stage
    have hstate := congrArg RunningProgram.state hfailed
    have hinert := bodyProgram_inert B tk p (by rw [hsettled, hstate]; exact ProgramState.noConfusion)
      sur.body
    rw [hinert]
    refine ⟨?_, not_triggerErr_append hheard (not_triggerErr_append hfire.heard not_triggerErr_nil)⟩
    rw [endingsIn_append, endingsIn_append, hseen, hfire.endings, hsettled, hprogram]
    exact List.append_nil _

/-- A tick reports what is due, unless the trigger could not be evaluated. -/
theorem tickProgram_closes (h : rp.state.isTerminal = false) (sur : Surroundings σ τ)
    (loser : Option ProgramId) :
    Closes p (tickProgram B tk p sur loser rp).2 (tickProgram B tk p sur loser rp).1 ∨
      Drops p rp (tickProgram B tk p sur loser rp).2 (tickProgram B tk p sur loser rp).1 := by
  unfold tickProgram
  dsimp only
  rcases triggerPart_closes B tk p rp h sur.trigger with htrigger | htrigger
  · left
    split_ifs with hrun
    · have hrest := runPart_closes B tk p _ hrun sur loser
      refine ⟨?_, not_triggerErr_append htrigger.heard hrest.heard⟩
      rw [endingsIn_append, htrigger.endings, hrest.endings, hrun]
      rfl
    · exact htrigger
  · right
    rw [if_neg (by rw [htrigger.failed]; exact ProgramState.noConfusion)]
    exact htrigger

end Stages

def Reported (p : ProgramId) (rp : RunningProgram) (os : List (RunningProgram × Obs))
    (rp' : RunningProgram) : Prop :=
  endingsIn p os = endingsDue (some rp.state) (some rp') ↔
    ((∃ o ∈ os, o.2.TriggerErr p) → rp.program.onFail = none)

section Local
variable {σ τ : Type} {B : Backends σ τ} {p : ProgramId} {rp : RunningProgram}

theorem Closes.reported {os : List (RunningProgram × Obs)} {rp' : RunningProgram}
    (hlive : rp.state.isTerminal = false) (h : Closes p os rp') : Reported p rp os rp' := by
  rw [Reported, endingsDue_live hlive]
  refine iff_of_true h.endings ?_
  rintro ⟨o, ho, herr⟩
  exact absurd herr (h.heard o ho)

theorem Drops.reported {os : List (RunningProgram × Obs)} {rp' : RunningProgram}
    (h : Drops p rp os rp') : Reported p rp os rp' := by
  rw [Reported, endingsDue_live (by rw [h.waiting]; rfl), h.endings, h.failed, h.program]
  have hnone : [(ProgramState.failed, (none : Option String))] = rp.program.closing .failed ↔
      rp.program.onFail = none := by
    simp [Program.closing, eq_comm]
  rw [hnone]
  exact ⟨fun hforgot _ => hforgot, fun hforgot => hforgot h.heard⟩

theorem reported_nothing : Reported p rp [] rp := by
  refine iff_of_true ?_ ?_
  · rw [endingsDue, if_pos rfl]
    rfl
  · rintro ⟨o, ho, -⟩
    exact absurd ho List.not_mem_nil

theorem reported_tick (tk : Tick) (sur : Surroundings σ τ) (loser : Option ProgramId) :
    Reported p rp (tickProgram B tk p sur loser rp).2 (tickProgram B tk p sur loser rp).1 := by
  by_cases hlive : rp.state.isTerminal = false
  · rcases tickProgram_closes B tk p rp hlive sur loser with h | h
    · exact h.reported hlive
    · exact h.reported
  · have hw : rp.state ≠ .waiting := fun h => hlive (by rw [h]; rfl)
    have hr : rp.state ≠ .running := fun h => hlive (by rw [h]; rfl)
    rw [tickProgram_inert B tk p sur loser rp hw hr]
    exact reported_nothing

theorem endingsDue_nil {st : Option ProgramState} (h : rp.program.closing rp.state = []) :
    endingsDue st (some rp) = [] := by
  rw [endingsDue, h, ite_self]

theorem localStep_reported (v : Option RunningProgram) (a : LocalInput σ τ) :
    endings p (localStep B p v a).2 =
        endingsDue (v.map RunningProgram.state) (localStep B p v a).1 ↔
      ∀ rp, v = some rp → (∃ m ∈ (localStep B p v a).2, m.obs.TriggerErr p) →
        rp.program.onFail = none := by
  have hidle : endings p ([] : LocalTrace) = endingsDue (v.map RunningProgram.state) v ↔
      ∀ rp, v = some rp → (∃ m ∈ ([] : LocalTrace), m.obs.TriggerErr p) →
        rp.program.onFail = none := by
    refine iff_of_true ?_ fun rp _ ⟨m, hm, _⟩ => absurd hm List.not_mem_nil
    cases v with
    | none => rfl
    | some rp => exact (if_pos rfl).symm
  have hmove := localStep_move (B := B) (p := p) v a
  generalize localStep B p v a = r at hmove ⊢
  cases hmove with
  | idle => exact hidle
  | submitted | resumed =>
    refine iff_of_true (endingsDue_nil rfl).symm ?_
    -- neither the insertion nor the change of state is the error of a trigger
    rintro rp - ⟨m, hm, e, herr⟩
    rcases List.mem_cons.mp hm with rfl | hm
    · exact nomatch herr
    · rw [List.mem_singleton.mp hm] at herr
      exact nomatch herr
  | cancelled | started =>
    refine iff_of_true (endingsDue_nil rfl).symm ?_
    rintro rp - ⟨m, hm, e, herr⟩
    rw [List.mem_singleton.mp hm] at herr
    exact nomatch herr
  | ticked rp t frame hv =>
    have htick : Reported p rp (tickProgram B ⟨frame, t.nowMs⟩ p a.sur a.loser rp).2
        (tickProgram B ⟨frame, t.nowMs⟩ p a.sur a.loser rp).1 := reported_tick _ a.sur a.loser
    have hheard : (∃ m ∈ moments t.nowMs (tickProgram B ⟨frame, t.nowMs⟩ p a.sur a.loser rp).2,
        m.obs.TriggerErr p) ↔
        ∃ o ∈ (tickProgram B ⟨frame, t.nowMs⟩ p a.sur a.loser rp).2, o.2.TriggerErr p := by
      constructor
      · rintro ⟨m, hm, herr⟩
        obtain ⟨o, ho, rfl⟩ := List.mem_map.mp hm
        exact ⟨o, ho, herr⟩
      · rintro ⟨o, ho, herr⟩
        exact ⟨_, List.mem_map_of_mem ho, herr⟩
    rw [endings_moments, hheard, hv]
    constructor
    · intro h q hq
      obtain rfl := Option.some.inj hq
      exact htick.mp h
    · exact fun h => htick.mpr (h rp rfl)

end Local

namespace Scheduler

variable {σ τ : Type} {B : Backends σ τ} {s : Scheduler σ τ} {p : ProgramId}

/-- The ends of `p` that a step reports are those due for what it makes of `p`. -/
def EndsReported (B : Backends σ τ) (p : ProgramId) (s : Scheduler σ τ) (i : Input) : Prop :=
  endings p (step B s i).2 =
    endingsDue (stateIn s.programs p) ((step B s i).1.programs.lookup p)

instance (B : Backends σ τ) (p : ProgramId) (s : Scheduler σ τ) (i : Input) :
    Decidable (EndsReported B p s i) := by
  unfold EndsReported
  infer_instance

def TriggerFails (B : Backends σ τ) (p : ProgramId) (s : Scheduler σ τ) (i : Input) : Prop :=
  ∃ m ∈ (step B s i).2, m.obs.TriggerErr p

theorem endsReported_iff (i : Input) : EndsReported B p s i ↔
    ∀ rp, s.programs.lookup p = some rp → TriggerFails B p s i → rp.program.onFail = none := by
  obtain ⟨a, rfl, hlook, htrace⟩ := step_project (B := B) (s := s) (p := p) i
  have hheard : TriggerFails B p s a.input ↔
      ∃ m ∈ (localStep B p (s.programs.lookup p) a).2, m.obs.TriggerErr p := by
    rw [← htrace]
    constructor
    · rintro ⟨m, hm, e, herr⟩
      have hmine : m.obs.subject = some p := by rw [herr]; rfl
      exact ⟨m.of p, mem_traceOf.mpr ⟨m, hm, hmine, rfl⟩, e, herr⟩
    · rintro ⟨x, hx, herr⟩
      obtain ⟨m, hm, -, rfl⟩ := mem_traceOf.mp hx
      exact ⟨m, hm, herr⟩
  rw [EndsReported, endings_traceOf, htrace, hlook, hheard]
  exact localStep_reported _ a

/-- In every run, each change of `p` into a terminal state is reported once, with the custom
event declared for it, if and only if no failing trigger meets a program with an event for its
failure. -/
theorem terminal_events_complete_iff (B : Backends σ τ) (env : Env σ τ) (p : ProgramId)
    (is : List Input) :
    (∀ done i, done ++ [i] <+: is → EndsReported B p (run (step B) (new env) done).1 i) ↔
      ∀ done i rp, done ++ [i] <+: is →
        (run (step B) (new env) done).1.programs.lookup p = some rp →
        TriggerFails B p (run (step B) (new env) done).1 i → rp.program.onFail = none := by
  constructor
  · intro h done i rp hi
    exact (endsReported_iff i).mp (h done i hi) rp
  · intro h done i hi
    exact (endsReported_iff i).mpr fun rp => h done i rp hi

def failingAloud : Program :=
  { Program.blank "demo" with
    trigger := .onPredicate "x"
    predicates := (∅ : Predicates).insert "x" (.colorAt ⟨5, 5⟩ ⟨0, 0, 0⟩ 0)
    onFail := some "demo.failed" }

/-- The report of its failure has no custom event. -/
theorem trigger_failure_drops_event :
    ¬ ∀ done i, done ++ [i] <+:
        [Input.command (.submitValidated ⟨1⟩ failingAloud ∅) 0, .tick (.plain .dot 10)] →
      EndsReported (Backends.constant (.error .regionOutOfBounds)) ⟨1⟩
        (run (step (Backends.constant (.error .regionOutOfBounds))) (new ⟨(), ()⟩) done).1 i := by
  intro h
  have hlast := h [_] _ (List.prefix_refl _)
  exact absurd hlast (by decide)

end Scheduler

end Vcli

import Vcli.Runtime.Local

/-! What the events of a program tell about its state. Whoever starts from the state before a
step and listens to the events of the step ends up with the state after it. -/

namespace Vcli

def Obs.emission : Obs → Option EventData
  | emitted data => some data
  | _ => none

def Moment.emission {L : Type} (m : Moment L) : Option EventData := m.obs.emission

def EventData.tells (p : ProgramId) (e : EventData) (st : ProgramState) : ProgramState :=
  if e.programIdOf = some p then
    match e with
    | programStateChanged _ _ to_ _ => to_
    | programCompleted .. => .completed
    | programFailed .. => .failed
    | programResumed .. => .running
    | _ => st
  else st

def told (p : ProgramId) (es : List EventData) (st : ProgramState) : ProgramState :=
  es.foldl (fun st e => e.tells p st) st

def EventData.Plain : EventData → Prop
  | programStateChanged _ _ to_ _ => to_ ≠ .failed
  | programFailed _ reason _ _ => reason ≠ "daemon_restart"
  | _ => True

def EventData.Routine : EventData → Prop
  | programSubmitted .. | programResumed .. => False
  | e => e.Plain

/-- Events of a kind `P` that lead a listener from `st` to `st'`. -/
structure Recounts (P : EventData → Prop) (p : ProgramId) (st : ProgramState)
    (es : List EventData) (st' : ProgramState) : Prop where
  told : told p es st = st'
  all : ∀ e ∈ es, P e

section Listener
variable {P : EventData → Prop} {p : ProgramId} {st st' st'' : ProgramState}
  {es fs : List EventData} {e : EventData}

theorem EventData.Routine.plain (h : e.Routine) : e.Plain := by
  cases e <;> first | exact h | exact h.elim

theorem told_append : told p (es ++ fs) st = told p fs (told p es st) := List.foldl_append

theorem tells_ne (h : e.programIdOf ≠ some p) : e.tells p st = st := if_neg h

theorem Recounts.append (h : Recounts P p st es st') (h' : Recounts P p st' fs st'') :
    Recounts P p st (es ++ fs) st'' := by
  constructor
  · rw [told_append, h.told, h'.told]
  · intro e he
    rcases List.mem_append.mp he with he | he
    · exact h.all e he
    · exact h'.all e he

theorem recounts_nil : Recounts P p st [] st := ⟨rfl, fun _ he => absurd he List.not_mem_nil⟩

theorem recounts_cons (h : e.tells p st = st') (he : P e) (h' : Recounts P p st' fs st'') :
    Recounts P p st (e :: fs) st'' := by
  constructor
  · rw [← h'.told, ← h]
    rfl
  · intro x hx
    rcases List.mem_cons.mp hx with rfl | hx
    · exact he
    · exact h'.all x hx

theorem recounts_singleton (h : e.tells p st = st') (he : P e) : Recounts P p st [e] st' :=
  recounts_cons h he recounts_nil

theorem told_traceOf (ms : List (Moment ProgramMap)) :
    told p (ms.filterMap Moment.emission) st =
      told p ((traceOf p ms).filterMap Moment.emission) st := by
  induction ms generalizing st with
  | nil => rfl
  | cons m ms ih =>
    have hcons : traceOf p (m :: ms) = traceOf p [m] ++ traceOf p ms := traceOf_append p [m] ms
    rw [hcons, ← List.singleton_append, List.filterMap_append, List.filterMap_append, told_append,
      told_append, ih]
    congr 1
    -- a moment that is not on behalf of `p` is dropped from its trace and tells nothing
    by_cases hm : m.obs.subject = some p
    · rw [traceOf_cons hm]
      rfl
    · have hdrop : traceOf p [m] = [] :=
        traceOf_eq_nil (by simp [Moment.mine, hm])
      rw [hdrop]
      cases hobs : m.obs with
      | emitted data =>
        rw [hobs] at hm
        simp only [List.filterMap_cons, Moment.emission, hobs, Obs.emission, List.filterMap_nil]
        exact tells_ne hm
      | _ => simp only [List.filterMap_cons, Moment.emission, hobs, Obs.emission, List.filterMap_nil]

end Listener

def emissions (os : List (RunningProgram × Obs)) : List EventData :=
  os.filterMap fun o => o.2.emission

section Stages
variable {σ τ : Type} (B : Backends σ τ) (tk : Tick) (id : ProgramId) (rp : RunningProgram)

@[simp] theorem emissions_append (l r : List (RunningProgram × Obs)) :
    emissions (l ++ r) = emissions l ++ emissions r := List.filterMap_append

theorem emissions_moments (nowMs : UnixMs) (os : List (RunningProgram × Obs)) :
    (moments nowMs os).filterMap Moment.emission = emissions os := by
  rw [moments, List.filterMap_map]
  rfl

theorem recounts_in {part : Part} {st : ProgramState} {os : List (RunningProgram × Obs)}
    (h : ∀ o ∈ os, o.2.In part id) : Recounts EventData.Routine id st (emissions os) st := by
  induction os with
  | nil => exact recounts_nil
  | cons o os ih =>
    have hrest := ih fun x hx => h x (List.mem_cons_of_mem _ hx)
    have hhead : Recounts EventData.Routine id st (emissions [o]) st := by
      have ho := h o List.mem_cons_self
      obtain ⟨q, obs⟩ := o
      match obs, ho with
      | .perceived .., _ | .decided .., _ | .called .., _ => exact recounts_nil
      | .emitted (.actionDispatched ..), _ =>
        refine recounts_singleton ?_ trivial
        exact ite_self st
    rw [← List.singleton_append, emissions_append]
    exact hhead.append hrest

theorem recounts_map {part : Part} {st : ProgramState} {os : List Obs}
    (h : ∀ o ∈ os, o.In part id) :
    Recounts EventData.Routine id st (emissions (os.map fun o => (rp, o))) st := by
  apply recounts_in
  intro x hx
  obtain ⟨o, ho, rfl⟩ := List.mem_map.mp hx
  exact h o ho

theorem recounts_triggerPart (env : Env σ τ) :
    Recounts EventData.Routine id rp.state (emissions (triggerPart B tk id env rp).2)
      (triggerPart B tk id env rp).1.state := by
  have hseen : Recounts EventData.Routine id rp.state _ rp.state :=
    recounts_map id rp (emits_triggerFires B tk id rp env)
  unfold triggerPart
  split_ifs with hw
  · dsimp only [triggerProgram]
    split
    · rw [emissions_append]
      exact hseen.append (recounts_singleton (if_pos rfl) ProgramState.noConfusion)
    · exact hseen
    · rename_i e _
      rw [emissions_append]
      exact hseen.append (recounts_singleton (if_pos rfl) e.code_ne_daemonRestart)
  · exact recounts_nil

theorem recounts_firePart (env : Env σ τ) (loser : Option ProgramId) (e : ProgEval) :
    Recounts EventData.Routine id rp.state (emissions (firePart B tk id env loser e rp).2.1)
      (firePart B tk id env loser e rp).1.state := by
  have hseen := fun f : WatchFire =>
    (recounts_map id rp (emits_dispatchSteps B tk (rp.caller id) f.steps env) :
      Recounts EventData.Routine id rp.state _ rp.state)
  have h := firePart_dispatched B tk id env rp loser e
  generalize firePart B tk id env loser e rp = r at h ⊢
  cases h with
  | idle => exact recounts_nil
  | direct | deferred => exact recounts_singleton (ite_self rp.state) trivial
  | failed f fs err =>
    rw [emissions_append]
    exact (hseen f).append (recounts_singleton (if_pos rfl) err.code_ne_daemonRestart)
  | done f =>
    rw [emissions_append]
    exact (hseen f).append (recounts_singleton (ite_self rp.state) trivial)

theorem recounts_completeProgram (st : ProgramState) :
    Recounts EventData.Routine id st (emissions (completeProgram id rp).2)
      (completeProgram id rp).1.state := by
  refine recounts_cons (if_pos rfl) ProgramState.noConfusion ?_
  exact recounts_singleton (if_pos rfl) trivial

theorem recounts_bodyProgram (env : Env σ τ) :
    Recounts EventData.Routine id rp.state (emissions (bodyProgram B tk id rp env).2.2)
      (bodyProgram B tk id rp env).1.state := by
  -- the verdict on the step is no event, so the stage starts like its exchanges
  have hseen : Recounts EventData.Routine id rp.state (emissions (((stepOnce B tk (rp.caller id)
      rp.program.body rp.cursor rp.bodyState env).2.2 ++ [Obs.stepped id rp.cursor (stepOnce B tk
      (rp.caller id) rp.program.body rp.cursor rp.bodyState env).1.1]).map fun o => (rp, o)))
      rp.state := by
    rw [List.map_append, emissions_append]
    exact (recounts_map id rp (emits_stepOnce B tk (rp.caller id) _ _ _ env)).append recounts_nil
  have hbody := bodyProgram_run B tk id rp env
  generalize bodyProgram B tk id rp env = x at hbody ⊢
  cases hbody with
  | inert => exact recounts_nil
  | kept => exact hseen
  | completed =>
    rw [emissions_append]
    exact hseen.append (recounts_completeProgram id _ _)
  | failed _ err =>
    rw [emissions_append]
    exact hseen.append (recounts_singleton (if_pos rfl) err.code_ne_daemonRestart)

theorem recounts_runPart (sur : Surroundings σ τ) (loser : Option ProgramId) :
    Recounts EventData.Routine id rp.state (emissions (runPart B tk id sur loser rp).2)
      (runPart B tk id sur loser rp).1.state := by
  have heval : Recounts EventData.Routine id rp.state
      (emissions (evalProgram B tk id rp sur.eval).1.seen) rp.state :=
    recounts_map id rp (emits_evalWatches B tk id rp _ sur.eval)
  have hfire := recounts_firePart B tk id rp sur.fire loser (evalProgram B tk id rp sur.eval).1
  have hbody := recounts_bodyProgram B tk id (settlePart tk (evalProgram B tk id rp sur.eval).1
    (firePart B tk id sur.fire loser (evalProgram B tk id rp sur.eval).1 rp).2.2
    (firePart B tk id sur.fire loser (evalProgram B tk id rp sur.eval).1 rp).1) sur.body
  rw [Scheduler.settlePart_state] at hbody
  rw [runPart, emissions_append, emissions_append]
  exact heval.append (hfire.append hbody)

theorem recounts_tickProgram (sur : Surroundings σ τ) (loser : Option ProgramId) :
    Recounts EventData.Routine id rp.state (emissions (tickProgram B tk id sur loser rp).2)
      (tickProgram B tk id sur loser rp).1.state := by
  have htrigger := recounts_triggerPart B tk id rp sur.trigger
  unfold tickProgram
  dsimp only
  split_ifs
  · rw [emissions_append]
    exact htrigger.append (recounts_runPart B tk id _ sur loser)
  · exact htrigger

end Stages

section Local
variable {σ τ : Type} {B : Backends σ τ} {p : ProgramId} {v : Option RunningProgram}
  {rp' : RunningProgram} {st : ProgramState}

theorem recounts_localStep {a : LocalInput σ τ} (hst : ∀ rp, v = some rp → rp.state = st)
    (h' : (localStep B p v a).1 = some rp') :
    Recounts EventData.Plain p st ((localStep B p v a).2.filterMap Moment.emission) rp'.state := by
  have hmove := localStep_move (B := B) (p := p) v a
  generalize localStep B p v a = r at hmove h' ⊢
  cases hmove with
  | idle =>
    rw [hst rp' h']
    exact recounts_nil
  | submitted =>
    obtain rfl := Option.some.inj h'
    refine recounts_cons (ite_self st) trivial ?_
    exact recounts_singleton (if_pos rfl) ProgramState.noConfusion
  | resumed =>
    obtain rfl := Option.some.inj h'
    refine recounts_cons (if_pos rfl) ProgramState.noConfusion ?_
    exact recounts_singleton (if_pos rfl) trivial
  | cancelled | started =>
    obtain rfl := Option.some.inj h'
    exact recounts_singleton (if_pos rfl) ProgramState.noConfusion
  | ticked rp t frame hv =>
    rw [emissions_moments, ← Option.some.inj h', ← hst rp hv]
    have htick := recounts_tickProgram B ⟨frame, t.nowMs⟩ p rp a.sur a.loser
    exact ⟨htick.told, fun e he => (htick.all e he).plain⟩

theorem localStep_none {a : LocalInput σ τ} (h : (localStep B p v a).1 = none) :
    (localStep B p v a).2 = [] := by
  have hmove := localStep_move (B := B) (p := p) v a
  generalize localStep B p v a = r at hmove h ⊢
  cases hmove with
  | idle => rfl
  | submitted | resumed | cancelled | started | ticked => exact nomatch h

end Local

namespace Scheduler

variable {σ τ : Type} {B : Backends σ τ} {s : Scheduler σ τ} {p : ProgramId}
  {st : ProgramState}

/-- A step of the scheduler tells the state of each program it leaves in the map. -/
theorem step_told (i : Input) (hst : ∀ rp, s.programs.lookup p = some rp → rp.state = st)
    {rp' : RunningProgram} (h' : (step B s i).1.programs.lookup p = some rp') :
    told p ((step B s i).2.filterMap Moment.emission) st = rp'.state := by
  obtain ⟨a, _, hlook, htrace⟩ := step_project (B := B) (s := s) (p := p) i
  rw [told_traceOf, htrace]
  exact (recounts_localStep hst (hlook.symm.trans h')).told

theorem step_told_inserts {i : Input} (hi : i.inserts p) {rp' : RunningProgram}
    (h' : (step B s i).1.programs.lookup p = some rp') :
    told p ((step B s i).2.filterMap Moment.emission) st = rp'.state := by
  obtain ⟨a, rfl, hlook, htrace⟩ := step_project (B := B) (s := s) (p := p) i
  rw [told_traceOf, htrace]
  rw [hlook] at h'
  have hmove := localStep_move (B := B) (p := p) (s.programs.lookup p) a
  generalize localStep B p (s.programs.lookup p) a = r at hmove h' ⊢
  cases hmove with
  | idle hnot => exact absurd hi hnot
  | submitted | resumed =>
    rw [← Option.some.inj h']
    exact if_pos rfl
  | cancelled _ _ _ _ ha | started _ _ _ ha | ticked _ _ _ _ ha =>
    rw [ha] at hi
    exact hi.elim

theorem mem_emissions_traceOf {ms : List (Moment ProgramMap)} {m : Moment ProgramMap}
    (hm : m ∈ ms) {e : EventData} (he : m.obs = .emitted e) (hid : e.programIdOf = some p) :
    e ∈ (traceOf p ms).filterMap Moment.emission := by
  refine List.mem_filterMap.mpr ⟨m.of p, mem_traceOf.mpr ⟨m, hm, by rw [he]; exact hid, rfl⟩, ?_⟩
  rw [Moment.emission, show (m.of p).obs = m.obs from rfl, he]
  rfl

theorem step_plain (i : Input) {m : Moment ProgramMap} (hm : m ∈ (step B s i).2) {e : EventData}
    (he : m.obs = .emitted e) : e.Plain := by
  cases hid : e.programIdOf with
  | none => cases e <;> trivial
  | some p =>
    obtain ⟨a, _, _, htrace⟩ := step_project (B := B) (s := s) (p := p) i
    have hem := mem_emissions_traceOf hm he hid
    rw [htrace] at hem
    cases hv : (localStep B p (s.programs.lookup p) a).1 with
    | none =>
      rw [localStep_none hv] at hem
      exact absurd hem List.not_mem_nil
    | some rp' =>
      have hst : ∀ rp, s.programs.lookup p = some rp →
          rp.state = (stateIn s.programs p).getD .pending := by
        intro rp hrp
        rw [stateIn, hrp]
        rfl
      exact (recounts_localStep hst hv).all e hem

end Scheduler

end Vcli

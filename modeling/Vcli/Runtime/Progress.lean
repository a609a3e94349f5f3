import Vcli.Runtime.Exclusive
import Vcli.Runtime.News

/-! The body cursor over a run. It only moves forward, past the steps that have returned, and a
step that is behind it is not run again unless the program is put into the map anew. -/

namespace Vcli

open Transducer

def Obs.verdictOn (p : ProgramId) : Obs → Option (Nat × StepOutcome)
  | stepped id k outcome => if id = p then some (k, outcome) else none
  | _ => none

def Obs.isInsertion (p : ProgramId) : Obs → Bool
  | emitted (.programSubmitted id _) | emitted (.programResumed id _) => decide (id = p)
  | _ => false

/-- Verdicts on body steps that lead the cursor from `c` to `c'`. -/
structure Progress (c : Nat) (vs : List (Nat × StepOutcome)) (c' : Nat) : Prop where
  mono : c ≤ c'
  later : ∀ v ∈ vs, c ≤ v.1
  done : ∀ v ∈ vs, v.2 = .advanced → v.1 < c'
  moved : c' ≠ c → ∃ v ∈ vs, v.2 = .advanced

section Verdicts
variable {c c' c'' : Nat} {vs ws : List (Nat × StepOutcome)} {p : ProgramId}

theorem Progress.refl (c : Nat) : Progress c [] c :=
  ⟨le_rfl, fun _ h => absurd h List.not_mem_nil, fun _ h => absurd h List.not_mem_nil,
    fun h => absurd rfl h⟩

theorem Progress.append (h : Progress c vs c') (h' : Progress c' ws c'') :
    Progress c (vs ++ ws) c'' := by
  refine ⟨Nat.le_trans h.mono h'.mono, ?_, ?_, ?_⟩
  · intro v hv
    rcases List.mem_append.mp hv with hv | hv
    · exact h.later v hv
    · exact Nat.le_trans h.mono (h'.later v hv)
  · intro v hv hadv
    rcases List.mem_append.mp hv with hv | hv
    · exact Nat.lt_of_lt_of_le (h.done v hv hadv) h'.mono
    · exact h'.done v hv hadv
  · intro hne
    by_cases hmid : c' = c
    · obtain ⟨v, hv, hadv⟩ := h'.moved (hmid ▸ hne)
      exact ⟨v, List.mem_append_right _ hv, hadv⟩
    · obtain ⟨v, hv, hadv⟩ := h.moved hmid
      exact ⟨v, List.mem_append_left _ hv, hadv⟩

theorem progress_stays {o : StepOutcome} (ho : o ≠ .advanced) : Progress c [(c, o)] c := by
  refine ⟨le_rfl, ?_, ?_, fun h => absurd rfl h⟩
  · intro v hv
    rw [List.mem_singleton.mp hv]
  · intro v hv hadv
    rw [List.mem_singleton.mp hv] at hadv
    exact absurd hadv ho

theorem progress_advances : Progress c [(c, .advanced)] (c + 1) := by
  refine ⟨Nat.le_succ c, ?_, ?_, fun _ => ⟨_, List.mem_cons_self, rfl⟩⟩
  · intro v hv
    rw [List.mem_singleton.mp hv]
  · intro v hv _
    rw [List.mem_singleton.mp hv]
    exact Nat.lt_succ_self c

theorem verdicts_traceOf (p : ProgramId) (ms : List (Moment ProgramMap)) :
    (ms.filterMap fun m => m.obs.verdictOn p) =
      (traceOf p ms).filterMap fun m => m.obs.verdictOn p := by
  induction ms with
  | nil => rfl
  | cons m ms ih =>
    have hcons : traceOf p (m :: ms) = traceOf p [m] ++ traceOf p ms := traceOf_append p [m] ms
    rw [hcons, ← List.singleton_append, List.filterMap_append, List.filterMap_append, ih]
    congr 1
    by_cases hm : m.obs.subject = some p
    · rw [traceOf_cons hm]
      rfl
    · have hdrop : traceOf p [m] = [] := traceOf_eq_nil (by simp [Moment.mine, hm])
      rw [hdrop]
      cases hobs : m.obs with
      | stepped id k outcome =>
        rw [hobs] at hm
        have hne : id ≠ p := fun h => hm (congrArg some h)
        simp [hobs, Obs.verdictOn, hne]
      | _ => simp [hobs, Obs.verdictOn]

end Verdicts

def verdicts (p : ProgramId) (os : List (RunningProgram × Obs)) : List (Nat × StepOutcome) :=
  os.filterMap fun o => o.2.verdictOn p

section Stages
variable {σ τ : Type} (B : Backends σ τ) (tk : Tick) (id : ProgramId) (rp : RunningProgram)

@[simp] theorem verdicts_append (l r : List (RunningProgram × Obs)) :
    verdicts id (l ++ r) = verdicts id l ++ verdicts id r := List.filterMap_append

theorem verdicts_moments (nowMs : UnixMs) (os : List (RunningProgram × Obs)) :
    ((moments nowMs os).filterMap fun m => m.obs.verdictOn id) = verdicts id os := by
  rw [moments, List.filterMap_map]
  rfl

theorem verdicts_map {part : Part} {os : List Obs} (h : ∀ o ∈ os, o.In part id) :
    verdicts id (os.map fun o => (rp, o)) = [] := by
  rw [verdicts, List.filterMap_map, List.filterMap_eq_nil_iff]
  intro o ho
  match o, h o ho with
  | .perceived .., _ | .decided .., _ | .called .., _ | .emitted _, _ => rfl

theorem verdicts_triggerPart (env : Env σ τ) :
    verdicts id (triggerPart B tk id env rp).2 = [] := by
  have hseen := verdicts_map id rp (emits_triggerFires B tk id rp env)
  unfold triggerPart
  split_ifs
  · dsimp only [triggerProgram]
    split
    · rw [verdicts_append, hseen]
      rfl
    · exact hseen
    · rw [verdicts_append, hseen]
      rfl
  · rfl

theorem verdicts_firePart (env : Env σ τ) (loser : Option ProgramId) (e : ProgEval) :
    verdicts id (firePart B tk id env loser e rp).2.1 = [] := by
  have hseen := fun f : WatchFire =>
    verdicts_map id rp (emits_dispatchSteps B tk (rp.caller id) f.steps env)
  have h := firePart_dispatched B tk id env rp loser e
  generalize firePart B tk id env loser e rp = r at h ⊢
  cases h with
  | idle | direct | deferred => rfl
  | failed f | done f =>
    rw [verdicts_append, hseen f]
    rfl

theorem verdicts_bodyProgram (env : Env σ τ) (hrun : rp.state = .running) :
    verdicts id (bodyProgram B tk id rp env).2.2 =
      [(rp.cursor,
        (stepOnce B tk (rp.caller id) rp.program.body rp.cursor rp.bodyState env).1.1)] := by
  have hos := emits_stepOnce B tk (rp.caller id) rp.program.body rp.cursor rp.bodyState env
  have hbody := bodyProgram_run B tk id rp env
  generalize stepOnce B tk (rp.caller id) rp.program.body rp.cursor rp.bodyState env = r
    at hos hbody ⊢
  have hseen : verdicts id ((r.2.2 ++ [Obs.stepped id rp.cursor r.1.1]).map fun o => (rp, o)) =
      [(rp.cursor, r.1.1)] := by
    rw [List.map_append, verdicts_append, verdicts_map id rp hos, List.nil_append]
    simp [verdicts, Obs.verdictOn]
  have hdone : ∀ q, verdicts id (completeProgram id q).2 = [] := fun _ => rfl
  generalize bodyProgram B tk id rp env = x at hbody ⊢
  cases hbody with
  | inert hinert => exact absurd hrun hinert
  | kept => exact hseen
  | completed => rw [verdicts_append, hseen, hdone, List.append_nil]
  | failed =>
    rw [verdicts_append, hseen]
    rfl

/-- It moves past the step exactly when that advanced, and keeps what the step deferred. -/
theorem bodyProgram_moves (env : Env σ τ) (hrun : rp.state = .running) :
    (bodyProgram B tk id rp env).1.program = rp.program ∧
      (bodyProgram B tk id rp env).1.bodyState =
        (stepOnce B tk (rp.caller id) rp.program.body rp.cursor rp.bodyState env).1.2 ∧
      (bodyProgram B tk id rp env).1.cursor =
        if (stepOnce B tk (rp.caller id) rp.program.body rp.cursor rp.bodyState env).1.1 =
          .advanced then rp.cursor + 1 else rp.cursor := by
  have hbody := bodyProgram_run B tk id rp env
  generalize stepOnce B tk (rp.caller id) rp.program.body rp.cursor rp.bodyState env = r at hbody ⊢
  have hcursor : (rp.stepTaken r.1).cursor =
      if r.1.1 = .advanced then rp.cursor + 1 else rp.cursor := by
    unfold RunningProgram.stepTaken RunningProgram.cursor
    split_ifs <;> rfl
  generalize bodyProgram B tk id rp env = x at hbody ⊢
  cases hbody with
  | inert hinert => exact absurd hrun hinert
  | kept | completed | failed => exact ⟨rfl, rfl, hcursor⟩

theorem progress_bodyProgram (env : Env σ τ) :
    Progress rp.cursor (verdicts id (bodyProgram B tk id rp env).2.2)
      (bodyProgram B tk id rp env).1.cursor := by
  by_cases hrun : rp.state = .running
  · rw [verdicts_bodyProgram B tk id rp env hrun, (bodyProgram_moves B tk id rp env hrun).2.2]
    split_ifs with hadv
    · rw [hadv]
      exact progress_advances
    · exact progress_stays hadv
  · rw [bodyProgram, if_neg hrun]
    exact .refl _

theorem progress_runPart (sur : Surroundings σ τ) (loser : Option ProgramId) :
    Progress rp.cursor (verdicts id (runPart B tk id sur loser rp).2)
      (runPart B tk id sur loser rp).1.cursor := by
  have heval : verdicts id (evalProgram B tk id rp sur.eval).1.seen = [] :=
    verdicts_map id rp (emits_evalWatches B tk id rp _ sur.eval)
  have hbody := progress_bodyProgram B tk id (settlePart tk (evalProgram B tk id rp sur.eval).1
    (firePart B tk id sur.fire loser (evalProgram B tk id rp sur.eval).1 rp).2.2
    (firePart B tk id sur.fire loser (evalProgram B tk id rp sur.eval).1 rp).1) sur.body
  obtain ⟨_, hcur, _⟩ := settled_body B tk id rp sur.fire loser
    (evalProgram B tk id rp sur.eval).1
  rw [RunningProgram.cursor, hcur] at hbody
  rw [runPart, verdicts_append, verdicts_append, heval, verdicts_firePart]
  exact hbody

theorem progress_tickProgram (hun : rp.state = .waiting → rp.bodyCursor = none)
    (sur : Surroundings σ τ) (loser : Option ProgramId) :
    Progress rp.cursor (verdicts id (tickProgram B tk id sur loser rp).2)
      (tickProgram B tk id sur loser rp).1.cursor := by
  have hcursor : (triggerPart B tk id sur.trigger rp).1.cursor = rp.cursor := by
    rcases triggerPart_cases B tk id rp sur.trigger with h | ⟨hw, h | h⟩
    · rw [h]
    · rw [h, RunningProgram.cursor, RunningProgram.cursor, hun hw]
      rfl
    · rw [h]
      rfl
  have hrun := progress_runPart B tk id (triggerPart B tk id sur.trigger rp).1 sur loser
  unfold tickProgram
  dsimp only
  split_ifs
  · rw [verdicts_append, verdicts_triggerPart, ← hcursor]
    exact hrun
  · rw [verdicts_triggerPart, hcursor]
    exact .refl _

end Stages

section Local
variable {σ τ : Type} {B : Backends σ τ} {p : ProgramId} {rp rp' : RunningProgram}
  {a : LocalInput σ τ}

theorem progress_localStep (hi : ¬ a.input.inserts p)
    (hun : rp.state = .waiting → rp.bodyCursor = none)
    (h' : (localStep B p (some rp) a).1 = some rp') :
    Progress rp.cursor ((localStep B p (some rp) a).2.filterMap fun m => m.obs.verdictOn p)
      rp'.cursor := by
  have hmove := localStep_move (B := B) (p := p) (some rp) a
  generalize localStep B p (some rp) a = r at hmove h' ⊢
  cases hmove with
  | idle =>
    rw [Option.some.inj h']
    exact .refl _
  | submitted _ _ _ ha | resumed _ _ _ _ ha => exact absurd (ha ▸ rfl) hi
  | cancelled _ _ _ hv | started _ _ hv =>
    rw [← Option.some.inj h', Option.some.inj hv]
    exact .refl _
  | ticked _ t frame hv =>
    obtain rfl := Option.some.inj hv
    rw [verdicts_moments, ← Option.some.inj h']
    exact progress_tickProgram B ⟨frame, t.nowMs⟩ p rp hun a.sur a.loser

theorem localStep_present : ∃ rp', (localStep B p (some rp) a).1 = some rp' := by
  have hmove := localStep_move (B := B) (p := p) (some rp) a
  generalize localStep B p (some rp) a = r at hmove ⊢
  cases hmove with
  | idle => exact ⟨rp, rfl⟩
  | submitted | resumed | cancelled | started | ticked => exact ⟨_, rfl⟩

theorem localStep_newborn {v : Option RunningProgram} (hi : a.input.inserts p)
    (h' : (localStep B p v a).1 = some rp') :
    ((localStep B p v a).2.filterMap fun m => m.obs.verdictOn p) = [] ∧
      (rp'.cursor = 0 ∨ ∃ program assets nowMs,
        a.input = .command (.resumeRunning p rp'.cursor program assets) nowMs) := by
  have hmove := localStep_move (B := B) (p := p) v a
  generalize localStep B p v a = r at hmove h' ⊢
  cases hmove with
  | idle hnot => exact absurd hi hnot
  | submitted =>
    rw [← Option.some.inj h']
    exact ⟨rfl, .inl rfl⟩
  | resumed fromStep program assets nowMs ha =>
    rw [← Option.some.inj h']
    exact ⟨rfl, .inr ⟨program, assets, nowMs, ha⟩⟩
  | cancelled _ _ _ _ ha | started _ _ _ ha | ticked _ _ _ _ ha =>
    rw [ha] at hi
    exact hi.elim

theorem localStep_routine {v : Option RunningProgram} (hi : ¬ a.input.inserts p) {e : EventData}
    (he : e ∈ (localStep B p v a).2.filterMap Moment.emission) : e.Routine := by
  have hmove := localStep_move (B := B) (p := p) v a
  generalize localStep B p v a = r at hmove he
  cases hmove with
  | idle => exact absurd he List.not_mem_nil
  | submitted _ _ _ ha | resumed _ _ _ _ ha => exact absurd (ha ▸ rfl) hi
  | cancelled | started =>
    rw [List.mem_singleton.mp he]
    exact ProgramState.noConfusion
  | ticked rp t frame =>
    rw [emissions_moments] at he
    exact (recounts_tickProgram B _ p rp a.sur a.loser).all e he

end Local

namespace Scheduler

variable {σ τ : Type} {B : Backends σ τ} {s : Scheduler σ τ} {p : ProgramId}
  {rp rp' : RunningProgram}

theorem step_progress {i : Input} (hi : ¬ i.inserts p) (hun : Unbegun s.programs)
    (hrp : s.programs.lookup p = some rp)
    (hrp' : (step B s i).1.programs.lookup p = some rp') :
    Progress rp.cursor ((step B s i).2.filterMap fun m => m.obs.verdictOn p) rp'.cursor := by
  obtain ⟨a, rfl, hlook, htrace⟩ := step_project (B := B) (s := s) (p := p) i
  rw [verdicts_traceOf, htrace, hrp]
  rw [hrp] at hlook
  exact progress_localStep hi (hun p rp hrp) (hlook.symm.trans hrp')

theorem step_inserted {i : Input} (hi : i.inserts p)
    (hrp' : (step B s i).1.programs.lookup p = some rp') :
    ((step B s i).2.filterMap fun m => m.obs.verdictOn p) = [] ∧
      (rp'.cursor = 0 ∨ ∃ program assets nowMs,
        i = .command (.resumeRunning p rp'.cursor program assets) nowMs) := by
  obtain ⟨a, rfl, hlook, htrace⟩ := step_project (B := B) (s := s) (p := p) i
  rw [verdicts_traceOf, htrace]
  exact localStep_newborn hi (hlook.symm.trans hrp')

theorem step_present (i : Input) (hrp : s.programs.lookup p = some rp) :
    ∃ rp', (step B s i).1.programs.lookup p = some rp' := by
  obtain ⟨a, _, hlook, _⟩ := step_project (B := B) (s := s) (p := p) i
  have hstep : ∃ rp', (localStep B p (some rp) a).1 = some rp' := localStep_present
  obtain ⟨rp', hrp'⟩ := hstep
  rw [hrp] at hlook
  exact ⟨rp', hlook.trans hrp'⟩

theorem step_routine {i : Input} (hi : ¬ i.inserts p) {m : Moment ProgramMap}
    (hm : m ∈ (step B s i).2) {e : EventData} (he : m.obs = .emitted e)
    (hid : e.programIdOf = some p) : e.Routine := by
  obtain ⟨a, rfl, _, htrace⟩ := step_project (B := B) (s := s) (p := p) i
  have hmem := mem_emissions_traceOf hm he hid
  rw [htrace] at hmem
  exact localStep_routine hi hmem

theorem step_announced {i : Input} (hi : i.inserts p) :
    (∃ m ∈ (step B s i).2, m.obs.isInsertion p = true) ∧
      ∀ m ∈ (step B s i).2, ∀ id fromStep, m.obs = .emitted (.programResumed id fromStep) →
        ∃ program assets nowMs, i = .command (.resumeRunning id fromStep program assets) nowMs := by
  cases i with
  | tick t => exact hi.elim
  | command c nowMs =>
    cases c with
    | shutdown | cancel | start => exact hi.elim
    | submitValidated q program assets =>
      obtain rfl : q = p := hi
      refine ⟨⟨_, List.mem_cons_self, decide_eq_true rfl⟩, ?_⟩
      intro m hm id fromStep hobs
      rcases List.mem_cons.mp hm with rfl | hm
      · exact nomatch hobs
      · rw [List.mem_singleton.mp hm] at hobs
        exact nomatch hobs
    | resumeRunning q fromStep program assets =>
      obtain rfl : q = p := hi
      refine ⟨⟨_, List.mem_cons_of_mem _ List.mem_cons_self, decide_eq_true rfl⟩, ?_⟩
      intro m hm id fromStep hobs
      rcases List.mem_cons.mp hm with rfl | hm
      · exact nomatch hobs
      · rw [List.mem_singleton.mp hm] at hobs
        obtain ⟨rfl, rfl⟩ := EventData.programResumed.inj (Obs.emitted.inj hobs)
        exact ⟨program, assets, nowMs, rfl⟩

theorem run_progress {is : List Input} (his : ∀ i ∈ is, ¬ i.inserts p)
    (hun : Unbegun s.programs) (hrp : s.programs.lookup p = some rp) :
    ∃ rp', (run (step B) s is).1.programs.lookup p = some rp' ∧
      Progress rp.cursor ((run (step B) s is).2.filterMap fun m => m.obs.verdictOn p)
        rp'.cursor := by
  induction is generalizing s rp with
  | nil => exact ⟨rp, hrp, .refl _⟩
  | cons i is ih =>
    obtain ⟨rp₁, hrp₁⟩ := step_present (B := B) i hrp
    have hhead := step_progress (his i List.mem_cons_self) hun hrp hrp₁
    obtain ⟨rp', hrp', hrest⟩ := ih (fun j hj => his j (List.mem_cons_of_mem _ hj))
      (step_unbegun i hun) hrp₁
    rw [run_cons, List.filterMap_append]
    exact ⟨rp', hrp', hhead.append hrest⟩

/-- A resumed program runs no step before the one it was resumed from. -/
theorem resume_goes_on (hun : Unbegun s.programs) {c : Nat} {program : Program} {assets : Assets}
    {nowMs : UnixMs} {is : List Input} (his : ∀ i ∈ is, ¬ i.inserts p) {m : Moment ProgramMap}
    (hm : m ∈ (run (step B) s (.command (.resumeRunning p c program assets) nowMs :: is)).2)
    {k : Nat} {o : StepOutcome} (hobs : m.obs = .stepped p k o) : c ≤ k := by
  have hrp : (step B s (.command (.resumeRunning p c program assets) nowMs)).1.programs.lookup p =
      some (resumed nowMs c program assets) := AList.lookup_insert _
  have hnone := (step_inserted (i := .command (.resumeRunning p c program assets) nowMs)
    (rfl : p = p) hrp).1
  obtain ⟨_, _, hprogress⟩ := run_progress (B := B) his (step_unbegun _ hun) hrp
  have hverdict : m.obs.verdictOn p = some (k, o) := by
    rw [hobs]
    exact if_pos rfl
  rw [run_cons] at hm
  rcases List.mem_append.mp hm with hm | hm
  · exact nomatch hverdict.symm.trans (List.filterMap_eq_nil_iff.mp hnone m hm)
  · exact hprogress.later (k, o) (List.mem_filterMap.mpr ⟨m, hm, hverdict⟩)

end Scheduler

end Vcli

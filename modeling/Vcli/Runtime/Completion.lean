import Vcli.Runtime.Progress

/-! Completion. The scheduler counts the unretired entries of the watch map where it means to
count the unretired watches, so a program may complete while a watch without an entry is still
to fire; otherwise it completes exactly when its body is over and its watches are retired. -/

namespace Vcli

open Transducer

namespace RunningProgram

def Exhausted (rp : RunningProgram) : Prop := rp.program.body.length ≤ rp.cursor

def AllRetired (rp : RunningProgram) : Prop :=
  ∀ idx < rp.program.watches.length, (rp.watch idx).retired = true

def Recorded (rp : RunningProgram) : Prop :=
  ∀ idx < rp.program.watches.length, idx ∈ rp.watchState

structure Sane (rp : RunningProgram) : Prop where
  keys : ∀ idx ∈ rp.watchState, idx < rp.program.watches.length
  pending : rp.bodyState.deferred ≠ none → rp.cursor < rp.program.body.length

variable {rp : RunningProgram}

theorem bodyComplete_iff : rp.bodyComplete = true ↔ rp.Exhausted := by
  unfold bodyComplete Exhausted cursor
  cases rp.bodyCursor with
  | none => simp [List.isEmpty_iff]
  | some n => simp

theorem activeWatchCount_eq_zero :
    rp.activeWatchCount = 0 ↔ ∀ idx ∈ rp.watchState, (rp.watch idx).retired = true := by
  unfold activeWatchCount watch
  rw [List.length_eq_zero_iff, List.filter_eq_nil_iff]
  constructor
  · intro h idx hmem
    obtain ⟨wr, hwr⟩ := Option.isSome_iff_exists.mp (Std.ExtTreeMap.mem_iff_isSome_getElem?.mp hmem)
    have hnot := h (idx, wr) (Std.ExtTreeMap.mem_toList_iff_getElem?_eq_some.mpr hwr)
    simpa [hwr] using hnot
  · intro h e he
    have hwr := Std.ExtTreeMap.mem_toList_iff_getElem?_eq_some.mp he
    have hret := h e.1 (Std.ExtTreeMap.mem_iff_isSome_getElem?.mpr (by rw [hwr]; rfl))
    rw [hwr] at hret
    simpa using hret

theorem mem_of_retired {idx : Nat} (h : (rp.watch idx).retired = true) : idx ∈ rp.watchState := by
  rw [Std.ExtTreeMap.mem_iff_isSome_getElem?]
  unfold watch at h
  cases hwr : rp.watchState[idx]? with
  | some wr => rfl
  | none =>
    rw [hwr] at h
    exact nomatch h

theorem allRetired_iff (h : rp.Sane) :
    rp.AllRetired ↔ rp.activeWatchCount = 0 ∧ rp.Recorded := by
  rw [activeWatchCount_eq_zero]
  constructor
  · intro hall
    exact ⟨fun idx hmem => hall idx (h.keys idx hmem), fun idx hlt => mem_of_retired (hall idx hlt)⟩
  · rintro ⟨hretired, hrecorded⟩ idx hlt
    exact hretired idx (hrecorded idx hlt)

end RunningProgram

open RunningProgram

/-- What a step of a body of length `len` can do at `cursor`. -/
inductive BodyMove (len cursor : Nat) : StepOutcome → BodyState → Prop
  | advanced : cursor < len → BodyMove len cursor .advanced {}
  | ended : len ≤ cursor → BodyMove len cursor .bodyComplete {}
  | stalled (b : BodyState) : cursor < len → BodyMove len cursor .stalled b
  | failed (e : RuntimeError) (b : BodyState) : cursor < len → BodyMove len cursor (.failed e) b

section Body
variable {σ τ : Type} (B : Backends σ τ) (tk : Tick) (c : Caller) {len cursor : Nat}

/-- Computations that move through a body as `BodyMove` says. -/
abbrev Moves (len cursor : Nat) (m : Interaction (Env σ τ) Obs (StepOutcome × BodyState)) : Prop :=
  m.Sat fun r _ => BodyMove len cursor r.1 r.2

theorem moves_bind {α : Type} {m : Interaction (Env σ τ) Obs α}
    {k : α → Interaction (Env σ τ) Obs (StepOutcome × BodyState)}
    (h : ∀ a, Moves len cursor (k a)) : Moves len cursor (m >>= k) := fun _ => h _ _

theorem moves_stepDeferred (h : cursor < len) (d : BodyDefer) :
    Moves len cursor (stepDeferred B tk c d) := by
  cases d with
  | sleep wakeAtMs =>
    rw [stepDeferred]
    split_ifs
    · exact Interaction.sat_pure (.advanced h)
    · exact Interaction.sat_pure (.stalled _ h)
  | waitFor predicate deadlineMs onTimeout =>
    refine moves_bind fun r => ?_
    cases r with
    | error e => exact Interaction.sat_pure (.failed _ _ h)
    | ok r =>
      dsimp only
      split_ifs
      · exact Interaction.sat_pure (.advanced h)
      · cases onTimeout with
        | fail => exact Interaction.sat_pure (.failed _ _ h)
        | continue_ | retry => exact Interaction.sat_pure (.advanced h)
      · exact Interaction.sat_pure (.stalled _ h)

theorem moves_stepFresh (h : cursor < len) (s : Step) :
    Moves len cursor (stepFresh B tk c s) := by
  cases s with
  | sleepMs | waitFor => exact Interaction.sat_pure (.stalled _ h)
  | assert predicate onFail =>
    refine moves_bind fun r => ?_
    cases r with
    | error e => exact Interaction.sat_pure (.failed _ _ h)
    | ok r =>
      dsimp only
      split_ifs
      · exact Interaction.sat_pure (.advanced h)
      · cases onFail with
        | fail => exact Interaction.sat_pure (.failed _ _ h)
        | continue_ => exact Interaction.sat_pure (.advanced h)
  | move | click | scroll | type | key =>
    refine moves_bind fun r => ?_
    cases r with
    | error e => exact Interaction.sat_pure (.failed _ _ h)
    | ok u => exact Interaction.sat_pure (.advanced h)

theorem moves_stepOnce (body : List Step) (state : BodyState)
    (h : state.deferred ≠ none → cursor < body.length) :
    Moves body.length cursor (stepOnce B tk c body cursor state) := by
  unfold stepOnce
  cases hd : state.deferred with
  | some d => exact moves_stepDeferred B tk c (h (by rw [hd]; exact Option.some_ne_none d)) d
  | none =>
    cases hs : body[cursor]? with
    | none => exact Interaction.sat_pure (.ended (List.getElem?_eq_none_iff.mp hs))
    | some s => exact moves_stepFresh B tk c (List.getElem?_eq_some_iff.mp hs).1 s

variable (id : ProgramId)

def Ends (q : RunningProgram) (o : StepOutcome) : Prop :=
  o = .bodyComplete ∨ o = .advanced ∧ q.program.body.length ≤ q.cursor + 1

structure BodyStep (q : RunningProgram) (o : StepOutcome) (q' : RunningProgram) : Prop where
  program : q'.program = q.program
  watches : q'.watchState = q.watchState
  pending : q'.bodyState.deferred ≠ none → q'.cursor < q'.program.body.length
  ends : q'.Exhausted ↔ Ends q o
  completes : q'.state = .completed ↔ q'.Exhausted ∧ q'.activeWatchCount = 0

theorem bodyProgram_step {q : RunningProgram} (hs : q.Sane) (hrun : q.state = .running)
    (env : Env σ τ) :
    BodyStep q (stepOnce B tk (q.caller id) q.program.body q.cursor q.bodyState env).1.1
      (bodyProgram B tk id q env).1 := by
  have hmove := moves_stepOnce B tk (q.caller id) q.program.body q.bodyState hs.pending env
  unfold bodyProgram
  rw [if_pos hrun]
  dsimp only
  generalize (stepOnce B tk (q.caller id) q.program.body q.cursor q.bodyState env) = r at hmove
  obtain ⟨⟨o, b⟩, env', os⟩ := r
  -- each move of the body leaves it exhausted, or with a step still to be carried out
  cases hmove with
  | advanced hlt =>
    set next : RunningProgram := { q with bodyState := {}, bodyCursor := some (q.cursor + 1) }
    have hends : next.Exhausted ↔ Ends q .advanced := by
      refine ⟨fun h => .inr ⟨rfl, h⟩, ?_⟩
      rintro (h | h)
      · exact nomatch h
      · exact h.2
    dsimp only
    by_cases hdone : next.Exhausted ∧ next.activeWatchCount = 0
    · rw [if_pos (by simpa [bodyComplete_iff] using hdone)]
      exact ⟨rfl, rfl, fun h => absurd rfl h, hends, ⟨fun _ => hdone, fun _ => rfl⟩⟩
    · rw [if_neg (by simpa [bodyComplete_iff] using hdone)]
      refine ⟨rfl, rfl, fun h => absurd rfl h, hends, ⟨fun h => ?_, fun h => absurd h hdone⟩⟩
      exact nomatch hrun.symm.trans h
  | ended hle =>
    set next : RunningProgram := { q with bodyState := {} }
    have hends : next.Exhausted ↔ Ends q .bodyComplete := ⟨fun _ => .inl rfl, fun _ => hle⟩
    dsimp only
    by_cases hdone : next.activeWatchCount = 0
    · rw [if_pos (by simpa using hdone)]
      exact ⟨rfl, rfl, fun h => absurd rfl h, hends, ⟨fun _ => ⟨hle, hdone⟩, fun _ => rfl⟩⟩
    · rw [if_neg (by simpa using hdone)]
      refine ⟨rfl, rfl, fun h => absurd rfl h, hends, ⟨fun h => ?_, fun h => absurd h.2 hdone⟩⟩
      exact nomatch hrun.symm.trans h
  | stalled b hlt =>
    have hnot : ¬ q.program.body.length ≤ q.cursor := Nat.not_le.mpr hlt
    refine ⟨rfl, rfl, fun _ => hlt, ⟨fun h => absurd h hnot, ?_⟩, ⟨fun h => ?_, ?_⟩⟩
    · rintro (h | ⟨h, _⟩) <;> exact nomatch h
    · exact nomatch hrun.symm.trans h
    · exact fun h => absurd h.1 hnot
  | failed e b hlt =>
    have hnot : ¬ q.program.body.length ≤ q.cursor := Nat.not_le.mpr hlt
    refine ⟨rfl, rfl, fun _ => hlt, ⟨fun h => absurd h hnot, ?_⟩, ⟨fun h => (nomatch h), ?_⟩⟩
    · rintro (h | ⟨h, _⟩) <;> exact nomatch h
    · exact fun h => absurd h.1 hnot

theorem verdict_of_mem {q : RunningProgram} {os : List Obs} {c k : Nat} {v o : StepOutcome}
    {x : RunningProgram × Obs} (hos : ∀ o ∈ os, o.In .act id)
    (hx : x ∈ (os ++ [Obs.stepped id c v]).map fun o => (q, o)) (hk : x.2 = .stepped id k o) :
    x = (q, .stepped id c v) := by
  obtain ⟨y, hy, rfl⟩ := List.mem_map.mp hx
  rcases List.mem_append.mp hy with hy | hy
  · have hin := hos y hy
    rw [show y = .stepped id k o from hk] at hin
    exact hin.elim
  · rw [List.mem_singleton.mp hy]

theorem bodyProgram_verdict {q : RunningProgram} (hrun : q.state = .running) (env : Env σ τ) :
    (q, .stepped id q.cursor (stepOnce B tk (q.caller id) q.program.body q.cursor q.bodyState
        env).1.1) ∈ (bodyProgram B tk id q env).2.2 ∧
      ∀ x ∈ (bodyProgram B tk id q env).2.2, ∀ k o, x.2 = .stepped id k o →
        x = (q, .stepped id q.cursor
          (stepOnce B tk (q.caller id) q.program.body q.cursor q.bodyState env).1.1) := by
  have hacts := emits_stepOnce B tk (q.caller id) q.program.body q.cursor q.bodyState env
  have hbody := bodyProgram_run B tk id q env
  generalize stepOnce B tk (q.caller id) q.program.body q.cursor q.bodyState env = r
    at hacts hbody ⊢
  have hmem : (q, .stepped id q.cursor r.1.1) ∈
      (r.2.2 ++ [Obs.stepped id q.cursor r.1.1]).map fun o => (q, o) :=
    List.mem_map_of_mem (List.mem_append_right _ List.mem_cons_self)
  -- the verdict on the step comes first, and what follows it are announcements
  have hown : ∀ rest : List (RunningProgram × Obs), (∀ x ∈ rest, ∃ d, x.2 = .emitted d) →
      (q, .stepped id q.cursor r.1.1) ∈
          (r.2.2 ++ [Obs.stepped id q.cursor r.1.1]).map (fun o => (q, o)) ++ rest ∧
        ∀ x ∈ (r.2.2 ++ [Obs.stepped id q.cursor r.1.1]).map (fun o => (q, o)) ++ rest, ∀ k o,
          x.2 = .stepped id k o → x = (q, .stepped id q.cursor r.1.1) := by
    intro rest hrest
    refine ⟨List.mem_append_left _ hmem, fun x hx k o hk => ?_⟩
    rcases List.mem_append.mp hx with hx | hx
    · exact verdict_of_mem id hacts hx hk
    · obtain ⟨d, hd⟩ := hrest x hx
      exact nomatch hd.symm.trans hk
  have hbare := hown [] (fun x hx => absurd hx List.not_mem_nil)
  rw [List.append_nil] at hbare
  have hdone : ∀ q', ∀ x ∈ (completeProgram id q').2, ∃ d, x.2 = .emitted d := by
    intro q' x hx
    rcases List.mem_cons.mp hx with rfl | hx
    · exact ⟨_, rfl⟩
    · rw [List.mem_singleton.mp hx]
      exact ⟨_, rfl⟩
  generalize bodyProgram B tk id q env = x at hbody ⊢
  cases hbody with
  | inert hinert => exact absurd hrun hinert
  | kept => exact hbare
  | completed => exact hown _ (hdone _)
  | failed =>
    refine hown _ fun x hx => ?_
    rw [List.mem_singleton.mp hx]
    exact ⟨_, rfl⟩

end Body

section Settled
variable {rp : RunningProgram} {α : Type} {k : α → Nat} {g : α → WatchRuntime → WatchRuntime}

theorem mem_sweep {as : List α} {idx : Nat} (h : idx ∈ (sweep k g rp as).watchState) :
    idx ∈ rp.watchState ∨ ∃ a ∈ as, k a = idx := by
  induction as generalizing rp with
  | nil => exact .inl h
  | cons a as ih =>
    have hrest : idx ∈ (sweep k g (rp.modifyWatch (k a) (g a)) as).watchState := h
    rcases ih hrest with hmem | ⟨b, hb, hk⟩
    · rcases Std.ExtTreeMap.mem_insert.mp hmem with heq | hmem
      · exact .inr ⟨a, List.mem_cons_self, Std.compare_eq_iff_eq.mp heq⟩
      · exact .inl hmem
    · exact .inr ⟨b, List.mem_cons_of_mem _ hb, hk⟩

variable {σ τ : Type} (B : Backends σ τ) (tk : Tick) (id : ProgramId)

theorem outcome_lt {env : Env σ τ} {o : WatchOutcome}
    (ho : o ∈ (evalProgram B tk id rp env).1.outcomes) {idx : Nat} (hi : o.watchOf = some idx) :
    idx < rp.program.watches.length := by
  obtain ⟨w, hw, rfl⟩ := (evalProgram_judged B tk id rp env).watchOf.2 o ho idx hi
  exact (List.getElem?_eq_some_iff.mp (List.mem_zipIdx_iff_getElem?.mp hw)).1

theorem updateProgram_keys {e : ProgEval} {q : RunningProgram} {n : Nat}
    (he : ∀ o ∈ e.outcomes, ∀ idx, o.watchOf = some idx → idx < n)
    (hq : ∀ idx ∈ q.watchState, idx < n) : ∀ idx ∈ (updateProgram e q).watchState, idx < n := by
  intro idx hidx
  rw [updateProgram_eq] at hidx
  rcases mem_sweep hidx with hmem | ⟨i, hi, rfl⟩
  · rcases mem_sweep hmem with hmem | ⟨t, ht, rfl⟩
    · exact hq idx hmem
    · obtain ⟨o, ho, hedge⟩ := List.mem_filterMap.mp ht
      exact he o ho t.1 (truthyEdge_key hedge).symm
  · obtain ⟨o, ho, hret⟩ := List.mem_filterMap.mp hi
    exact he o ho i (retirement_key hret).symm

theorem firedProgram_keys {nowMs : UnixMs} {i n : Nat} {q : RunningProgram}
    (hn : q.program.watches.length = n) (hq : ∀ idx ∈ q.watchState, idx < n) :
    ∀ idx ∈ (firedProgram nowMs i q).watchState, idx < n := by
  unfold firedProgram
  cases hw : q.program.watches[i]? with
  | none => exact hq
  | some w =>
    intro idx hidx
    rcases Std.ExtTreeMap.mem_insert.mp hidx with heq | hmem
    · rw [← Std.compare_eq_iff_eq.mp heq, ← hn]
      exact (List.getElem?_eq_some_iff.mp hw).1
    · exact hq idx hmem

theorem settlePart_keys {e : ProgEval} {fw : Option Nat} {q : RunningProgram} {n : Nat}
    (hn : q.program.watches.length = n)
    (he : ∀ o ∈ e.outcomes, ∀ idx, o.watchOf = some idx → idx < n)
    (hq : ∀ idx ∈ q.watchState, idx < n) : ∀ idx ∈ (settlePart tk e fw q).watchState, idx < n := by
  have hkeys := updateProgram_keys he hq
  cases fw with
  | none => exact hkeys
  | some i =>
    refine firedProgram_keys ?_ hkeys
    rw [(updateProgram_same e q).program]
    exact hn

def settled (sur : Surroundings σ τ) (loser : Option ProgramId) (rp : RunningProgram) :
    RunningProgram :=
  settlePart tk (evalProgram B tk id rp sur.eval).1
    (firePart B tk id sur.fire loser (evalProgram B tk id rp sur.eval).1 rp).2.2
    (firePart B tk id sur.fire loser (evalProgram B tk id rp sur.eval).1 rp).1

theorem settled_sane (sur : Surroundings σ τ) (loser : Option ProgramId) (h : rp.Sane) :
    (settled B tk id sur loser rp).Sane := by
  obtain ⟨hprog, hcur, hbs⟩ := settled_body B tk id rp sur.fire loser
    (evalProgram B tk id rp sur.eval).1
  constructor
  · obtain ⟨st, hst⟩ := firePart_frame B tk id rp sur.fire loser
      (evalProgram B tk id rp sur.eval).1
    rw [settled, hprog, hst]
    exact settlePart_keys tk rfl (fun o ho idx hi => outcome_lt B tk id ho hi) h.keys
  · intro hd
    rw [settled, hprog, RunningProgram.cursor, hcur]
    rw [settled, hbs] at hd
    exact h.pending hd

end Settled

theorem BodyStep.sane {q q' : RunningProgram} {o : StepOutcome} (h : BodyStep q o q')
    (hq : q.Sane) : q'.Sane := by
  refine ⟨?_, h.pending⟩
  rw [h.watches, h.program]
  exact hq.keys

theorem BodyStep.activeWatchCount {q q' : RunningProgram} {o : StepOutcome}
    (h : BodyStep q o q') : q'.activeWatchCount = q.activeWatchCount := by
  rw [RunningProgram.activeWatchCount, h.watches, RunningProgram.activeWatchCount]

theorem BodyStep.recorded {q q' : RunningProgram} {o : StepOutcome} (h : BodyStep q o q') :
    q'.Recorded ↔ q.Recorded := by
  rw [RunningProgram.Recorded, h.watches, h.program, RunningProgram.Recorded]

inductive TickStep (id : ProgramId) (rp rp' : RunningProgram) (V : List (RunningProgram × Obs)) :
    Prop
  | stepped (q : RunningProgram) (o : StepOutcome) (sane : q.Sane) (step : BodyStep q o rp')
      (mem : (q, .stepped id q.cursor o) ∈ V)
      (sole : ∀ x ∈ V, ∀ k o', x.2 = .stepped id k o' → x = (q, .stepped id q.cursor o))
  | idle (sane : rp'.Sane) (running : rp'.state ≠ .running)
      (completed : rp'.state = .completed → rp' = rp)
      (none : ∀ x ∈ V, ∀ k o, x.2 ≠ .stepped id k o)

section Tick
variable {σ τ : Type} (B : Backends σ τ) (tk : Tick) (id : ProgramId) {rp : RunningProgram}

theorem not_stepped {os : List (RunningProgram × Obs)} (h : verdicts id os = []) :
    ∀ x ∈ os, ∀ k o, x.2 ≠ .stepped id k o := by
  intro x hx k o heq
  have hnone := List.filterMap_eq_nil_iff.mp h x hx
  rw [heq] at hnone
  simp [Obs.verdictOn] at hnone

theorem firePart_fails (env : Env σ τ) (loser : Option ProgramId) (e : ProgEval) :
    (firePart B tk id env loser e rp).1.state = rp.state ∨
      (firePart B tk id env loser e rp).1.state = .failed := by
  have h := firePart_dispatched B tk id env rp loser e
  generalize firePart B tk id env loser e rp = r at h ⊢
  cases h with
  | idle | direct | deferred | done => exact .inl rfl
  | failed => exact .inr rfl

theorem settled_state (sur : Surroundings σ τ) (loser : Option ProgramId)
    (hrun : rp.state = .running) :
    (settled B tk id sur loser rp).state = .running ∨
      (settled B tk id sur loser rp).state = .failed := by
  rw [settled, Scheduler.settlePart_state, ← hrun]
  exact firePart_fails B tk id sur.fire loser _

theorem enterRunning_sane (nowMs : UnixMs) (h : rp.Sane) : (enterRunning nowMs rp).Sane := by
  constructor
  · have hfold : ∀ (is : List Nat) (m : Std.ExtTreeMap Nat WatchRuntime),
        (∀ i ∈ is, i < rp.program.watches.length) →
        (∀ idx ∈ m, idx < rp.program.watches.length) →
        ∀ idx ∈ is.foldl (fun m i => m.insert i {}) m, idx < rp.program.watches.length := by
      intro is
      induction is with
      | nil => exact fun m _ hm => hm
      | cons i is ih =>
        intro m his hm
        refine ih _ (fun j hj => his j (List.mem_cons_of_mem _ hj)) fun idx hidx => ?_
        rcases Std.ExtTreeMap.mem_insert.mp hidx with heq | hmem
        · rw [← Std.compare_eq_iff_eq.mp heq]
          exact his i List.mem_cons_self
        · exact hm idx hmem
    exact hfold _ _ (fun i hi => List.mem_range.mp hi) h.keys
  · intro hd
    exact Nat.lt_of_le_of_lt (Nat.zero_le _) (h.pending hd)

theorem triggerPart_sane (env : Env σ τ) (h : rp.Sane) : (triggerPart B tk id env rp).1.Sane := by
  rcases triggerPart_cases B tk id rp env with heq | ⟨_, heq | heq⟩
  · rw [heq]
    exact h
  · rw [heq]
    exact enterRunning_sane tk.nowMs h
  · rw [heq]
    exact ⟨h.keys, h.pending⟩

theorem runPart_steps (sur : Surroundings σ τ) (loser : Option ProgramId) (hs : rp.Sane)
    (hrun : rp.state = .running) (start : RunningProgram) :
    TickStep id start (runPart B tk id sur loser rp).1 (runPart B tk id sur loser rp).2 := by
  have heval : verdicts id (evalProgram B tk id rp sur.eval).1.seen = [] :=
    verdicts_map id rp (emits_evalWatches B tk id rp _ sur.eval)
  have hearly : ∀ x ∈ (evalProgram B tk id rp sur.eval).1.seen ++
      (firePart B tk id sur.fire loser (evalProgram B tk id rp sur.eval).1 rp).2.1, ∀ k o,
      x.2 ≠ .stepped id k o := by
    apply not_stepped
    rw [verdicts_append, heval, verdicts_firePart]
    rfl
  have hsane := settled_sane B tk id sur loser hs
  have hrec : (runPart B tk id sur loser rp).2 = ((evalProgram B tk id rp sur.eval).1.seen ++
      (firePart B tk id sur.fire loser (evalProgram B tk id rp sur.eval).1 rp).2.1) ++
      (bodyProgram B tk id (settled B tk id sur loser rp) sur.body).2.2 :=
    (List.append_assoc _ _ _).symm
  have hprog : (runPart B tk id sur loser rp).1 =
      (bodyProgram B tk id (settled B tk id sur loser rp) sur.body).1 := rfl
  rw [hrec, hprog]
  -- a program that failed in the firing stage has no body stage
  rcases settled_state B tk id sur loser hrun with hst | hst
  · obtain ⟨hmem, hsole⟩ := bodyProgram_verdict B tk id hst sur.body
    refine .stepped _ _ hsane (bodyProgram_step B tk id hsane hst sur.body)
      (List.mem_append_right _ hmem) fun x hx k o hk => ?_
    rcases List.mem_append.mp hx with hx | hx
    · exact absurd hk (hearly x hx k o)
    · exact hsole x hx k o hk
  · have hnot : (settled B tk id sur loser rp).state ≠ .running := by
      rw [hst]
      exact nofun
    have hidle : bodyProgram B tk id (settled B tk id sur loser rp) sur.body =
        (settled B tk id sur loser rp, sur.body, []) := if_neg hnot
    rw [hidle, List.append_nil]
    refine .idle hsane hnot (fun h => ?_) hearly
    exact nomatch hst.symm.trans h

theorem tickProgram_steps (sur : Surroundings σ τ) (loser : Option ProgramId) (hs : rp.Sane) :
    TickStep id rp (tickProgram B tk id sur loser rp).1 (tickProgram B tk id sur loser rp).2 := by
  have hearly := not_stepped id (verdicts_triggerPart B tk id rp sur.trigger)
  have hsane := triggerPart_sane B tk id sur.trigger hs
  unfold tickProgram
  dsimp only
  split_ifs with hrun
  · cases runPart_steps B tk id sur loser hsane hrun rp with
    | stepped q o hq hstep hmem hsole =>
      refine .stepped q o hq hstep (List.mem_append_right _ hmem) fun x hx k o' hk => ?_
      rcases List.mem_append.mp hx with hx | hx
      · exact absurd hk (hearly x hx k o')
      · exact hsole x hx k o' hk
    | idle hsane' hnot hdone hnone =>
      refine .idle hsane' hnot hdone fun x hx => ?_
      rcases List.mem_append.mp hx with hx | hx
      · exact hearly x hx
      · exact hnone x hx
  · refine .idle hsane hrun (fun h => ?_) hearly
    rcases triggerPart_cases B tk id rp sur.trigger with heq | ⟨_, heq | heq⟩
    · exact heq
    · rw [heq] at h
      exact nomatch h
    · rw [heq] at h
      exact nomatch h

end Tick

section Local
variable {σ τ : Type} {B : Backends σ τ} {p : ProgramId} {v : Option RunningProgram}
  {a : LocalInput σ τ} {rp' : RunningProgram}

theorem TickStep.sane {rp : RunningProgram} {V : List (RunningProgram × Obs)}
    (h : TickStep p rp rp' V) : rp'.Sane := by
  cases h with
  | stepped q o hq hstep => exact hstep.sane hq
  | idle hsane => exact hsane

theorem localStep_sane (h : ∀ rp, v = some rp → rp.Sane)
    (hrp' : (localStep B p v a).1 = some rp') : rp'.Sane := by
  have hmove := localStep_move (B := B) (p := p) v a
  generalize localStep B p v a = r at hmove hrp'
  cases hmove with
  | idle => exact h rp' hrp'
  | submitted | resumed =>
    rw [← Option.some.inj hrp']
    exact ⟨fun idx hidx => absurd hidx Std.ExtTreeMap.not_mem_empty, fun hd => absurd rfl hd⟩
  | cancelled rp _ _ hv | started rp _ hv =>
    rw [← Option.some.inj hrp']
    exact ⟨(h rp hv).keys, (h rp hv).pending⟩
  | ticked rp t frame hv =>
    rw [← Option.some.inj hrp']
    exact (tickProgram_steps B ⟨frame, t.nowMs⟩ p a.sur a.loser (h rp hv)).sane

end Local

namespace Scheduler

variable {σ τ : Type}

/-- In a tick, a program that takes a body step completes exactly when it has come to the end of
its body and all its watches are retired; other programs do not complete. No program that runs
on after a captured tick has come to its end. -/
structure CompletesExactly (B : Backends σ τ) (s : Scheduler σ τ) (t : TickInput) : Prop where
  stepped : ∀ m ∈ (step B s (.tick t)).2, ∀ p k o rp', m.obs = .stepped p k o →
    (step B s (.tick t)).1.programs.lookup p = some rp' →
    (rp'.state = .completed ↔ rp'.Exhausted ∧ rp'.AllRetired)
  others : ∀ p rp', (∀ m ∈ (step B s (.tick t)).2, ∀ k o, m.obs ≠ .stepped p k o) →
    (step B s (.tick t)).1.programs.lookup p = some rp' → rp'.state = .completed →
    s.programs.lookup p = some rp'
  running : t.capture ≠ none → ∀ p rp',
    (step B s (.tick t)).1.programs.lookup p = some rp' → rp'.state = .running →
    ¬ (rp'.Exhausted ∧ rp'.AllRetired)

def EndsRecorded (B : Backends σ τ) (s : Scheduler σ τ) (t : TickInput) : Prop :=
  ∀ m ∈ (step B s (.tick t)).2, ∀ p k o q, m.obs = .stepped p k o →
    m.live.lookup p = some q → Ends q o → q.activeWatchCount = 0 → q.Recorded

variable {B : Backends σ τ} {s : Scheduler σ τ} {p : ProgramId} {rp rp' : RunningProgram}

def AllSane (programs : ProgramMap) : Prop := ∀ p rp, programs.lookup p = some rp → rp.Sane

theorem step_sane (i : Input) (h : AllSane s.programs) : AllSane (step B s i).1.programs := by
  intro q rp' hrp'
  obtain ⟨a, _, hlook, _⟩ := step_project (B := B) (s := s) (p := q) i
  exact localStep_sane (h q) (hlook.symm.trans hrp')

theorem run_sane (env : Env σ τ) (is : List Input) :
    AllSane (run (step B) (new env) is).1.programs := by
  apply run_invariant (I := fun s : Scheduler σ τ => AllSane s.programs)
  · exact fun s i _ h => step_sane i h
  · intro p rp hrp
    have hnone : (new env).programs.lookup p = none := AList.lookup_empty p
    exact nomatch hnone.symm.trans hrp

section Captured
variable {t : TickInput} {frame : Frame} {V : List (RunningProgram × Obs)}

/-- A captured tick of the scheduler is a tick of each program in its map. -/
theorem tick_steps (h : AllSane s.programs) (hc : t.capture = some frame) (p : ProgramId) :
    (s.programs.lookup p = none ∧ (step B s (.tick t)).1.programs.lookup p = none ∧
        traceOf p (step B s (.tick t)).2 = []) ∨
      ∃ rp rp' V, s.programs.lookup p = some rp ∧
        (step B s (.tick t)).1.programs.lookup p = some rp' ∧
        traceOf p (step B s (.tick t)).2 = moments t.nowMs V ∧ TickStep p rp rp' V := by
  obtain ⟨⟨input, sur, loser⟩, rfl, hlook, htrace⟩ :=
    step_project (B := B) (s := s) (p := p) (.tick t)
  simp only [localStep, hc] at hlook htrace
  cases hrp : s.programs.lookup p with
  | none =>
    rw [hrp] at hlook htrace
    exact .inl ⟨rfl, hlook, htrace⟩
  | some rp =>
    rw [hrp] at hlook htrace
    exact .inr ⟨rp, _, _, rfl, hlook, htrace,
      tickProgram_steps B ⟨frame, t.nowMs⟩ p sur loser (h p rp hrp)⟩

theorem mem_of_moments (htrace : traceOf p (step B s (.tick t)).2 = moments t.nowMs V)
    {m : Moment ProgramMap} (hm : m ∈ (step B s (.tick t)).2) (hsub : m.obs.subject = some p) :
    ∃ q, m.live.lookup p = some q ∧ (q, m.obs) ∈ V := by
  have hmem : m.of p ∈ traceOf p (step B s (.tick t)).2 := mem_traceOf.mpr ⟨m, hm, hsub, rfl⟩
  rw [htrace] at hmem
  obtain ⟨⟨q, o⟩, hx, heq⟩ := List.mem_map.mp hmem
  have hobs : o = m.obs := congrArg Moment.obs heq
  have hlive : some q = m.live.lookup p := congrArg Moment.live heq
  exact ⟨q, hlive.symm, hobs ▸ hx⟩

theorem moment_of_mem (htrace : traceOf p (step B s (.tick t)).2 = moments t.nowMs V)
    {q : RunningProgram} {o : Obs} (hx : (q, o) ∈ V) :
    ∃ m ∈ (step B s (.tick t)).2, m.live.lookup p = some q ∧ m.obs = o := by
  have hmem : ⟨t.nowMs, some q, o⟩ ∈ moments t.nowMs V := List.mem_map.mpr ⟨(q, o), hx, rfl⟩
  rw [← htrace] at hmem
  obtain ⟨m, hm, _, heq⟩ := mem_traceOf.mp hmem
  exact ⟨m, hm, congrArg Moment.live heq, congrArg Moment.obs heq⟩

theorem stepped_of_moment (h : AllSane s.programs) (hc : t.capture = some frame)
    {m : Moment ProgramMap} (hm : m ∈ (step B s (.tick t)).2) {k : Nat} {o : StepOutcome}
    (hobs : m.obs = .stepped p k o) :
    ∃ q rp', m.live.lookup p = some q ∧
      (step B s (.tick t)).1.programs.lookup p = some rp' ∧ q.Sane ∧ BodyStep q o rp' := by
  have hsub : m.obs.subject = some p := by
    rw [hobs]
    rfl
  rcases tick_steps (B := B) h hc p with ⟨_, _, hnil⟩ | ⟨rp, rp', V, _, hlook, htrace, hstep⟩
  · have hmem : m.of p ∈ traceOf p (step B s (.tick t)).2 := mem_traceOf.mpr ⟨m, hm, hsub, rfl⟩
    rw [hnil] at hmem
    exact absurd hmem List.not_mem_nil
  · obtain ⟨q, hlive, hmem⟩ := mem_of_moments htrace hm hsub
    rw [hobs] at hmem
    cases hstep with
    | stepped q₀ o₀ hsane hbody _ hsole =>
      have heq := hsole _ hmem k o rfl
      obtain rfl : q = q₀ := congrArg Prod.fst heq
      obtain ⟨_, _, rfl⟩ := Obs.stepped.inj (congrArg Prod.snd heq)
      exact ⟨q, rp', hlive, hlook, hsane, hbody⟩
    | idle _ _ _ hnone => exact absurd rfl (hnone _ hmem k o)

end Captured

theorem endsRecorded_of_exact {t : TickInput} (h : AllSane s.programs)
    (hexact : CompletesExactly B s t) : EndsRecorded B s t := by
  cases hc : t.capture with
  | none =>
    intro m hm p k o q hobs
    simp only [step, tickOnce, hc] at hm
    rw [List.mem_singleton.mp hm] at hobs
    cases hobs
  | some frame =>
    intro m hm p k o q hobs hlive hends hactive
    obtain ⟨q₀, rp', hlive', hlook, hsane, hbody⟩ := stepped_of_moment h hc hm hobs
    obtain rfl := Option.some.inj (hlive.symm.trans hlive')
    have hdone : rp'.state = .completed :=
      hbody.completes.mpr ⟨hbody.ends.mpr hends, by rw [hbody.activeWatchCount, hactive]⟩
    have hall := ((hexact.stepped m hm p k o rp' hobs hlook).mp hdone).2
    exact hbody.recorded.mp ((allRetired_iff (hbody.sane hsane)).mp hall).2

theorem exact_of_endsRecorded {t : TickInput} (h : AllSane s.programs)
    -- without a capture the tick skips its frame and leaves the programs as they are
    (hrec : EndsRecorded B s t) : CompletesExactly B s t := by
  cases hc : t.capture with
  | none =>
    refine ⟨?_, ?_, fun hcap => absurd hc hcap⟩
    · intro m hm p k o rp' hobs
      simp only [step, tickOnce, hc] at hm
      rw [List.mem_singleton.mp hm] at hobs
      cases hobs
    · intro p rp' _ hlook _
      simpa only [step, tickOnce, hc] using hlook
  | some frame =>
    refine ⟨?_, ?_, fun _ => ?_⟩
    · intro m hm p k o rp' hobs hlook
      obtain ⟨q, rp'', hlive, hlook', hsane, hbody⟩ := stepped_of_moment h hc hm hobs
      obtain rfl := Option.some.inj (hlook.symm.trans hlook')
      rw [hbody.completes, allRetired_iff (hbody.sane hsane)]
      constructor
      · rintro ⟨hex, hactive⟩
        refine ⟨hex, hactive, hbody.recorded.mpr ?_⟩
        exact hrec m hm p k o q hobs hlive (hbody.ends.mp hex) (hbody.activeWatchCount ▸ hactive)
      · exact fun hall => ⟨hall.1, hall.2.1⟩
    · intro p rp' hnone hlook hdone
      rcases tick_steps (B := B) h hc p with ⟨_, hlook', _⟩ | ⟨rp, rp'', V, hrp, hlook', htrace, hstep⟩
      · cases hlook'.symm.trans hlook
      · obtain rfl := Option.some.inj (hlook.symm.trans hlook')
        cases hstep with
        | stepped q o _ _ hmem =>
          obtain ⟨m, hm, _, hobs⟩ := moment_of_mem htrace hmem
          exact absurd hobs (hnone m hm _ _)
        | idle _ _ hsame => rw [hrp, hsame hdone]
    · intro p rp' hlook hrun
      rcases tick_steps (B := B) h hc p with ⟨_, hlook', _⟩ | ⟨rp, rp'', V, _, hlook', _, hstep⟩
      · cases hlook'.symm.trans hlook
      · obtain rfl := Option.some.inj (hlook.symm.trans hlook')
        cases hstep with
        | stepped q o hsane hbody =>
          rw [allRetired_iff (hbody.sane hsane)]
          rintro ⟨hex, hactive, _⟩
          cases hrun.symm.trans (hbody.completes.mpr ⟨hex, hactive⟩)
        | idle _ hnot => exact absurd hrun hnot

/-- Every tick of every run. -/
theorem completion_exact_iff (B : Backends σ τ) (env : Env σ τ) (is : List Input) (t : TickInput) :
    CompletesExactly B (run (step B) (new env) is).1 t ↔
      EndsRecorded B (run (step B) (new env) is).1 t :=
  ⟨endsRecorded_of_exact (run_sane env is), exact_of_endsRecorded (run_sane env is)⟩

def startedByHand : List Input :=
  [.command (.submitValidated ⟨1⟩ { Program.blank "demo" with
      trigger := .manual
      predicates := (∅ : Predicates).insert "x" (.colorAt ⟨5, 5⟩ ⟨0, 0, 0⟩ 0)
      watches := [⟨.byName "x", [], 0, .persistent⟩] } ∅) 0,
    .command (.start ⟨1⟩) 5]

/-- Its watch cannot be evaluated in the first tick, and the program completes without it. -/
theorem completes_before_its_watch :
    ¬ ∀ t, CompletesExactly (Backends.constant (.error .regionOutOfBounds))
      (run (step (Backends.constant (.error .regionOutOfBounds))) (new ⟨(), ()⟩) startedByHand).1
      t := by
  intro h
  have hstep := (h (.plain .dot 10)).stepped _ (List.mem_of_getElem? (i := 1) rfl) ⟨1⟩ 0
    .bodyComplete _ rfl rfl
  have hretired := (hstep.mp rfl).2 0 (by decide)
  exact nomatch hretired

end Scheduler

end Vcli

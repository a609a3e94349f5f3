import Vcli.Lib.Keyed
import Vcli.Runtime.Ownership

/-! A tick seen by one program. The programs of a tick meet only in the shared backends and
in the arbitration, so what a tick does to a program is what `tickProgram` does to it for
some environments and the verdict of the arbiter. -/

namespace Vcli

open Transducer

def Moment.of (id : ProgramId) (m : Moment ProgramMap) : Moment (Option RunningProgram) :=
  ⟨m.nowMs, m.live.lookup id, m.obs⟩

def Moment.mine {L : Type} (id : ProgramId) (m : Moment L) : Bool :=
  decide (m.obs.subject = some id)

def traceOf (id : ProgramId) (ms : List (Moment ProgramMap)) :
    List (Moment (Option RunningProgram)) :=
  (ms.filter (Moment.mine id)).map (Moment.of id)

def moments (nowMs : UnixMs) (os : List (RunningProgram × Obs)) :
    List (Moment (Option RunningProgram)) :=
  os.map fun o => ⟨nowMs, some o.1, o.2⟩

@[simp] theorem traceOf_nil (id : ProgramId) : traceOf id [] = [] := rfl

@[simp] theorem traceOf_append (id : ProgramId) (l r : List (Moment ProgramMap)) :
    traceOf id (l ++ r) = traceOf id l ++ traceOf id r := by
  simp [traceOf]

@[simp] theorem moments_append (nowMs : UnixMs) (l r : List (RunningProgram × Obs)) :
    moments nowMs (l ++ r) = moments nowMs l ++ moments nowMs r := by
  simp [moments]

theorem traceOf_eq_nil {id : ProgramId} {ms : List (Moment ProgramMap)}
    (h : ms.filter (Moment.mine id) = []) : traceOf id ms = [] := by
  rw [traceOf, h, List.map_nil]

theorem traceOf_cons {id : ProgramId} {m : Moment ProgramMap} (h : m.obs.subject = some id)
    (ms : List (Moment ProgramMap)) : traceOf id (m :: ms) = m.of id :: traceOf id ms := by
  have hmine : Moment.mine id m = true := decide_eq_true h
  rw [traceOf, List.filter_cons_of_pos hmine, List.map_cons, traceOf]

theorem mem_traceOf {id : ProgramId} {ms : List (Moment ProgramMap)}
    {x : Moment (Option RunningProgram)} :
    x ∈ traceOf id ms ↔ ∃ m ∈ ms, m.obs.subject = some id ∧ m.of id = x := by
  simp only [traceOf, List.mem_map, List.mem_filter, Moment.mine, decide_eq_true_eq, and_assoc]

theorem filterMap_traceOf {α : Type} {id : ProgramId} {f : Obs → Option α}
    (hf : ∀ o a, f o = some a → o.subject = some id) (ms : List (Moment ProgramMap)) :
    ms.filterMap (fun m => f m.obs) = (traceOf id ms).filterMap fun m => f m.obs := by
  induction ms with
  | nil => rfl
  | cons m ms ih =>
    by_cases hm : m.obs.subject = some id
    · rw [traceOf_cons hm, List.filterMap_cons, List.filterMap_cons, ih]
      rfl
    · have hnone : f m.obs = none :=
        Option.eq_none_iff_forall_not_mem.mpr fun a ha => hm (hf m.obs a ha)
      have hmine : Moment.mine id m = false := decide_eq_false hm
      have hdrop : traceOf id (m :: ms) = traceOf id ms := by
        rw [traceOf, traceOf, List.filter_cons_of_neg (by rw [hmine]; exact Bool.false_ne_true)]
      rw [hdrop, List.filterMap_cons, hnone, ih]

section Machine
variable {σ τ : Type} (B : Backends σ τ) (tk : Tick) (id : ProgramId)

/-- The environments in which the stages of a tick reached one program. -/
structure Surroundings (σ τ : Type) where
  trigger : Env σ τ
  eval : Env σ τ
  fire : Env σ τ
  body : Env σ τ

def triggerPart (env : Env σ τ) (rp : RunningProgram) : RunningProgram × List (RunningProgram × Obs) :=
  if rp.state = .waiting then
    ((triggerProgram B tk id rp env).1, (triggerProgram B tk id rp env).2.2)
  else (rp, [])

/-- The first firing of a program, direct, dispatched or deferred; the last component is
the watch that has fired. -/
def firePart (env : Env σ τ) (loser : Option ProgramId) (e : ProgEval) (rp : RunningProgram) :
    RunningProgram × List (RunningProgram × Obs) × Option Nat :=
  match e.fires with
  | [] => (rp, [], none)
  | f :: _ =>
    if f.steps = [] then (rp, (directProgram id f rp env).2.2, some f.watch)
    else match loser with
      | some winner => (rp, (deferProgram id f winner rp env).2.2, none)
      | none =>
        ((dispatchProgram B tk id f rp env).1, (dispatchProgram B tk id f rp env).2.2,
          if (dispatchSteps B tk (rp.caller id) f.steps env).1.isSome then none
          else some f.watch)

section Fire
variable {e : ProgEval} {f : WatchFire} {fs : List WatchFire} (env : Env σ τ) (rp : RunningProgram)

theorem firePart_nil (loser : Option ProgramId) (hf : e.fires = []) :
    firePart B tk id env loser e rp = (rp, [], none) := by
  simp only [firePart, hf]

theorem firePart_direct (loser : Option ProgramId) (hf : e.fires = f :: fs) (hs : f.steps = []) :
    firePart B tk id env loser e rp = (rp, (directProgram id f rp env).2.2, some f.watch) := by
  simp only [firePart, hf, hs, if_true]

theorem firePart_defer (winner : ProgramId) (hf : e.fires = f :: fs) (hs : f.steps ≠ []) :
    firePart B tk id env (some winner) e rp =
      (rp, (deferProgram id f winner rp env).2.2, none) := by
  simp only [firePart, hf, hs, if_false]

theorem firePart_dispatch (hf : e.fires = f :: fs) (hs : f.steps ≠ []) :
    firePart B tk id env none e rp =
      ((dispatchProgram B tk id f rp env).1, (dispatchProgram B tk id f rp env).2.2,
        if (dispatchSteps B tk (rp.caller id) f.steps env).1.isSome then none
        else some f.watch) := by
  simp only [firePart, hf, hs, if_false]

/-- What the dispatch stages do with the first firing of a program: nothing, if there is none; what
`dispatch_fire` does alone, without steps; a deferral; or its steps, with a failure or without. -/
inductive Dispatched (loser : Option ProgramId) (e : ProgEval) :
    RunningProgram × List (RunningProgram × Obs) × Option Nat → Prop
  | idle (hf : e.fires = []) : Dispatched loser e (rp, [], none)
  | direct (f : WatchFire) (fs : List WatchFire) (hf : e.fires = f :: fs) (hs : f.steps = []) :
    Dispatched loser e (rp, [(rp, .emitted (.watchFired id f.watch "watch"))], some f.watch)
  | deferred (f : WatchFire) (fs : List WatchFire) (winner : ProgramId) (hf : e.fires = f :: fs)
      (hs : f.steps ≠ []) (hl : loser = some winner) :
    Dispatched loser e (rp, [(rp, .emitted (.actionDeferred id (.array (f.steps.map Step.toValue))
      (.object [("conflict_with", .string winner.toString)])))], none)
  | failed (f : WatchFire) (fs : List WatchFire) (err : RuntimeError) (hf : e.fires = f :: fs)
      (hs : f.steps ≠ []) (hl : loser = none)
      (herr : (dispatchSteps B tk (rp.caller id) f.steps env).1 = some err) :
    Dispatched loser e ({ rp with state := .failed },
      (dispatchSteps B tk (rp.caller id) f.steps env).2.2.map (fun o => (rp, o)) ++
        [({ rp with state := .failed }, .emitted (.programFailed id err.code.asStr
          (some ("watch[" ++ toString f.watch ++ "]")) rp.program.onFail))], none)
  | done (f : WatchFire) (fs : List WatchFire) (hf : e.fires = f :: fs) (hs : f.steps ≠ [])
      (hl : loser = none) (hdone : (dispatchSteps B tk (rp.caller id) f.steps env).1 = none) :
    Dispatched loser e (rp,
      (dispatchSteps B tk (rp.caller id) f.steps env).2.2.map (fun o => (rp, o)) ++
        [(rp, .emitted (.watchFired id f.watch "watch"))], some f.watch)

theorem firePart_dispatched (loser : Option ProgramId) (e : ProgEval) :
    Dispatched B tk id env rp loser e (firePart B tk id env loser e rp) := by
  cases hf : e.fires with
  | nil =>
    rw [firePart_nil B tk id env rp loser hf]
    exact .idle hf
  | cons f fs =>
    by_cases hs : f.steps = []
    · rw [firePart_direct B tk id env rp loser hf hs]
      exact .direct f fs hf hs
    · cases loser with
      | some winner =>
        rw [firePart_defer B tk id env rp winner hf hs]
        exact .deferred f fs winner hf hs rfl
      | none =>
        rw [firePart_dispatch B tk id env rp hf hs]
        dsimp only [dispatchProgram]
        cases h : (dispatchSteps B tk (rp.caller id) f.steps env).1 with
        | some err => exact .failed f fs err hf hs rfl h
        | none => exact .done f fs hf hs rfl h

end Fire

def settlePart (e : ProgEval) (firedWatch : Option Nat) (rp : RunningProgram) : RunningProgram :=
  match firedWatch with
  | some idx => firedProgram tk.nowMs idx (updateProgram e rp)
  | none => updateProgram e rp

def runPart (sur : Surroundings σ τ) (loser : Option ProgramId) (rp : RunningProgram) :
    RunningProgram × List (RunningProgram × Obs) :=
  let e := (evalProgram B tk id rp sur.eval).1
  let f := firePart B tk id sur.fire loser e rp
  let b := bodyProgram B tk id (settlePart tk e f.2.2 f.1) sur.body
  (b.1, e.seen ++ (f.2.1 ++ b.2.2))

def tickProgram (sur : Surroundings σ τ) (loser : Option ProgramId) (rp : RunningProgram) :
    RunningProgram × List (RunningProgram × Obs) :=
  let t := triggerPart B tk id sur.trigger rp
  if t.1.state = .running then
    let r := runPart B tk id sur loser t.1
    (r.1, t.2 ++ r.2)
  else t

theorem tickProgram_inert (sur : Surroundings σ τ) (loser : Option ProgramId)
    (rp : RunningProgram) (hw : rp.state ≠ .waiting) (hr : rp.state ≠ .running) :
    tickProgram B tk id sur loser rp = (rp, []) := by
  simp only [tickProgram, triggerPart, if_neg hw, if_neg hr]

end Machine

namespace Scheduler

variable {σ τ : Type} {B : Backends σ τ} {tk : Tick} {order : List ProgramId}
  {s : Scheduler σ τ} {id p : ProgramId} {g : ProgramId → Stage σ τ} {nowMs : UnixMs}

theorem lift_none (h : s.programs.lookup id = none) : s.lift nowMs g id = (s, []) := by
  unfold lift
  rw [h]

theorem lift_some {rp : RunningProgram} (h : s.programs.lookup id = some rp) :
    s.lift nowMs g id = (⟨s.programs.insert id (g id rp s.env).1, (g id rp s.env).2.1⟩,
      (g id rp s.env).2.2.map fun o => ⟨nowMs, s.programs.insert id o.1, o.2⟩) := by
  unfold lift
  rw [h]

theorem lift_lookup_ne (h : id ≠ p) :
    (s.lift nowMs g id).1.programs.lookup p = s.programs.lookup p := by
  cases hid : s.programs.lookup id with
  | none => rw [lift_none hid]
  | some rp =>
    rw [lift_some hid]
    exact AList.lookup_insert_ne h.symm

theorem lift_lookup_self (nowMs : UnixMs) {rp : RunningProgram} (h : s.programs.lookup id = some rp) :
    (s.lift nowMs g id).1.programs.lookup id = some (g id rp s.env).1 := by
  rw [lift_some h]
  exact AList.lookup_insert _

theorem lift_filter_ne (hg : Stage.Owned g) (h : id ≠ p) :
    (s.lift nowMs g id).2.filter (Moment.mine p) = [] := by
  cases hid : s.programs.lookup id with
  | none => rw [lift_none hid]; rfl
  | some rp =>
    rw [lift_some hid, List.filter_eq_nil_iff]
    intro m hm hmine
    obtain ⟨o, ho, rfl⟩ := List.mem_map.mp hm
    have hsub : o.2.subject = some id := hg id rp s.env o ho
    have hp : o.2.subject = some p := of_decide_eq_true hmine
    exact h (Option.some.inj (hsub.symm.trans hp))

theorem lift_traceOf_self (nowMs : UnixMs) (hg : Stage.Owned g) {rp : RunningProgram}
    (h : s.programs.lookup id = some rp) :
    traceOf id (s.lift nowMs g id).2 = moments nowMs (g id rp s.env).2.2 := by
  have hall : ((g id rp s.env).2.2.map fun o =>
      (⟨nowMs, s.programs.insert id o.1, o.2⟩ : Moment ProgramMap)).filter (Moment.mine id) =
      (g id rp s.env).2.2.map fun o => ⟨nowMs, s.programs.insert id o.1, o.2⟩ := by
    rw [List.filter_eq_self]
    intro m hm
    obtain ⟨o, ho, rfl⟩ := List.mem_map.mp hm
    exact decide_eq_true (hg id rp s.env o ho)
  rw [lift_some h, traceOf, hall, List.map_map]
  apply List.map_congr_left
  intro o _
  simp only [Function.comp_apply, Moment.of, AList.lookup_insert]


section Stages
variable {rp : RunningProgram} {ids : List ProgramId}

theorem run_lift_absent (nowMs : UnixMs) (hg : Stage.Owned g) (hp : p ∉ ids) :
    (run (lift nowMs g) s ids).1.programs.lookup p = s.programs.lookup p ∧
      traceOf p (run (lift nowMs g) s ids).2 = [] := by
  have habs : Keyed.Absent (fun id => id) p ids := fun q hq h => hp (h ▸ hq)
  obtain ⟨hv, ho⟩ := run_absent (v := fun s : Scheduler σ τ => s.programs.lookup p)
    (m := Moment.mine p) habs (fun _ _ h => lift_lookup_ne h)
    (fun _ _ h => lift_filter_ne hg h) s
  exact ⟨hv, traceOf_eq_nil ho⟩

theorem traceOf_congr {l r : List (Moment ProgramMap)}
    (h : l.filter (Moment.mine p) = r.filter (Moment.mine p)) : traceOf p l = traceOf p r := by
  rw [traceOf, traceOf, h]

theorem run_lift_sole (nowMs : UnixMs) (hg : Stage.Owned g) (hn : ids.Nodup) (hp : p ∈ ids)
    (h : s.programs.lookup p = some rp) :
    ∃ env, (run (lift nowMs g) s ids).1.programs.lookup p = some (g p rp env).1 ∧
      traceOf p (run (lift nowMs g) s ids).2 = moments nowMs (g p rp env).2.2 := by
  have hsole : Keyed.Sole (fun id => id) p p ids :=
    Keyed.sole_of_nodup (by rwa [List.map_id']) hp
  obtain ⟨t, ht, hv, ho⟩ := run_sole (v := fun s : Scheduler σ τ => s.programs.lookup p)
    (m := Moment.mine p) hsole (fun _ _ h => lift_lookup_ne h)
    (fun _ _ h => lift_filter_ne hg h) s
  have hrp : t.programs.lookup p = some rp := ht.trans h
  refine ⟨t.env, hv.trans (lift_lookup_self _ hrp), ?_⟩
  rw [traceOf_congr ho]
  exact lift_traceOf_self _ hg hrp

theorem stateIs_iff {st : ProgramState} (h : s.programs.lookup p = some rp) :
    s.stateIs st p = true ↔ rp.state = st := by
  unfold stateIs
  rw [h]
  exact decide_eq_true_iff

theorem not_stateIs {st : ProgramState} (h : s.programs.lookup p = none) :
    ¬ s.stateIs st p = true := by
  unfold stateIs
  rw [h]
  exact Bool.false_ne_true

theorem triggered_project (B : Backends σ τ) (tk : Tick) (hn : order.Nodup) (hp : p ∈ order)
    (h : s.programs.lookup p = some rp) :
    ∃ env, (triggered B tk order s).1.programs.lookup p = some (triggerPart B tk p env rp).1 ∧
      traceOf p (triggered B tk order s).2 = moments tk.nowMs (triggerPart B tk p env rp).2 := by
  have hrp : (s.cleared B).programs.lookup p = some rp := h
  by_cases hw : rp.state = .waiting
  · have hmem : p ∈ order.filter ((s.cleared B).stateIs .waiting) :=
      List.mem_filter.mpr ⟨hp, (stateIs_iff hrp).mpr hw⟩
    obtain ⟨env, hl, ht⟩ := run_lift_sole tk.nowMs owned_triggerProgram
      (hn.filter _) hmem hrp
    refine ⟨env, ?_, ?_⟩
    · rw [triggerPart, if_pos hw]
      exact hl
    · rw [triggerPart, if_pos hw]
      exact ht
  · have hmem : p ∉ order.filter ((s.cleared B).stateIs .waiting) :=
      fun hm => hw ((stateIs_iff hrp).mp (List.mem_filter.mp hm).2)
    obtain ⟨hl, ht⟩ := run_lift_absent tk.nowMs (g := triggerProgram B tk)
      owned_triggerProgram hmem
    refine ⟨s.env, ?_, ?_⟩
    · rw [triggerPart, if_neg hw]
      exact hl.trans hrp
    · rw [triggerPart, if_neg hw]
      exact ht

theorem evalOne_programs : (evalOne B tk s id).1.programs = s.programs := by
  unfold evalOne
  cases s.programs.lookup id <;> rfl

theorem evalOne_id {e : ProgEval} (h : e ∈ (evalOne B tk s id).2) : e.id = id := by
  unfold evalOne at h
  cases hid : s.programs.lookup id with
  | none => simp [hid] at h
  | some rp =>
    rw [hid] at h
    rw [List.mem_singleton.mp h]
    rfl

theorem evaluated_programs :
    (evaluated B tk order s).1.programs = (triggered B tk order s).1.programs :=
  run_invariant (I := fun t : Scheduler σ τ => t.programs = (triggered B tk order s).1.programs)
    (fun _ _ _ h => evalOne_programs.trans h) rfl

theorem mem_evaluated {e : ProgEval} (h : e ∈ (evaluated B tk order s).2) :
    ∃ rp env, (triggered B tk order s).1.programs.lookup e.id = some rp ∧
      e.id ∈ runningIds B tk order s ∧ e = (evalProgram B tk e.id rp env).1 := by
  obtain ⟨r, hr, he⟩ := mem_run_iff.mp h
  have hprog : r.1.programs = (triggered B tk order s).1.programs :=
    trail_invariant (I := fun t : Scheduler σ τ =>
      t.programs = (triggered B tk order s).1.programs) rfl
      (fun _ _ h => evalOne_programs.trans h) r hr
  have hid := evalOne_id he
  unfold evalOne at he
  cases hl : r.1.programs.lookup r.2 with
  | none => simp [hl] at he
  | some rp =>
    rw [hl] at he
    refine ⟨rp, r.1.env, ?_, ?_, ?_⟩
    · rw [hid, ← hprog, hl]
    · rw [hid]
      exact mem_of_mem_trail hr
    · rw [hid]
      exact List.mem_singleton.mp he

theorem evaluated_owned :
    ∀ e ∈ (evaluated B tk order s).2, ∀ o ∈ e.seen, o.2.Of e.id := by
  intro e he
  obtain ⟨rp, env, -, -, heq⟩ := mem_evaluated he
  rw [heq]
  exact owned_evalProgram e.id rp env

theorem evalOne_filter_ne (h : id ≠ p) :
    (evalOne B tk s id).2.filter (fun e => decide (e.id = p)) = [] := by
  rw [List.filter_eq_nil_iff]
  intro e he hp
  exact h ((evalOne_id he).symm.trans (of_decide_eq_true hp))

theorem evaluated_absent (h : p ∉ runningIds B tk order s) :
    Keyed.Absent ProgEval.id p (evaluated B tk order s).2 := by
  intro e he hid
  obtain ⟨_, _, _, hrun, _⟩ := mem_evaluated he
  exact h (hid ▸ hrun)

theorem evaluated_sole (hn : order.Nodup) (hp : p ∈ runningIds B tk order s)
    (h : (triggered B tk order s).1.programs.lookup p = some rp) :
    ∃ env, Keyed.Sole ProgEval.id p (evalProgram B tk p rp env).1 (evaluated B tk order s).2 := by
  have hsole : Keyed.Sole (fun id => id) p p (runningIds B tk order s) :=
    Keyed.sole_of_nodup (by rw [List.map_id']; exact hn.filter _) hp
  obtain ⟨t, ht, _, ho⟩ := run_sole (v := fun s : Scheduler σ τ => s.programs)
    (m := fun e => decide (e.id = p)) hsole (fun _ _ _ => evalOne_programs)
    (fun _ _ h => evalOne_filter_ne h) (triggered B tk order s).1
  refine ⟨t.env, Keyed.sole_of_filter ProgEval.id (ho.trans ?_)⟩
  unfold evalOne
  rw [ht, h]
  exact List.filter_cons_of_pos (decide_eq_true rfl)

theorem traceOf_evalMoments_eq_nil (tk : Tick) (programs : ProgramMap) {evals : List ProgEval}
    (hown : ∀ e ∈ evals, ∀ o ∈ e.seen, o.2.Of e.id) (habs : Keyed.Absent ProgEval.id p evals) :
    traceOf p (evalMoments tk programs evals) = [] := by
  apply traceOf_eq_nil
  rw [List.filter_eq_nil_iff]
  intro m hm hmine
  obtain ⟨e, he, hme⟩ := List.mem_flatMap.mp hm
  obtain ⟨o, ho, rfl⟩ := List.mem_map.mp hme
  have hsub : o.2.subject = some e.id := hown e he o ho
  have hp : o.2.subject = some p := of_decide_eq_true hmine
  exact habs e he (Option.some.inj (hsub.symm.trans hp))

theorem traceOf_evalMoments (tk : Tick) (programs : ProgramMap) {evals : List ProgEval} {e : ProgEval}
    (hown : ∀ e ∈ evals, ∀ o ∈ e.seen, o.2.Of e.id) (hsole : Keyed.Sole ProgEval.id p e evals)
    (hp : e.id = p) : traceOf p (evalMoments tk programs evals) = moments tk.nowMs e.seen := by
  obtain ⟨l, r, rfl, hne⟩ := hsole
  have hl := traceOf_evalMoments_eq_nil tk programs (p := p)
    (fun e he => hown e (List.mem_append_left _ he)) (fun e he => hne e (List.mem_append_left _ he))
  have hr := traceOf_evalMoments_eq_nil tk programs (p := p)
    (fun e he => hown e (List.mem_append_right _ (List.mem_cons_of_mem _ he)))
    (fun e he => hne e (List.mem_append_right _ he))
  have hsplit : evalMoments tk programs (l ++ e :: r) = evalMoments tk programs l ++
      ((e.seen.map fun o => ⟨tk.nowMs, programs.insert e.id o.1, o.2⟩) ++
        evalMoments tk programs r) := by
    simp only [evalMoments, List.flatMap_append, List.flatMap_cons]
  have hmid : traceOf p (e.seen.map fun o => ⟨tk.nowMs, programs.insert e.id o.1, o.2⟩) =
      moments tk.nowMs e.seen := by
    rw [traceOf, List.filter_eq_self.mpr, List.map_map]
    · apply List.map_congr_left
      intro o _
      simp only [Function.comp_apply, Moment.of, ← hp, AList.lookup_insert]
    · intro m hm
      obtain ⟨o, ho, rfl⟩ := List.mem_map.mp hm
      have hof := hown e (List.mem_append_right _ List.mem_cons_self) o ho
      rw [hp] at hof
      exact decide_eq_true hof
  rw [hsplit, traceOf_append, traceOf_append, hl, hmid, hr, List.append_nil, List.nil_append]

def Dispatching.of (p : ProgramId) (d : Dispatching σ τ) :
    Option RunningProgram × List (ProgramId × Nat) × Bool :=
  (d.sched.programs.lookup p, d.dispatched.filter (fun f => decide (f.1 = p)),
    decide (p ∈ d.failed))

variable {d : Dispatching σ τ} {f : ProgramId × WatchFire} {dec : Arbiter.Decision WatchFire}

theorem directOne_of_ne (h : f.1 ≠ p) : (directOne tk d f).1.of p = d.of p := by
  have hfilter : (d.dispatched ++ [(f.1, f.2.watch)]).filter (fun f => decide (f.1 = p)) =
      d.dispatched.filter (fun f => decide (f.1 = p)) := by simp [h]
  exact Prod.ext (lift_lookup_ne h) (Prod.ext hfilter rfl)

theorem directOne_filter_ne (h : f.1 ≠ p) : (directOne tk d f).2.filter (Moment.mine p) = [] :=
  lift_filter_ne (owned_directProgram f.2) h

theorem dispatchOne_of_ne (h : dec.programId ≠ p) :
    (dispatchOne B tk d dec).1.of p = d.of p := by
  unfold dispatchOne
  split_ifs
  · have hfailed : decide (p ∈ d.failed ++ [dec.programId]) = decide (p ∈ d.failed) := by
      simp [h.symm]
    exact Prod.ext (lift_lookup_ne h) (Prod.ext rfl hfailed)
  · have hfilter : (d.dispatched ++ [(dec.programId, dec.payload.watch)]).filter
        (fun f => decide (f.1 = p)) = d.dispatched.filter (fun f => decide (f.1 = p)) := by
      simp [h]
    exact Prod.ext (lift_lookup_ne h) (Prod.ext hfilter rfl)
  · cases dec.loserOf with
    | none => rfl
    | some winner => exact Prod.ext (lift_lookup_ne h) rfl

theorem dispatchOne_filter_ne (h : dec.programId ≠ p) :
    (dispatchOne B tk d dec).2.filter (Moment.mine p) = [] := by
  unfold dispatchOne
  split_ifs
  · exact lift_filter_ne (owned_dispatchProgram _ _ _) h
  · exact lift_filter_ne (owned_dispatchProgram _ _ _) h
  · cases dec.loserOf with
    | none => rfl
    | some winner => exact lift_filter_ne (owned_deferProgram _ _) h

theorem directFires_key {e : ProgEval} {x : ProgramId × WatchFire}
    (h : (match e.fires with
      | [] => none
      | f :: _ => if f.steps = [] then some (e.id, f) else none) = some x) : x.1 = e.id := by
  cases hf : e.fires with
  | nil => simp [hf] at h
  | cons f fs =>
    by_cases hs : f.steps = []
    · simp only [hf, hs, if_true, Option.some.injEq] at h
      rw [← h]
    · simp [hf, hs] at h

theorem candidates_key {e : ProgEval} {x : Arbiter.Candidate WatchFire}
    (h : (match e.fires with
      | [] => none
      | f :: _ => if f.steps = [] then none else some ⟨e.id, e.priority, f⟩) = some x) :
    x.programId = e.id := by
  cases hf : e.fires with
  | nil => simp [hf] at h
  | cons f fs =>
    by_cases hs : f.steps = []
    · simp [hf, hs] at h
    · simp only [hf, hs, if_false, Option.some.injEq] at h
      rw [← h]

def verdict (B : Backends σ τ) (tk : Tick) (order : List ProgramId) (s : Scheduler σ τ)
    (p : ProgramId) : Option ProgramId :=
  Arbiter.loserOf (candidates (evaluated B tk order s).2) p

theorem fired_absent (B : Backends σ τ) (tk : Tick) (order : List ProgramId)
    (s : Scheduler σ τ)
    (h : Keyed.Absent Prod.fst p (directFires (evaluated B tk order s).2)) :
    (fired B tk order s).1.of p = ((evaluated B tk order s).1.programs.lookup p, [], false) ∧
      traceOf p (fired B tk order s).2 = [] := by
  obtain ⟨hv, ho⟩ := run_absent (f := directOne tk) (v := Dispatching.of p)
    (m := Moment.mine p) h (fun _ _ h => directOne_of_ne h)
    (fun _ _ h => directOne_filter_ne h) ⟨(evaluated B tk order s).1, [], []⟩
  exact ⟨hv.trans rfl, traceOf_eq_nil ho⟩

theorem dispatched_absent (B : Backends σ τ) (tk : Tick) (order : List ProgramId)
    (s : Scheduler σ τ)
    (h : Keyed.Absent Arbiter.Candidate.programId p (candidates (evaluated B tk order s).2)) :
    (dispatched B tk order s).1.of p = (fired B tk order s).1.of p ∧
      traceOf p (dispatched B tk order s).2 = [] := by
  have habs : Keyed.Absent Arbiter.Decision.programId p (decisions B tk order s) := by
    rw [decisions, Arbiter.resolve_eq_map]
    exact h.map fun _ => rfl
  obtain ⟨hv, ho⟩ := run_absent (f := dispatchOne B tk) (v := Dispatching.of p)
    (m := Moment.mine p) habs (fun _ _ h => dispatchOne_of_ne h)
    (fun _ _ h => dispatchOne_filter_ne h) (fired B tk order s).1
  exact ⟨hv, traceOf_eq_nil ho⟩

/-- The dispatch stages have made `r` of a program: the program itself, the watch that has
fired, and a failure mark only on a failed program. -/
def Dispatching.Shows (p : ProgramId) (d : Dispatching σ τ)
    (r : RunningProgram × List (RunningProgram × Obs) × Option Nat) : Prop :=
  ∃ failed : Bool, d.of p = (some r.1, (r.2.2.map fun w => (p, w)).toList, failed) ∧
    (failed = true → r.1.state = .failed)

theorem directOne_shows (B : Backends σ τ) (tk : Tick) (hd : d.of p = (some rp, [], false))
    (f : WatchFire) (env : Env σ τ) (loser : Option ProgramId) {e : ProgEval}
    {fs : List WatchFire} (hf : e.fires = f :: fs) (hs : f.steps = []) :
    (directOne tk d (p, f)).1.Shows p (firePart B tk p env loser e rp) ∧
      traceOf p (directOne tk d (p, f)).2 =
        moments tk.nowMs (firePart B tk p env loser e rp).2.1 := by
  have hrp : d.sched.programs.lookup p = some rp := congrArg Prod.fst hd
  have hlist : d.dispatched.filter (fun f => decide (f.1 = p)) = [] :=
    congrArg (fun x => x.2.1) hd
  have hfail : decide (p ∈ d.failed) = false := congrArg (fun x => x.2.2) hd
  have hnew : (d.dispatched ++ [(p, f.watch)]).filter (fun f => decide (f.1 = p)) =
      [(p, f.watch)] := by simp [hlist]
  rw [firePart_direct B tk p env rp loser hf hs]
  exact ⟨⟨false, Prod.ext (lift_lookup_self _ hrp) (Prod.ext hnew hfail), by simp⟩,
    lift_traceOf_self _ (owned_directProgram f) hrp⟩

theorem dispatchOne_shows (B : Backends σ τ) (tk : Tick) (hd : d.of p = (some rp, [], false))
    (f : WatchFire) (loser : Option ProgramId) {e : ProgEval} {fs : List WatchFire}
    (hf : e.fires = f :: fs) (hs : f.steps ≠ []) :
    (dispatchOne B tk d ⟨p, f, loser.isNone, loser⟩).1.Shows p
        (firePart B tk p d.sched.env loser e rp) ∧
      traceOf p (dispatchOne B tk d ⟨p, f, loser.isNone, loser⟩).2 =
        moments tk.nowMs (firePart B tk p d.sched.env loser e rp).2.1 := by
  have hrp : d.sched.programs.lookup p = some rp := congrArg Prod.fst hd
  have hlist : d.dispatched.filter (fun f => decide (f.1 = p)) = [] :=
    congrArg (fun x => x.2.1) hd
  have hfail : decide (p ∈ d.failed) = false := congrArg (fun x => x.2.2) hd
  cases loser with
  | some winner =>
    rw [firePart_defer B tk p d.sched.env rp winner hf hs]
    exact ⟨⟨false, Prod.ext (lift_lookup_self _ hrp) (Prod.ext hlist hfail), by simp⟩,
      lift_traceOf_self _ (owned_deferProgram f winner) hrp⟩
  | none =>
    have herr : dispatchErrs B tk d ⟨p, f, true, none⟩ =
        (dispatchSteps B tk (rp.caller p) f.steps d.sched.env).1.isSome := by
      simp only [dispatchErrs, hrp]
    have hlook := lift_lookup_self tk.nowMs
      (g := fun id => dispatchProgram B tk id f) hrp
    have htrace := lift_traceOf_self tk.nowMs
      (owned_dispatchProgram B tk f) hrp
    rw [firePart_dispatch B tk p d.sched.env rp hf hs]
    -- the error of a step is recorded beside the state it leaves the program in
    cases hres : (dispatchSteps B tk (rp.caller p) f.steps d.sched.env).1 with
    | some err =>
      rw [hres] at herr
      have hstate : (dispatchProgram B tk p f rp d.sched.env).1.state = .failed := by
        simp only [dispatchProgram, hres]
      refine ⟨⟨true, ?_, fun _ => hstate⟩, ?_⟩
      · simp only [dispatchOne, Option.isNone_none, if_true, herr, Option.isSome_some]
        exact Prod.ext hlook (Prod.ext hlist
          (decide_eq_true (List.mem_append_right _ List.mem_cons_self)))
      · simp only [dispatchOne, Option.isNone_none, if_true, herr, Option.isSome_some]
        exact htrace
    | none =>
      rw [hres] at herr
      have hnew : (d.dispatched ++ [(p, f.watch)]).filter (fun f => decide (f.1 = p)) =
          [(p, f.watch)] := by simp [hlist]
      refine ⟨⟨false, ?_, by simp⟩, ?_⟩
      · simp only [dispatchOne, Option.isNone_none, if_true, herr, Option.isSome_none,
          Bool.false_eq_true, if_false]
        exact Prod.ext hlook (Prod.ext hnew hfail)
      · simp only [dispatchOne, Option.isNone_none, if_true, herr, Option.isSome_none,
          Bool.false_eq_true, if_false]
        exact htrace

theorem dispatched_project {e : ProgEval}
    (hsole : Keyed.Sole ProgEval.id p e (evaluated B tk order s).2) (hid : e.id = p)
    (hrp : (evaluated B tk order s).1.programs.lookup p = some rp) :
    ∃ env, (dispatched B tk order s).1.Shows p
        (firePart B tk p env (verdict B tk order s p) e rp) ∧
      traceOf p (fired B tk order s).2 ++ traceOf p (dispatched B tk order s).2 =
        moments tk.nowMs (firePart B tk p env (verdict B tk order s p) e rp).2.1 := by
  have hstart : (⟨(evaluated B tk order s).1, [], []⟩ : Dispatching σ τ).of p =
      (some rp, [], false) := Prod.ext hrp rfl
  -- a watch that fires does so before the arbiter if it has no steps, and through it otherwise
  cases hf : e.fires with
  | nil =>
    have hfire := fired_absent B tk order s (p := p)
      (hsole.filterMap_none (fun _ _ => directFires_key) (by rw [hf]))
    have hdisp := dispatched_absent B tk order s (p := p)
      (hsole.filterMap_none (fun _ _ => candidates_key) (by rw [hf]))
    refine ⟨s.env, ⟨false, ?_, by simp⟩, ?_⟩
    · rw [hdisp.1, hfire.1, hrp, firePart_nil B tk p s.env rp _ hf]
      rfl
    · rw [hdisp.2, hfire.2, firePart_nil B tk p s.env rp _ hf]
      rfl
  | cons f fs =>
    by_cases hsteps : f.steps = []
    · have hsoleF : Keyed.Sole Prod.fst p (p, f) (directFires (evaluated B tk order s).2) :=
        hsole.filterMap_some (fun _ _ => directFires_key) (by rw [hf]; simp [hsteps, hid])
      have hdisp := dispatched_absent B tk order s (p := p)
        (hsole.filterMap_none (fun _ _ => candidates_key) (by rw [hf]; simp [hsteps]))
      obtain ⟨d, hd, hv, ho⟩ := run_sole (f := directOne tk) (v := Dispatching.of p)
        (m := Moment.mine p) hsoleF (fun _ _ h => directOne_of_ne h)
        (fun _ _ h => directOne_filter_ne h) ⟨(evaluated B tk order s).1, [], []⟩
      obtain ⟨⟨failed, hshow, hst⟩, htrace⟩ := directOne_shows B tk
        (hd.trans hstart) f s.env (verdict B tk order s p) hf hsteps
      refine ⟨s.env, ⟨failed, hdisp.1.trans (hv.trans hshow), hst⟩, ?_⟩
      rw [hdisp.2, List.append_nil]
      exact (traceOf_congr ho).trans htrace
    · have hfire := fired_absent B tk order s (p := p)
        (hsole.filterMap_none (fun _ _ => directFires_key) (by rw [hf]; simp [hsteps]))
      have hsoleC : Keyed.Sole Arbiter.Candidate.programId p ⟨p, e.priority, f⟩
          (candidates (evaluated B tk order s).2) :=
        hsole.filterMap_some (fun _ _ => candidates_key) (by rw [hf]; simp [hsteps, hid])
      have hsoleD : Keyed.Sole Arbiter.Decision.programId p
          ⟨p, f, (verdict B tk order s p).isNone, verdict B tk order s p⟩
          (decisions B tk order s) := by
        rw [decisions, Arbiter.resolve_eq_map]
        apply hsoleC.map
        exact fun _ => rfl
      obtain ⟨d, hd, hv, ho⟩ := run_sole (f := dispatchOne B tk) (v := Dispatching.of p)
        (m := Moment.mine p) hsoleD (fun _ _ h => dispatchOne_of_ne h)
        (fun _ _ h => dispatchOne_filter_ne h) (fired B tk order s).1
      have hof : d.of p = (some rp, [], false) := by rw [hd, hfire.1, hrp]
      obtain ⟨⟨failed, hshow, hst⟩, htrace⟩ := dispatchOne_shows B tk hof f
        (verdict B tk order s p) hf hsteps
      refine ⟨d.sched.env, ⟨failed, hv.trans hshow, hst⟩, ?_⟩
      rw [hfire.2, List.nil_append]
      exact (traceOf_congr ho).trans htrace

theorem modify_lookup_ne {h : RunningProgram → RunningProgram} (hne : id ≠ p) :
    (s.modify tk h id).1.programs.lookup p = s.programs.lookup p := lift_lookup_ne hne

theorem modify_snd {h : RunningProgram → RunningProgram} : (s.modify tk h id).2 = [] := by
  unfold modify
  cases hid : s.programs.lookup id with
  | none => rw [lift_none hid]
  | some rp => rw [lift_some hid]; rfl

theorem updated_absent (hev : Keyed.Absent ProgEval.id p (evaluated B tk order s).2)
    (hdi : Keyed.Absent Prod.fst p (dispatched B tk order s).1.dispatched) :
    (updated B tk order s).programs.lookup p =
      (dispatched B tk order s).1.sched.programs.lookup p := by
  have hupd := run_absent (f := updateOne tk) (v := fun s : Scheduler σ τ => s.programs.lookup p)
    (m := Moment.mine p) hev (fun _ _ h => modify_lookup_ne h)
    (fun _ _ _ => by rw [updateOne, modify_snd]; rfl) (dispatched B tk order s).1.sched
  have hfir := run_absent (f := firedOne tk) (v := fun s : Scheduler σ τ => s.programs.lookup p)
    (m := Moment.mine p) hdi (fun _ _ h => modify_lookup_ne h)
    (fun _ _ _ => by rw [firedOne, modify_snd]; rfl)
    (run (updateOne tk) (dispatched B tk order s).1.sched (evaluated B tk order s).2).1
  exact hfir.1.trans hupd.1

theorem updated_project {e : ProgEval} {r : RunningProgram × List (RunningProgram × Obs) × Option Nat}
    (hsole : Keyed.Sole ProgEval.id p e (evaluated B tk order s).2) (hid : e.id = p)
    (hshow : (dispatched B tk order s).1.Shows p r) :
    (updated B tk order s).programs.lookup p = some (settlePart tk e r.2.2 r.1) := by
  obtain ⟨failed, hof, -⟩ := hshow
  have hrp : (dispatched B tk order s).1.sched.programs.lookup p = some r.1 :=
    congrArg Prod.fst hof
  have hlist : (dispatched B tk order s).1.dispatched.filter (fun f => decide (f.1 = p)) =
      (r.2.2.map fun w => (p, w)).toList := congrArg (fun x => x.2.1) hof
  obtain ⟨t, ht, hv, -⟩ := run_sole (f := updateOne tk)
    (v := fun s : Scheduler σ τ => s.programs.lookup p) (m := Moment.mine p) hsole
    (fun _ _ h => modify_lookup_ne h) (fun _ _ _ => by rw [updateOne, modify_snd]; rfl)
    (dispatched B tk order s).1.sched
  -- the updates of the watches come first, then the records of what was dispatched
  have hupd : (run (updateOne tk) (dispatched B tk order s).1.sched
      (evaluated B tk order s).2).1.programs.lookup p = some (updateProgram e r.1) := by
    rw [hv, updateOne, hid]
    exact lift_lookup_self _ (ht.trans hrp)
  unfold updated settlePart
  cases hw : r.2.2 with
  | none =>
    rw [hw] at hlist
    have habs := Keyed.absent_of_filter Prod.fst hlist
    exact ((run_absent (f := firedOne tk) (v := fun s : Scheduler σ τ => s.programs.lookup p)
      (m := Moment.mine p) habs (fun _ _ h => modify_lookup_ne h)
      (fun _ _ _ => by rw [firedOne, modify_snd]; rfl) _).1).trans hupd
  | some w =>
    rw [hw] at hlist
    have hsoleW := Keyed.sole_of_filter Prod.fst hlist
    obtain ⟨u, hu, hv, -⟩ := run_sole (f := firedOne tk)
      (v := fun s : Scheduler σ τ => s.programs.lookup p) (m := Moment.mine p) hsoleW
      (fun _ _ h => modify_lookup_ne h) (fun _ _ _ => by rw [firedOne, modify_snd]; rfl)
      (run (updateOne tk) (dispatched B tk order s).1.sched (evaluated B tk order s).2).1
    exact hv.trans (lift_lookup_self _ (hu.trans hupd))

theorem bodyOne_lookup_ne {failed : List ProgramId} (h : id ≠ p) :
    (bodyOne B tk failed s id).1.programs.lookup p = s.programs.lookup p := by
  unfold bodyOne
  split_ifs
  · rfl
  · exact lift_lookup_ne h

theorem bodyOne_filter_ne {failed : List ProgramId} (h : id ≠ p) :
    (bodyOne B tk failed s id).2.filter (Moment.mine p) = [] := by
  unfold bodyOne
  split_ifs
  · rfl
  · exact lift_filter_ne owned_bodyProgram h

theorem updateProgram_state (e : ProgEval) : (updateProgram e rp).state = rp.state := by
  have htr : ∀ ts : List (Nat × Bool), ∀ rp : RunningProgram, (ts.foldl (fun rp t =>
      rp.modifyWatch t.1 fun wr => { wr with lastTruthy := t.2 }) rp).state = rp.state := by
    intro ts
    induction ts with
    | nil => exact fun _ => rfl
    | cons t ts ih => exact fun rp => ih _
  have hre : ∀ is : List Nat, ∀ rp : RunningProgram, (is.foldl (fun rp idx =>
      rp.modifyWatch idx fun wr => { wr with retired := true }) rp).state = rp.state := by
    intro is
    induction is with
    | nil => exact fun _ => rfl
    | cons t ts ih => exact fun rp => ih _
  exact (hre _ _).trans (htr _ _)

theorem firedProgram_state (now : UnixMs) (idx : Nat) :
    (firedProgram now idx rp).state = rp.state := by
  unfold firedProgram
  cases rp.program.watches[idx]? <;> rfl

theorem settlePart_state (e : ProgEval) (w : Option Nat) :
    (settlePart tk e w rp).state = rp.state := by
  cases w with
  | none => exact updateProgram_state e
  | some idx => exact (firedProgram_state _ _).trans (updateProgram_state e)

theorem stepped_project {e : ProgEval} {r : RunningProgram × List (RunningProgram × Obs) × Option Nat}
    (hn : order.Nodup) (hp : p ∈ runningIds B tk order s)
    (hsole : Keyed.Sole ProgEval.id p e (evaluated B tk order s).2) (hid : e.id = p)
    (hshow : (dispatched B tk order s).1.Shows p r) :
    ∃ env, (stepped B tk order s).1.programs.lookup p =
        some (bodyProgram B tk p (settlePart tk e r.2.2 r.1) env).1 ∧
      traceOf p (stepped B tk order s).2 =
        moments tk.nowMs (bodyProgram B tk p (settlePart tk e r.2.2 r.1) env).2.2 := by
  have hrp := updated_project hsole hid hshow
  have hsoleP : Keyed.Sole (fun id => id) p p (runningIds B tk order s) :=
    Keyed.sole_of_nodup (by rw [List.map_id']; exact hn.filter _) hp
  obtain ⟨t, ht, hv, ho⟩ := run_sole (f := bodyOne B tk (dispatched B tk order s).1.failed)
    (v := fun s : Scheduler σ τ => s.programs.lookup p) (m := Moment.mine p) hsoleP
    (fun _ _ h => bodyOne_lookup_ne h) (fun _ _ h => bodyOne_filter_ne h) (updated B tk order s)
  have hrpt : t.programs.lookup p = some (settlePart tk e r.2.2 r.1) := ht.trans hrp
  -- a program that failed at its dispatch is passed over, and would not have run a step anyhow
  by_cases hfail : p ∈ (dispatched B tk order s).1.failed
  · obtain ⟨failed, hof, hst⟩ := hshow
    have hfailed : failed = true := by
      have hmem : decide (p ∈ (dispatched B tk order s).1.failed) = failed :=
        congrArg (fun x => x.2.2) hof
      rw [← hmem]
      exact decide_eq_true hfail
    have hnot : ¬ (settlePart tk e r.2.2 r.1).state = .running := by
      rw [settlePart_state, hst hfailed]
      simp
    have hbody : bodyProgram B tk p (settlePart tk e r.2.2 r.1) t.env =
        (settlePart tk e r.2.2 r.1, t.env, []) := by rw [bodyProgram, if_neg hnot]
    have hone : bodyOne B tk (dispatched B tk order s).1.failed t p = (t, []) := by
      rw [bodyOne, if_pos hfail]
    refine ⟨t.env, ?_, ?_⟩
    · rw [hbody]
      exact hv.trans ((congrArg (fun x => x.1.programs.lookup p) hone).trans hrpt)
    · rw [hbody]
      exact traceOf_eq_nil (ho.trans (by rw [hone]; rfl))
  · have hone : bodyOne B tk (dispatched B tk order s).1.failed t p =
        t.lift tk.nowMs (bodyProgram B tk) p := by rw [bodyOne, if_neg hfail]
    refine ⟨t.env, ?_, ?_⟩
    · exact hv.trans ((congrArg (fun x => x.1.programs.lookup p) hone).trans
        (lift_lookup_self _ hrpt))
    · exact (traceOf_congr (ho.trans (by rw [hone]))).trans
        (lift_traceOf_self _ owned_bodyProgram hrpt)

/-- After the trigger stage a tick does not touch a program that is not running. -/
theorem quiet_project (hp : p ∉ runningIds B tk order s) :
    (capturedTick B tk order s).1.programs.lookup p =
        (triggered B tk order s).1.programs.lookup p ∧
      traceOf p (capturedTick B tk order s).2 = traceOf p (triggered B tk order s).2 := by
  have hev := evaluated_absent hp
  have hfire := fired_absent B tk order s (hev.filterMap fun _ _ => directFires_key)
  have hdisp := dispatched_absent B tk order s (hev.filterMap fun _ _ => candidates_key)
  have hof := hdisp.1.trans hfire.1
  have hupd := updated_absent hev (Keyed.absent_of_filter Prod.fst (congrArg (fun x => x.2.1) hof))
  have habs : Keyed.Absent (fun id => id) p (runningIds B tk order s) :=
    fun q hq h => hp (h ▸ hq)
  have hbody := run_absent (f := bodyOne B tk (dispatched B tk order s).1.failed)
    (v := fun s : Scheduler σ τ => s.programs.lookup p) (m := Moment.mine p) habs
    (fun _ _ h => bodyOne_lookup_ne h) (fun _ _ h => bodyOne_filter_ne h) (updated B tk order s)
  constructor
  · calc (capturedTick B tk order s).1.programs.lookup p
        = (updated B tk order s).programs.lookup p := hbody.1
      _ = (dispatched B tk order s).1.sched.programs.lookup p := hupd
      _ = (evaluated B tk order s).1.programs.lookup p := congrArg Prod.fst hof
      _ = (triggered B tk order s).1.programs.lookup p := by rw [evaluated_programs]
  · have hstep : traceOf p (stepped B tk order s).2 = [] := traceOf_eq_nil hbody.2
    simp only [capturedTick, traceOf_append, traceOf_evalMoments_eq_nil _ _ evaluated_owned hev, hfire.2,
      hdisp.2, hstep, List.append_nil]

theorem triggered_none (B : Backends σ τ) (tk : Tick) (order : List ProgramId)
    (h : s.programs.lookup p = none) :
    (triggered B tk order s).1.programs.lookup p = none ∧
      traceOf p (triggered B tk order s).2 = [] := by
  have hwait : p ∉ order.filter ((s.cleared B).stateIs .waiting) :=
    fun hm => not_stateIs h (List.mem_filter.mp hm).2
  obtain ⟨hl, ht⟩ := run_lift_absent tk.nowMs (g := triggerProgram B tk)
    (s := s.cleared B) owned_triggerProgram hwait
  exact ⟨hl.trans h, ht⟩

theorem capturedTick_none (B : Backends σ τ) (tk : Tick) (order : List ProgramId)
    (h : s.programs.lookup p = none) :
    (capturedTick B tk order s).1.programs.lookup p = none ∧
      traceOf p (capturedTick B tk order s).2 = [] := by
  obtain ⟨hnone, ht⟩ := triggered_none B tk order h
  have hrun : p ∉ runningIds B tk order s :=
    fun hm => not_stateIs hnone (List.mem_filter.mp hm).2
  obtain ⟨hq, htq⟩ := quiet_project hrun
  exact ⟨hq.trans hnone, htq.trans ht⟩

/-- A tick is, for each program, `tickProgram` under some surroundings and the verdict of
the arbiter; the slice the arbiter saw is the program's own. -/
theorem capturedTick_project (B : Backends σ τ) (tk : Tick) (hn : order.Nodup) (hp : p ∈ order)
    (h : s.programs.lookup p = some rp) :
    ∃ sur : Surroundings σ τ,
      (capturedTick B tk order s).1.programs.lookup p =
        some (tickProgram B tk p sur (verdict B tk order s p) rp).1 ∧
      traceOf p (capturedTick B tk order s).2 =
        moments tk.nowMs (tickProgram B tk p sur (verdict B tk order s p) rp).2 ∧
      (triggered B tk order s).1.programs.lookup p =
        some (triggerPart B tk p sur.trigger rp).1 ∧
      ((triggerPart B tk p sur.trigger rp).1.state = .running →
        Keyed.Sole ProgEval.id p
          (evalProgram B tk p (triggerPart B tk p sur.trigger rp).1 sur.eval).1
          (evaluated B tk order s).2) := by
  obtain ⟨envT, hT, htT⟩ := triggered_project B tk hn hp h
  -- the stages after the trigger are for running programs, each of them once
  by_cases hrun : (triggerPart B tk p envT rp).1.state = .running
  · have hmem : p ∈ runningIds B tk order s :=
      List.mem_filter.mpr ⟨hp, (stateIs_iff hT).mpr hrun⟩
    obtain ⟨envE, hsole⟩ := evaluated_sole hn hmem hT
    have hE := traceOf_evalMoments tk (triggered B tk order s).1.programs evaluated_owned
      hsole rfl
    obtain ⟨envF, hshow, htF⟩ := dispatched_project hsole rfl
      ((congrArg (fun m => AList.lookup p m) evaluated_programs).trans hT)
    obtain ⟨envB, hB, htB⟩ := stepped_project hn hmem hsole rfl hshow
    refine ⟨⟨envT, envE, envF, envB⟩, ?_, ?_, hT, fun _ => hsole⟩
    · simp only [tickProgram, hrun, if_true]
      exact hB
    · simp only [tickProgram, hrun, if_true, runPart, moments_append]
      rw [capturedTick, traceOf_append, traceOf_append, traceOf_append, traceOf_append, htT, hE,
        htB, ← htF, List.append_assoc]
  · have hmem : p ∉ runningIds B tk order s :=
      fun hm => hrun ((stateIs_iff hT).mp (List.mem_filter.mp hm).2)
    obtain ⟨hq, htq⟩ := quiet_project hmem
    refine ⟨⟨envT, s.env, s.env, s.env⟩, ?_, ?_, hT, fun hr => absurd hr hrun⟩
    · simp only [tickProgram, hrun, if_false]
      exact hq.trans hT
    · simp only [tickProgram, hrun, if_false]
      exact htq.trans htT

end Stages

end Scheduler

end Vcli

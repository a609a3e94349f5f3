import Vcli.Dsl.Accepted
import Vcli.Perception.Isolation
import Vcli.Perception.Stack
import Vcli.Runtime.Program

/-! What the scheduler asks perception for on behalf of a program that was accepted. The
validator sees to it that every name resolves and that no predicate depends on itself; it bounds
neither the nesting of logical predicates nor the names of the user. -/

namespace Vcli.Dsl

open Relation Fallible Perception

section Runtime

theorem Expression.text_eq (e : Expression) :
    e.text = '$' :: (e.name.toList ++ '.' :: ("match.".toList ++ e.accessor.text.toList)) := by
  rw [Expression.text]
  simp [List.intercalate, List.intersperse]

/-- What the runtime makes of an expression that the validator accepts. -/
theorem parse_of_accepted {raw : String} {e : Expression}
    (h : Expression.parse raw .root = .ok e) :
    Expr.parse raw = if e.accessor = .center then .ok ⟨e.name, .matchCenter⟩
      else .error (.expressionUnresolved ("unknown accessor '" ++
        String.ofList ("match.".toList ++ e.accessor.text.toList) ++ "'")) := by
  obtain ⟨hname, hraw⟩ := Expression.parse_eq_ok.mp h
  have hne : e.name.toList ≠ [] := by
    intro hnil
    rw [hnil] at hname
    exact nomatch hname
  unfold Expr.parse
  -- the names of the validator have no point, so the runtime splits where the validator does
  simp only [hraw, Expression.text_eq, Expr.splitOnce_append (point_notMem hname), if_neg hne,
    String.ofList_toList]
  cases e.accessor <;> rfl

end Runtime

def allSteps (p : Program) : List Step := p.body ++ p.watches.flatMap Watch.steps

theorem Checked.step {p : Program} (h : Checked p) : ∀ s ∈ allSteps p,
    StepChecked p.predicates s := by
  intro s hs
  rcases List.mem_append.mp hs with hbody | hwatch
  · exact h.body s hbody
  · obtain ⟨w, hw, hs⟩ := List.mem_flatMap.mp hwatch
    exact (h.watches w hw).steps s hs

def inlineKey (watch : Nat) : String := "__inline_" ++ toString watch

/-- The names that are evaluated for a program, each with the map it is evaluated in. -/
inductive Asked (p : Program) : String → Predicates → Prop
  | trigger {n : String} (h : p.trigger = .onPredicate n) : Asked p n p.predicates
  | byName {w : Watch} {n : String} (hw : w ∈ p.watches) (h : w.when_ = .byName n) :
    Asked p n p.predicates
  | inline {i : Nat} {w : Watch} {q : PredicateKind} (hw : p.watches[i]? = some w)
    (h : w.when_ = .inline q) : Asked p (inlineKey i) (p.predicates.insert (inlineKey i) q)
  | until_ {w : Watch} {n : String} (hw : w ∈ p.watches) (h : w.lifetime = .untilPredicate n) :
    Asked p n p.predicates
  | step {s : Step} {n : String} (hs : s ∈ p.body) (h : nameOf s = some n) :
    Asked p n p.predicates
  | target {s : Step} {raw : String} {e : Expr.ParsedExpr} (hs : s ∈ allSteps p)
    (ht : targetOf s = some (.expression raw)) (he : Expr.parse raw = .ok e) :
    Asked p e.predicate p.predicates

section Scheduler
variable {σ τ : Type} {B B' : Backends σ τ} {tk : Tick} {id : ProgramId} {p : Program}
  {rp : RunningProgram}

/-- Two backends that take the same input, and answer alike what is asked for `p`. -/
structure Alike (B B' : Backends σ τ) (p : Program) : Prop where
  call : B.call = B'.call
  answer : ∀ n predicates, Asked p n predicates →
    B.evaluateNamed n predicates = B'.evaluateNamed n predicates

theorem evaluateNamed_alike (h : Alike B B' p) {c : Caller} {n : String} (site : Site)
    (hasked : Asked p n c.predicates) :
    evaluateNamed B tk c site n = evaluateNamed B' tk c site n := by
  funext env
  simp only [evaluateNamed, h.answer n c.predicates hasked]

theorem callInput_alike (h : Alike B B' p) (c : Caller) (call : InputCall) :
    callInput B c call = callInput B' c call := by
  funext env
  simp only [callInput, h.call]

theorem triggerFires_alike (h : Alike B B' rp.program) :
    triggerFires B tk id rp = triggerFires B' tk id rp := by
  unfold triggerFires
  split
  · rfl
  · rfl
  next n hn => rw [evaluateNamed_alike h .trigger (.trigger hn)]

theorem evalCondition_alike (h : Alike B B' rp.program) {i : Nat} {w : Watch}
    (hw : rp.program.watches[i]? = some w) :
    evalCondition B tk id rp i w = evalCondition B' tk id rp i w := by
  have hasked : Asked rp.program (conditionOf id rp i w.when_).1
      (conditionOf id rp i w.when_).2.predicates := by
    cases hwhen : w.when_ with
    | byName n => exact .byName (List.mem_of_getElem? hw) hwhen
    | inline q => exact .inline hw hwhen
  unfold evalCondition
  dsimp only
  rw [evaluateNamed_alike h _ hasked]

theorem evalWatch_alike (h : Alike B B' rp.program) {i : Nat} {w : Watch}
    (hw : rp.program.watches[i]? = some w) :
    evalWatch B tk id rp i w = evalWatch B' tk id rp i w := by
  unfold evalWatch
  split_ifs
  · rfl
  · rw [evalCondition_alike h hw]
    split
    next n hn => rw [evaluateNamed_alike h _ (.until_ (List.mem_of_getElem? hw) hn)]
    next => rfl

theorem evalWatches_alike (h : Alike B B' rp.program) {ws : List (Watch × Nat)}
    (hws : ∀ w ∈ ws, rp.program.watches[w.2]? = some w.1) :
    evalWatches B tk id rp ws = evalWatches B' tk id rp ws := by
  induction ws with
  | nil => rfl
  | cons w ws ih =>
    obtain ⟨w, i⟩ := w
    have hrest := ih fun v hv => hws v (List.mem_cons_of_mem _ hv)
    rw [evalWatches, evalWatches, evalWatch_alike h (hws (w, i) List.mem_cons_self), hrest]

theorem evalProgram_alike (h : Alike B B' rp.program) (env : Env σ τ) :
    evalProgram B tk id rp env = evalProgram B' tk id rp env := by
  have hws : ∀ w ∈ rp.program.watches.zipIdx, rp.program.watches[w.2]? = some w.1 :=
    fun w hw => List.mk_mem_zipIdx_iff_getElem?.mp hw
  unfold evalProgram
  rw [evalWatches_alike h hws]

theorem resolveTarget_alike (h : Alike B B' p) {c : Caller} (hc : c.predicates = p.predicates)
    {s : Step} (hs : s ∈ allSteps p) {t : Target} (ht : targetOf s = some t) :
    resolveTarget B tk c t = resolveTarget B' tk c t := by
  cases t with
  | absolute point => rfl
  | expression raw =>
    rw [resolveTarget, resolveTarget]
    split
    · rfl
    next e he =>
      have hasked : Asked p e.predicate c.predicates := by
        rw [hc]
        exact .target hs ht he
      rw [evaluateNamed_alike h _ hasked]

theorem dispatchAction_alike (h : Alike B B' p) {c : Caller} (hc : c.predicates = p.predicates)
    {s : Step} (hs : s ∈ allSteps p) : dispatchAction B tk c s = dispatchAction B' tk c s := by
  cases s with
  | move t | click t button | scroll t dx dy =>
    simp only [dispatchAction, dispatchAt, resolveTarget_alike h hc hs rfl, callInput_alike h]
  | type | key => exact callInput_alike h c _
  | sleepMs | waitFor | assert => rfl

theorem dispatchSteps_alike (h : Alike B B' p) {c : Caller} (hc : c.predicates = p.predicates)
    {steps : List Step} (hsteps : ∀ s ∈ steps, s ∈ allSteps p) :
    dispatchSteps B tk c steps = dispatchSteps B' tk c steps := by
  induction steps with
  | nil => rfl
  | cons s steps ih =>
    rw [dispatchSteps, dispatchSteps, dispatchAction_alike h hc (hsteps s List.mem_cons_self),
      ih fun s' hs' => hsteps s' (List.mem_cons_of_mem _ hs')]

/-- The predicate a body waits for is one that it names. -/
def Awaits (p : Program) (state : BodyState) : Prop :=
  ∀ n deadline onTimeout, state.deferred = some (.waitFor n deadline onTimeout) →
    ∃ s ∈ p.body, nameOf s = some n

theorem stepOnce_alike (h : Alike B B' p) {c : Caller} (hc : c.predicates = p.predicates)
    {state : BodyState} (hstate : Awaits p state) (cursor : Nat) :
    stepOnce B tk c p.body cursor state = stepOnce B' tk c p.body cursor state := by
  unfold stepOnce
  split
  next d hd =>
    cases d with
    | sleep => rfl
    | waitFor n deadline onTimeout =>
      obtain ⟨s, hs, hn⟩ := hstate n deadline onTimeout hd
      have hasked : Asked p n c.predicates := by
        rw [hc]
        exact .step hs hn
      unfold stepDeferred
      dsimp only
      rw [evaluateNamed_alike h _ hasked]
  next =>
    split
    · rfl
    next s hs =>
      have hmem := List.mem_of_getElem? hs
      have haction : dispatchAction B tk c s = dispatchAction B' tk c s :=
        dispatchAction_alike h hc (List.mem_append_left _ hmem)
      cases s with
      | sleepMs | waitFor => rfl
      | assert n onFail =>
        have hasked : Asked p n c.predicates := by
          rw [hc]
          exact .step hmem rfl
        unfold stepFresh
        dsimp only
        rw [evaluateNamed_alike h _ hasked]
      | move | click | scroll | type | key => simp only [stepFresh, haction]

theorem stepOnce_awaits {c : Caller} {state : BodyState} (hstate : Awaits p state)
    (cursor : Nat) : Interaction.Sat (fun out _ => Awaits p out.2)
      (stepOnce B tk c p.body cursor state) := by
  have hrest : Awaits p {} := nofun
  have hany : ∀ {α : Type} (x : Interaction (Env σ τ) Obs α), x.Sat fun _ _ => True :=
    fun _ _ => trivial
  unfold stepOnce
  split
  next d hd =>
    have hwaiting : Awaits p ⟨some d⟩ := by rwa [Awaits, ← hd]
    cases d with
    | sleep wakeAtMs =>
      unfold stepDeferred
      dsimp only
      split_ifs
      · exact Interaction.sat_pure hrest
      · exact Interaction.sat_pure hwaiting
    | waitFor n deadline onTimeout =>
      refine Interaction.sat_bind (hany _) fun r _ _ => ?_
      repeat' split
      all_goals first
        | exact Interaction.sat_pure hrest
        | exact Interaction.sat_pure hwaiting
  next =>
    split
    · exact Interaction.sat_pure hrest
    next s hs =>
      cases s with
      | sleepMs => exact Interaction.sat_pure nofun
      | waitFor n timeoutMs onTimeout =>
        refine Interaction.sat_pure ?_
        rintro _ _ _ ⟨⟩
        exact ⟨_, List.mem_of_getElem? hs, rfl⟩
      | assert n onFail =>
        refine Interaction.sat_bind (hany _) fun r _ _ => ?_
        repeat' split
        all_goals exact Interaction.sat_pure hrest
      | move | click | scroll | type | key =>
        exact Interaction.sat_bind (hany _) fun r _ _ => Interaction.sat_pure hrest

end Scheduler

/-- Ends that validation is there to rule out. -/
def Unsound : Crash ⊕ PerceptionError → Prop
  | .inl .stackOverflow | .inr (.unknownPredicate _) | .inr (.cycle _) => True
  | _ => False

theorem deep_unsound : Deep Unsound := ⟨id, id, fun _ => id, fun _ => id⟩

def Falls (predicates : Predicates) (rank : String → Nat) : Prop :=
  ∀ n q, predicates[n]? = some q → ∀ k ∈ q.children, rank k < rank n

section Evaluation
variable {L : Libs} {c : EvalCtx} {S : String → Prop} {rank : String → Nat}

theorem getElem?_of_mem {predicates : Predicates} {n : String} (h : n ∈ predicates) :
    ∃ q, predicates[n]? = some q := by
  rw [Std.ExtTreeMap.mem_iff_isSome_getElem?] at h
  exact Option.isSome_iff_exists.mp h

theorem name_shuns (hclosed : Closed c.predicates S) (hnamed : ∀ k, S k → k ∈ c.predicates)
    (hshallow : Shallow c.predicates S) (hrank : Falls c.predicates rank) {fuel : Nat}
    {name : String} {depth : Nat} (hname : S name)
    (hfits : Fits c.predicates (maxRecursionDepth - depth) name) (hfuel : rank name < fuel) :
    Shuns Unsound (evaluateNamedWithDepth L c fuel name depth) := by
  induction fuel generalizing name depth with
  | zero => exact absurd hfuel (Nat.not_lt_zero _)
  | succ fuel ih =>
    obtain ⟨q, hq⟩ := getElem?_of_mem (hnamed name hname)
    have hdepth : ¬ maxRecursionDepth ≤ depth := by
      intro hle
      rw [Nat.sub_eq_zero_of_le hle] at hfits
      exact hfits
    rw [evaluateNamedWithDepth, if_neg hdepth, hq]
    refine memoize_shuns (dispatch_shuns (fun _ => id)
      (fun hc hl => leaf_shuns deep_unsound hc hl _ _) fun k hk => ?_)
    have hless : rank k < fuel := by
      have := hrank name q hq k hk
      omega
    refine ih (hclosed q ⟨name, hname, hq⟩ k hk) ?_ hless
    -- one call less is left below a logical node, and all of them below a clock
    unfold PredicateKind.calledAt
    split_ifs with hlogical
    · obtain ⟨j, hj⟩ : ∃ j, maxRecursionDepth - depth = j + 1 :=
        Nat.exists_eq_succ_of_ne_zero (by omega)
      have hbelow : maxRecursionDepth - (depth + 1) = j := by omega
      rw [hj] at hfits
      rw [hbelow]
      exact hfits q hq hlogical k hk
    · exact hshallow q ⟨name, hname, hq⟩ k hk

theorem evaluateNamed_shuns (hclosed : Closed c.predicates S)
    (hnamed : ∀ k, S k → k ∈ c.predicates) (hshallow : Shallow c.predicates S)
    (hrank : Falls c.predicates rank) {fuel : Nat} {name : String} (hname : S name)
    (hfuel : rank name ≤ fuel) : Shuns Unsound (Perception.evaluateNamed L fuel c name) := by
  obtain ⟨q, hq⟩ := getElem?_of_mem (hnamed name hname)
  rw [Perception.evaluateNamed, hq]
  refine memoize_shuns (dispatch_shuns (fun _ => id)
    (fun hc hl => leaf_shuns deep_unsound hc hl _ _) fun k hk => ?_)
  have hzero : q.calledAt 0 = 0 := by
    unfold PredicateKind.calledAt
    split_ifs <;> rfl
  rw [hzero]
  refine name_shuns hclosed hnamed hshallow hrank (hclosed q ⟨name, hname, hq⟩ k hk) ?_ ?_
  · exact hshallow q ⟨name, hname, hq⟩ k hk
  · exact Nat.lt_of_lt_of_le (hrank name q hq k hk) hfuel

end Evaluation

section Ranks

theorem children_subset {q : PredicateKind} {k : String} (h : k ∈ q.children) : k ∈ edgesOf q := by
  cases q with
  | colorAt | template | pixelDiff => exact nomatch h
  | allOf | anyOf | not | elapsedMsSinceTrue => exact h

theorem Grounded.exists_rank {predicates : Predicates} (h : Grounded predicates) :
    ∃ rank bound, Falls predicates rank ∧ ∀ n, rank n ≤ bound := by
  have hkeys : ∀ x y, Depends predicates x y → x ∈ {n | n ∈ predicates.keys} := by
    rintro x y ⟨q, hq, -⟩
    refine Std.ExtTreeMap.mem_keys.mpr ?_
    rw [Std.ExtTreeMap.mem_iff_isSome_getElem?, hq]
    rfl
  obtain ⟨rank, hfalls, hbound⟩ :=
    Descent.exists_rank (List.finite_toSet predicates.keys) hkeys h.acyclic
  refine ⟨rank, _, fun n q hq k hk => ?_, hbound⟩
  exact hfalls n k ⟨q, hq, children_subset hk⟩

theorem Grounded.children_mem {predicates : Predicates} (h : Grounded predicates) {n k : String}
    {q : PredicateKind} (hq : predicates[n]? = some q) (hk : k ∈ q.children) : k ∈ predicates :=
  h.named n k ⟨q, hq, children_subset hk⟩

theorem reaches_closed (predicates : Predicates) (n : String) :
    Closed predicates (Reaches predicates n) := by
  rintro q ⟨k, hreach, hq⟩ k' hk'
  exact hreach.tail ⟨q, hq, hk'⟩

theorem reaches_named {predicates : Predicates}
    (hnamed : ∀ (n : String) q, predicates[n]? = some q → ∀ k ∈ q.children, k ∈ predicates)
    {n k : String}
    (hn : n ∈ predicates) (h : Reaches predicates n k) : k ∈ predicates := by
  induction h with
  | refl => exact hn
  | tail _ hstep _ =>
    obtain ⟨q, hq, hk⟩ := hstep
    exact hnamed _ q hq _ hk

section Inline
variable {predicates : Predicates} {key : String} {q : PredicateKind}

theorem getElem?_insert_self : (predicates.insert key q)[key]? = some q := by
  rw [Std.ExtTreeMap.getElem?_insert, if_pos Std.ReflCmp.compare_self]

theorem getElem?_insert_ne {n : String} (h : n ≠ key) :
    (predicates.insert key q)[n]? = predicates[n]? := by
  rw [Std.ExtTreeMap.getElem?_insert, if_neg fun heq => h (Std.compare_eq_iff_eq.mp heq).symm]

/-- A condition that does not depend on the predicate whose name it takes can be ranked above
everything it depends on, and what depends on the name above that. -/
theorem exists_rank_insert (h : Grounded predicates)
    (huncaptured : ∀ k ∈ q.children, ¬ Reaches predicates k key) :
    ∃ rank, Falls (predicates.insert key q) rank := by
  classical
  obtain ⟨rank, bound, hfalls, hbound⟩ := h.exists_rank
  refine ⟨fun n => rank n + if Reaches predicates n key then bound + 1 else 0, ?_⟩
  intro n p hp k hk
  show rank k + _ < rank n + _
  by_cases hn : n = key
  · subst hn
    rw [getElem?_insert_self] at hp
    obtain rfl := Option.some.inj hp
    have hself : Reaches predicates n n := .refl
    have := hbound k
    rw [if_pos hself, if_neg (huncaptured k hk)]
    omega
  · rw [getElem?_insert_ne hn] at hp
    have hless := hfalls n p hp k hk
    by_cases hreach : Reaches predicates k key
    · have hup : Reaches predicates n key := .head ⟨p, hp, hk⟩ hreach
      rw [if_pos hreach, if_pos hup]
      omega
    · rw [if_neg hreach]
      omega

theorem insert_named (h : Grounded predicates) (hq : ∀ k ∈ q.children, k ∈ predicates) :
    ∀ (n : String) p, (predicates.insert key q)[n]? = some p → ∀ k ∈ p.children,
      k ∈ predicates.insert key q := by
  intro n p hp k hk
  refine Std.ExtTreeMap.mem_insert.mpr (.inr ?_)
  by_cases hn : n = key
  · subst hn
    rw [getElem?_insert_self] at hp
    obtain rfl := Option.some.inj hp
    exact hq k hk
  · rw [getElem?_insert_ne hn] at hp
    exact h.children_mem hp hk

end Inline

end Ranks

def Uncaptured (p : Program) : Prop :=
  ∀ i w q, p.watches[i]? = some w → w.when_ = .inline q →
    ∀ k ∈ q.children, ¬ Reaches p.predicates k (inlineKey i)

/-- No chain of logical predicates that an evaluation may come to is longer than the evaluator
follows, and no inline condition is captured. -/
structure Manageable (p : Program) : Prop where
  shallow : ∀ n predicates, Asked p n predicates → Shallow predicates (Reaches predicates n)
  uncaptured : Uncaptured p

section Asked
variable {p : Program} {n : String} {predicates : Predicates}

theorem target_mem (h : Checked p) {s : Step} {raw : String} {e : Expr.ParsedExpr}
    (hs : s ∈ allSteps p) (ht : targetOf s = some (.expression raw))
    (he : Expr.parse raw = .ok e) : e.predicate ∈ p.predicates := by
  obtain ⟨expr, q, hparse, hq, -⟩ := (h.step s hs).target _ ht raw rfl
  rw [parse_of_accepted hparse] at he
  split_ifs at he
  rw [← Except.ok.inj he, Std.ExtTreeMap.mem_iff_isSome_getElem?, hq]
  rfl

/-- Whatever is asked for resolves, and so does everything below it. -/
theorem Asked.named (hasked : Asked p n predicates) (h : Checked p) :
    n ∈ predicates ∧
      ∀ (k : String) q, predicates[k]? = some q → ∀ k' ∈ q.children, k' ∈ predicates := by
  have hbelow : ∀ (k : String) q, p.predicates[k]? = some q → ∀ k' ∈ q.children,
      k' ∈ p.predicates := fun k q hq k' hk' => h.grounded.children_mem hq hk'
  cases hasked with
  | trigger ht => exact ⟨h.trigger n ht, hbelow⟩
  | byName hw hwhen =>
    have hcondition := (h.watches _ hw).condition
    rw [hwhen] at hcondition
    exact ⟨hcondition, hbelow⟩
  | inline hw hwhen =>
    have hcondition := (h.watches _ (List.mem_of_getElem? hw)).condition
    rw [hwhen] at hcondition
    refine ⟨Std.ExtTreeMap.mem_insert_self, insert_named h.grounded fun k hk => ?_⟩
    exact hcondition k (children_subset hk)
  | until_ hw hlifetime => exact ⟨(h.watches _ hw).until_ n hlifetime, hbelow⟩
  | step hs hname => exact ⟨(h.body _ hs).name n hname, hbelow⟩
  | target hs ht he => exact ⟨target_mem h hs ht he, hbelow⟩

theorem Asked.exists_rank (hasked : Asked p n predicates) (h : Checked p)
    (huncaptured : Uncaptured p) : ∃ rank, Falls predicates rank := by
  have hplain : ∃ rank, Falls p.predicates rank := by
    obtain ⟨rank, -, hfalls, -⟩ := h.grounded.exists_rank
    exact ⟨rank, hfalls⟩
  cases hasked with
  | inline hw hwhen => exact exists_rank_insert h.grounded (huncaptured _ _ _ hw hwhen)
  | trigger | byName | until_ | step | target => exact hplain

end Asked

theorem Asked.shuns {X : Crates} {p : Program} {n : String} {predicates : Predicates}
    (hasked : Asked p n predicates) (haccepted : Accepted X p) (hp : Manageable p) :
    ∃ bound, ∀ fuel, bound ≤ fuel → ∀ (L : Libs) (frame : Frame) (nowMs : UnixMs)
      (assets : Assets) (id : ProgramId), Shuns Unsound
        (Perception.evaluateNamed L fuel ⟨frame, nowMs, predicates, assets, some id⟩ n) := by
  obtain ⟨hmem, hbelow⟩ := hasked.named haccepted.checked
  obtain ⟨rank, hfalls⟩ := hasked.exists_rank haccepted.checked hp.uncaptured
  refine ⟨rank n, fun fuel hfuel L frame nowMs assets id => ?_⟩
  exact evaluateNamed_shuns (c := ⟨frame, nowMs, predicates, assets, some id⟩)
    (reaches_closed predicates n) (fun k hk => reaches_named hbelow hmem hk)
    (hp.shallow n predicates hasked) hfalls .refl hfuel

/-- For a program that was accepted, whatever the scheduler asks for is evaluated to an end, from
every memory and on every frame, and neither a missing name nor the recursion limit is it. -/
theorem accepted_evaluation_sound {X : Crates} {p : Program} (haccepted : Accepted X p)
    (hp : Manageable p) {n : String} {predicates : Predicates} (hasked : Asked p n predicates) :
    ∃ bound, ∀ fuel, bound ≤ fuel → ∀ (L : Libs) (frame : Frame) (nowMs : UnixMs)
      (assets : Assets) (id : ProgramId) (m : Memory),
      Perception.evaluateNamed L fuel ⟨frame, nowMs, predicates, assets, some id⟩ n m =
          .error .panic ∨
        ∃ r m', Perception.evaluateNamed L fuel ⟨frame, nowMs, predicates, assets, some id⟩ n m =
            .ok (r, m') ∧
          ∀ k, r ≠ .error (.unknownPredicate k) ∧ r ≠ .error (.cycle k) := by
  obtain ⟨bound, hbound⟩ := hasked.shuns haccepted hp
  refine ⟨bound, fun fuel hfuel L frame nowMs assets id m => ?_⟩
  have hshuns := hbound fuel hfuel L frame nowMs assets id
  -- an overflow and a bad reference are ruled out, a panic of the crates is not
  cases hout : Perception.evaluateNamed L fuel ⟨frame, nowMs, predicates, assets, some id⟩ n m with
  | error crash =>
    cases crash with
    | stackOverflow =>
      have hoverflow : Unsound (.inl .stackOverflow) := trivial
      exact absurd hout (hshuns.avoids hoverflow m)
    | panic => exact .inl rfl
  | ok out =>
    have herror : ∀ e, Unsound (.inr e) → out.1 ≠ .error e := by
      intro e he hr
      have hret : (Perception.evaluateNamed L fuel ⟨frame, nowMs, predicates, assets, some id⟩
          n).Returns m (.error e) out.2 := by rw [Returns, hout, ← hr]
      exact hshuns.error he hret
    exact .inr ⟨out.1, out.2, rfl, fun k => ⟨herror _ trivial, herror _ trivial⟩⟩

section Concrete

def tower : Nat → Predicates
  | 0 => (∅ : Predicates).insert "p0" (.colorAt ⟨0, 0⟩ ⟨0, 0, 0⟩ 0)
  | k + 1 => (tower k).insert ("p" ++ toString (k + 1)) (.not ("p" ++ toString k))

def towering (height : Nat) : Program :=
  { Program.blank "p" with
    trigger := .onPredicate ("p" ++ toString height)
    predicates := tower height }

theorem towering_fits (height : Nat) : (towering height).Fits fun _ => True := by
  have htower : ∀ (n : String) q, (tower height)[n]? = some q → True ∧ q.Fits fun _ => True := by
    induction height with
    | zero =>
      intro n q hq
      rw [tower, Std.ExtTreeMap.getElem?_insert] at hq
      split at hq
      · obtain rfl := Option.some.inj hq
        exact ⟨trivial, inI32_zero, inI32_zero⟩
      · simp at hq
    | succ k ih =>
      intro n q hq
      rw [tower, Std.ExtTreeMap.getElem?_insert] at hq
      split at hq
      · obtain rfl := Option.some.inj hq
        exact ⟨trivial, trivial⟩
      · exact ih n q hq
  exact {
    version := trivial
    name := trivial
    trigger := trivial
    predicates := htower
    watches := fun _ hw => nomatch hw
    body := fun _ hs => nomatch hs
    onComplete := fun _ hs => nomatch hs
    onFail := fun _ hs => nomatch hs
    labels := by simp [towering, Program.blank]
    priority := inI32_zero }

theorem towering_accepted {height : Nat}
    (h : (finish plainCrates (towering height)).isOk = true) :
    Accepted plainCrates (towering height) :=
  accepted_of_fits (towering_fits height) (fun _ hid => nomatch hid)
    (show major "0.1" = supportedDslMajor by decide) h

/-- The tower is one negation higher than the evaluator goes. -/
theorem accepted_evaluation_cycle :
    Accepted plainCrates (towering 33) ∧ Asked (towering 33) "p33" (towering 33).predicates ∧
      (Perception.evaluateNamed plainLibs 33
        ⟨.dot, 10, (towering 33).predicates, ∅, some ⟨1⟩⟩ "p33" .new).map Prod.fst =
        .ok (.error (.cycle "p0")) :=
  ⟨towering_accepted (by decide +kernel), .trigger rfl, by decide +kernel⟩

theorem name_inj {j k : Nat} (h : "p" ++ toString j = "p" ++ toString k) : j = k := by
  have htext := congrArg String.toList h
  rw [String.toList_append, String.toList_append] at htext
  have hdigits : (Nat.repr j).toList = (Nat.repr k).toList := List.append_cancel_left htext
  rw [Nat.repr_eq_ofList_toDigits, Nat.repr_eq_ofList_toDigits, String.toList_ofList,
    String.toList_ofList] at hdigits
  have hvalue := congrArg (Nat.ofDigitChars 10 · 0) hdigits
  simpa only [Nat.ofDigitChars_ten_toDigits] using hvalue

theorem tower_getElem? {height : Nat} {n : String} {q : PredicateKind}
    (h : (tower height)[n]? = some q) : q = .colorAt ⟨0, 0⟩ ⟨0, 0, 0⟩ 0 ∨
      ∃ k < height, n = "p" ++ toString (k + 1) ∧ q = .not ("p" ++ toString k) := by
  induction height with
  | zero =>
    rw [tower, Std.ExtTreeMap.getElem?_insert] at h
    split at h
    · exact .inl (Option.some.inj h).symm
    · simp at h
  | succ height ih =>
    rw [tower, Std.ExtTreeMap.getElem?_insert] at h
    split at h
    next heq =>
      exact .inr ⟨height, Nat.lt_succ_self _, (Std.compare_eq_iff_eq.mp heq).symm,
        (Option.some.inj h).symm⟩
    next =>
      rcases ih h with hq | ⟨k, hk, hn, hq⟩
      · exact .inl hq
      · exact .inr ⟨k, Nat.lt_succ_of_lt hk, hn, hq⟩

theorem fits_tower {height k depth : Nat} (hk : k < depth) :
    Perception.Fits (tower height) depth ("p" ++ toString k) := by
  induction depth generalizing k with
  | zero => exact absurd hk (Nat.not_lt_zero k)
  | succ depth ih =>
    intro q hq hlogical n hn
    rcases tower_getElem? hq with rfl | ⟨j, -, hname, rfl⟩
    · exact nomatch hlogical
    · obtain rfl := name_inj hname
      obtain rfl := List.mem_singleton.mp hn
      exact ih (by omega)

theorem towering_manageable {height : Nat} (h : height ≤ maxRecursionDepth) :
    Manageable (towering height) := by
  refine ⟨fun n predicates hasked => ?_, fun i w q hw => nomatch hw⟩
  have hmap : predicates = tower height := by
    cases hasked with
    | trigger | byName | until_ | step | target => rfl
    | inline hw => exact nomatch hw
  subst hmap
  rintro q ⟨k, -, hq⟩ child hchild
  rcases tower_getElem? hq with rfl | ⟨j, hj, -, rfl⟩
  · exact nomatch hchild
  · obtain rfl := List.mem_singleton.mp hchild
    exact fits_tower (Nat.lt_of_lt_of_le hj h)

/-- The highest tower the evaluator goes down. -/
theorem accepted_evaluation_sound_tower :
    ∃ fuel, ∀ m : Memory,
      Perception.evaluateNamed plainLibs fuel
          ⟨.dot, 10, (towering 32).predicates, ∅, some ⟨1⟩⟩ "p32" m = .error .panic ∨
        ∃ r m', Perception.evaluateNamed plainLibs fuel
            ⟨.dot, 10, (towering 32).predicates, ∅, some ⟨1⟩⟩ "p32" m = .ok (r, m') ∧
          ∀ k, r ≠ .error (.unknownPredicate k) ∧ r ≠ .error (.cycle k) := by
  obtain ⟨bound, hbound⟩ := accepted_evaluation_sound (p := towering 32) (n := "p32")
    (towering_accepted (by decide +kernel)) (towering_manageable (Nat.le_refl 32)) (.trigger rfl)
  exact ⟨bound, hbound bound (Nat.le_refl bound) plainLibs .dot 10 ∅ ⟨1⟩⟩

end Concrete
end Vcli.Dsl

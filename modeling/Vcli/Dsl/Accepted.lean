import Vcli.Core.Spelling
import Vcli.Dsl.Validate
import Vcli.Perception.Meaning

/-! What a program that passes validation promises to whoever runs it. -/

namespace Vcli.Dsl

open Relation

section Checks

theorem forM_cons {α : Type} {f : α → Check} (x : α) (l : List α) :
    (x :: l).forM f = (do f x; l.forM f) := rfl

theorem forM_eq_ok {α : Type} {f : α → Check} {l : List α} :
    l.forM f = .ok () ↔ ∀ x ∈ l, f x = .ok () := by
  induction l with
  | nil => exact ⟨fun _ => nofun, fun _ => rfl⟩
  | cons x l ih =>
    rw [forM_cons, Fallible.bind_eq_ok, List.forall_mem_cons, ← ih]
    constructor
    · rintro ⟨⟨⟩, hx, hl⟩
      exact ⟨hx, hl⟩
    · rintro ⟨hx, hl⟩
      exact ⟨(), hx, hl⟩

theorem forM_zipIdx_eq_ok {α : Type} {f : α × Nat → Check} {l : List α}
    (h : l.zipIdx.forM f = .ok ()) : ∀ x ∈ l, ∃ i, f (x, i) = .ok () := by
  intro x hx
  obtain ⟨i, hi, rfl⟩ := List.mem_iff_getElem.mp hx
  refine ⟨i, forM_eq_ok.mp h _ ?_⟩
  exact List.mk_mem_zipIdx_iff_getElem?.mpr (List.getElem?_eq_getElem hi)

theorem known_eq_ok {unknown : Option String → DslErrorKind} {name : String} {names : List String}
    {at_ : JsonPath} : known unknown name names at_ = .ok () ↔ name ∈ names := by
  unfold known
  split_ifs with h
  · exact ⟨fun _ => h, fun _ => rfl⟩
  · exact ⟨nofun, fun hname => absurd hname h⟩

end Checks

section Expression

def Accessor.text : Accessor → String
  | center => "center"
  | topLeft => "top_left"
  | box => "box"
  | confidence => "confidence"

def Expression.text (e : Expression) : List Char :=
  '$' :: ['.'].intercalate [e.name.toList, "match".toList, e.accessor.text.toList]

theorem accessorOf_eq_some {acc : List Char} {a : Accessor} :
    accessorOf acc = some a ↔ acc = a.text.toList := by
  unfold accessorOf
  constructor
  · intro h
    split_ifs at h with hacc hacc hacc hacc
    all_goals
      rw [hacc, ← Option.some.inj h]
      rfl
  · rintro rfl
    cases a <;> rfl

theorem point_notMem {name : List Char} (h : isValidName name = true) : '.' ∉ name := by
  cases name with
  | nil => exact nofun
  | cons c cs =>
    rw [isValidName, Bool.and_eq_true, List.all_eq_true] at h
    intro hmem
    rcases List.mem_cons.mp hmem with rfl | hmem
    · exact absurd h.1 (by decide)
    · exact absurd (h.2 '.' hmem) (by decide)

theorem Expression.parse_eq_ok {raw : String} {at_ : JsonPath} {e : Expression} :
    Expression.parse raw at_ = .ok e ↔
      isValidName e.name.toList = true ∧ raw.toList = e.text := by
  constructor
  · intro h
    -- all ways out of the parser but one refuse, and that one has seen the three parts
    unfold Expression.parse at h
    dsimp only at h
    split at h
    next rest hraw =>
      have hjoin : List.intercalate ['.'] (rest.splitOn '.') = rest := List.intercalate_splitOn '.'
      split at h
      next => exact nomatch h
      next => exact nomatch h
      next name parts _ hsplit =>
        split at h
        next => exact nomatch h
        next hname =>
        split at h
        next => exact nomatch h
        next keyword parts =>
        split at h
        next => exact nomatch h
        next hkeyword =>
        split at h
        next => exact nomatch h
        next acc parts =>
        split at h
        next => exact nomatch h
        next hparts =>
        split at h
        next => exact nomatch h
        next accessor hacc =>
          obtain rfl := Except.ok.inj h
          obtain rfl := not_not.mp hkeyword
          obtain rfl := not_not.mp hparts
          obtain rfl := accessorOf_eq_some.mp hacc
          rw [hsplit] at hjoin
          have hlist : (String.ofList name).toList = name := String.toList_ofList
          refine ⟨?_, ?_⟩
          · rw [hlist]
            exact Bool.of_not_eq_false hname
          · rw [hraw, ← hjoin, Expression.text, hlist]
    next => exact nomatch h
  · rintro ⟨hname, hraw⟩
    -- neither the name nor the accessor has a point in it, so the split finds them again
    have hsplit : (['.'].intercalate [e.name.toList, "match".toList,
        e.accessor.text.toList]).splitOn '.' =
          [e.name.toList, "match".toList, e.accessor.text.toList] := by
      refine List.splitOn_intercalate '.' ?_ (List.cons_ne_nil _ _)
      intro l hl
      simp only [List.mem_cons, List.not_mem_nil, or_false] at hl
      rcases hl with rfl | rfl | rfl
      · exact point_notMem hname
      · decide
      · cases e.accessor <;> decide
    have hne : e.name.toList ≠ [] := by
      intro hnil
      rw [hnil] at hname
      exact nomatch hname
    obtain ⟨c, cs, hcs⟩ := List.exists_cons_of_ne_nil hne
    have hacc := accessorOf_eq_some.mpr (rfl : e.accessor.text.toList = e.accessor.text.toList)
    rw [Expression.text] at hraw
    unfold Expression.parse
    simp only [hraw, hsplit]
    rw [hcs]
    simp only [← hcs, hname, hacc]
    simp

end Expression

section Graph

/-- `y` is among the names the predicate `x` depends on. -/
def Depends (predicates : Predicates) (x y : String) : Prop :=
  ∃ p, predicates[x]? = some p ∧ y ∈ edgesOf p

/-- Every name resolves, and no predicate depends on itself. -/
structure Grounded (predicates : Predicates) : Prop where
  named : ∀ x y, Depends predicates x y → y ∈ predicates
  acyclic : ∀ x, ¬ TransGen (Depends predicates) x x

theorem checkRegionReferences_ok {region : Region} {names : List String} {at_ : JsonPath}
    (h : checkRegionReferences region names at_ = .ok ()) {predicate : String} {anchor : Anchor}
    {offset : Point} {size : Option Size} (hr : region = .relativeTo predicate anchor offset size) :
    predicate ∈ names := by
  subst hr
  exact known_eq_ok.mp h

theorem checkOperands_ok {op : String} {of names : List String} {at_ : JsonPath}
    (h : checkOperands op of names at_ = .ok ()) : ∀ n ∈ of, n ∈ names := by
  unfold checkOperands at h
  split_ifs at h
  intro n hn
  obtain ⟨i, hi⟩ := forM_zipIdx_eq_ok h n hn
  exact known_eq_ok.mp hi

theorem checkPredicateReferences_ok {p : PredicateKind} {names : List String} {at_ : JsonPath}
    (h : checkPredicateReferences p names at_ = .ok ()) : ∀ n ∈ edgesOf p, n ∈ names := by
  cases p with
  | allOf of | anyOf of => exact checkOperands_ok h
  | not of | elapsedMsSinceTrue of ms =>
    rw [checkPredicateReferences] at h
    have hof := known_eq_ok.mp h
    intro n hn
    rwa [List.mem_singleton.mp hn]
  | colorAt => exact nofun
  | template image confidence region throttleMs | pixelDiff region baseline threshold =>
    cases region with
    | absolute | window => exact nofun
    | relativeTo predicate anchor offset size =>
      rw [checkPredicateReferences] at h
      have hpred := checkRegionReferences_ok h rfl
      intro n hn
      rwa [List.mem_singleton.mp hn]

theorem edgesIn_eq {predicates : Predicates} {n : String} {p : PredicateKind}
    (h : predicates[n]? = some p) : edgesIn predicates n = edgesOf p := by
  rw [edgesIn, h]
  rfl

theorem validatePredicateGraph_ok {predicates : Predicates}
    (h : validatePredicateGraph predicates = .ok ()) : Grounded predicates := by
  obtain ⟨⟨⟩, hshape, hsweep⟩ := Fallible.bind_eq_ok.mp h
  have hnamed : ∀ x y, Depends predicates x y → y ∈ predicates := by
    rintro x y ⟨p, hp, hy⟩
    have hmem := Std.ExtTreeMap.mem_toList_iff_getElem?_eq_some.mpr hp
    have hrefs := forM_eq_ok.mp hshape _ hmem
    exact Std.ExtTreeMap.mem_keys.mp (checkPredicateReferences_ok hrefs y hy)
  refine ⟨hnamed, fun x hcycle => ?_⟩
  split at hsweep
  next color hfound =>
    refine Search.sweep_acyclic hfound x (hcycle.lift id ?_)
    rintro y z ⟨p, hp, hz⟩
    show z ∈ edgesIn predicates y ∧ z ∈ predicates.keys
    refine ⟨?_, Std.ExtTreeMap.mem_keys.mpr (hnamed y z ⟨p, hp, hz⟩)⟩
    rwa [edgesIn_eq hp]
  next => exact nomatch hsweep

theorem validateInline_ok {predicates : Predicates} {q : PredicateKind}
    (h : validatePredicateGraph (predicates.insert synthetic q) = .ok ()) :
    ∀ n ∈ edgesOf q, n ∈ predicates := by
  have hgrounded := validatePredicateGraph_ok h
  have hself : (predicates.insert synthetic q)[synthetic]? = some q := by
    rw [Std.ExtTreeMap.getElem?_insert, if_pos Std.ReflCmp.compare_self]
  intro n hn
  have hdepends : Depends (predicates.insert synthetic q) synthetic n := ⟨q, hself, hn⟩
  rcases Std.ExtTreeMap.mem_insert.mp (hgrounded.named _ _ hdepends) with heq | hmem
  · -- a condition that named itself would be a cycle
    rw [← Std.compare_eq_iff_eq.mp heq] at hdepends
    exact absurd (.single hdepends) (hgrounded.acyclic synthetic)
  · exact hmem

end Graph

section Program

/-- Conditions that can be evaluated: a name that resolves, or a predicate whose names do. -/
def Conditioned (predicates : Predicates) : WatchWhen → Prop
  | .byName name => name ∈ predicates
  | .inline q => ∀ n ∈ edgesOf q, n ∈ predicates

def Aimed (predicates : Predicates) (t : Target) : Prop :=
  ∀ raw, t = .expression raw → ∃ e q, Expression.parse raw .root = .ok e ∧
    predicates[e.name]? = some q ∧ q.children = [] ∧ q.isLogical = false

def targetOf : Step → Option Target
  | .move t | .click t _ | .scroll t _ _ => some t
  | _ => none

def nameOf : Step → Option String
  | .waitFor n _ _ | .assert n _ => some n
  | _ => none

structure StepChecked (predicates : Predicates) (s : Step) : Prop where
  target : ∀ t, targetOf s = some t → Aimed predicates t
  name : ∀ n, nameOf s = some n → n ∈ predicates

structure WatchChecked (predicates : Predicates) (w : Watch) : Prop where
  condition : Conditioned predicates w.when_
  steps : ∀ s ∈ w.steps, StepChecked predicates s
  until_ : ∀ n, w.lifetime = .untilPredicate n → n ∈ predicates

structure Checked (p : Program) : Prop where
  grounded : Grounded p.predicates
  trigger : ∀ n, p.trigger = .onPredicate n → n ∈ p.predicates
  watches : ∀ w ∈ p.watches, WatchChecked p.predicates w
  body : ∀ s ∈ p.body, StepChecked p.predicates s

theorem validateTarget_ok {t : Target} {predicates : Predicates} {at_ : JsonPath}
    (h : validateTarget t predicates at_ = .ok ()) : Aimed predicates t := by
  rintro raw rfl
  obtain ⟨e, hparse, hkind⟩ := Fallible.bind_eq_ok.mp h
  refine ⟨e, ?_⟩
  cases hq : predicates[e.name]? with
  | none =>
    rw [hq] at hkind
    exact nomatch hkind
  | some q =>
    rw [hq] at hkind
    refine ⟨q, Expression.parse_eq_ok.mpr (Expression.parse_eq_ok.mp hparse), rfl, ?_⟩
    cases q with
    | template | colorAt | pixelDiff => exact ⟨rfl, rfl⟩
    | allOf | anyOf | not | elapsedMsSinceTrue => exact nomatch hkind

theorem validateStep_ok {s : Step} {predicates : Predicates} {inWatch : Bool} {at_ : JsonPath}
    (h : validateStep s predicates inWatch at_ = .ok ()) : StepChecked predicates s := by
  cases s with
  | move t | click t button | scroll t dx dy =>
    refine ⟨?_, nofun⟩
    rintro _ ⟨⟩
    exact validateTarget_ok h
  | type | key | sleepMs => exact ⟨nofun, nofun⟩
  | waitFor n timeoutMs onTimeout | assert n onFail =>
    refine ⟨nofun, ?_⟩
    rintro _ ⟨⟩
    obtain ⟨⟨⟩, -, hname⟩ := Fallible.bind_eq_ok.mp h
    exact Std.ExtTreeMap.mem_keys.mp (known_eq_ok.mp hname)

theorem validateSteps_ok {steps : List Step} {predicates : Predicates} {inWatch : Bool}
    {base : JsonPath} (h : validateSteps inWatch steps predicates base = .ok ()) :
    ∀ s ∈ steps, StepChecked predicates s := by
  intro s hs
  obtain ⟨i, hi⟩ := forM_zipIdx_eq_ok h s hs
  exact validateStep_ok hi

theorem mapError_eq_ok {ε ε' α : Type} {x : Except ε α} {f : ε → ε'} {a : α}
    (h : x.mapError f = .ok a) : x = .ok a := by
  cases x with
  | ok b => exact congrArg Except.ok (Except.ok.inj h)
  | error e => exact nomatch h

theorem validateWatch_ok {w : Watch} {predicates : Predicates} {at_ : JsonPath}
    (h : validateWatch w predicates at_ = .ok ()) : WatchChecked predicates w := by
  obtain ⟨⟨⟩, hwhen, h⟩ := Fallible.bind_eq_ok.mp h
  obtain ⟨⟨⟩, hsteps, hlifetime⟩ := Fallible.bind_eq_ok.mp h
  refine ⟨?_, validateSteps_ok hsteps, fun n hn => ?_⟩
  · cases hw : w.when_ with
    | byName name =>
      rw [hw] at hwhen
      exact Std.ExtTreeMap.mem_keys.mp (known_eq_ok.mp hwhen)
    | inline q =>
      rw [hw, validateWatchWhen] at hwhen
      split_ifs at hwhen
      exact validateInline_ok (mapError_eq_ok hwhen)
  · rw [hn] at hlifetime
    exact Std.ExtTreeMap.mem_keys.mp (known_eq_ok.mp hlifetime)

theorem finish_ok {X : Crates} {p : Program} {out : Validated} (h : finish X p = .ok out) :
    Checked p ∧ out.program = p := by
  obtain ⟨⟨⟩, hgraph, h⟩ := Fallible.bind_eq_ok.mp h
  obtain ⟨⟨⟩, htrigger, h⟩ := Fallible.bind_eq_ok.mp h
  obtain ⟨⟨⟩, hwatches, h⟩ := Fallible.bind_eq_ok.mp h
  obtain ⟨⟨⟩, hbody, h⟩ := Fallible.bind_eq_ok.mp h
  obtain ⟨hashes, -, h⟩ := Fallible.bind_eq_ok.mp h
  refine ⟨⟨validatePredicateGraph_ok hgraph, fun n hn => ?_, fun w hw => ?_, ?_⟩, ?_⟩
  · rw [hn] at htrigger
    exact Std.ExtTreeMap.mem_keys.mp (known_eq_ok.mp htrigger)
  · obtain ⟨i, hi⟩ := forM_zipIdx_eq_ok hwatches w hw
    exact validateWatch_ok hi
  · exact validateSteps_ok hbody
  · rw [← Except.ok.inj h]

theorem Accepted.checked {X : Crates} {p : Program} (h : Accepted X p) : Checked p := by
  obtain ⟨v, hashes, hv⟩ := h
  obtain ⟨q, -, hfinish⟩ := Fallible.bind_eq_ok.mp hv
  obtain ⟨hchecked, rfl⟩ := finish_ok hfinish
  exact hchecked

theorem accepted_of_finish {X : Crates} {p : Program} (v : Value)
    (hparse : parseEnvelopeValue X v.1 = .ok p) (hfinish : (finish X p).isOk = true) :
    Accepted X p := by
  refine ⟨v, ?_⟩
  cases hout : finish X p with
  | error e =>
    rw [hout] at hfinish
    exact nomatch hfinish
  | ok out =>
    obtain ⟨-, rfl⟩ := finish_ok hout
    refine ⟨out.hashes, ?_⟩
    rw [validateValue, hparse]
    exact hout

theorem parseEnvelopeValue_toValue {X : Crates} {p : Program} {T : Json → Json} {g : F64 → F64}
    (h : Rendering T g) {S : String → Prop} (hp : p.Fits S)
    (hid : ∀ id ∈ p.id, X.parseId id.toString = some id)
    (hmajor : major p.version = supportedDslMajor) :
    parseEnvelopeValue X (T p.toValue) = .ok (p.mapPredicates (PredicateKind.mapFloats g)) := by
  have hread := Program.fromValue_render h hp hid
  have hkeys := p.keyed_entries.nodup (by decide)
  obtain ⟨es, hes, -⟩ := h.object _ hkeys
  have hversion : es.lookup "version" = some (.string p.version) := by
    have hrecord := h.record hkeys []
    rw [hes] at hrecord
    have hfield := congrFun (Option.some.inj hrecord) "version"
    rw [hfield, p.lookup_entries.1, Option.map_some, h.string]
  rw [p.toValue_eq, hes] at hread ⊢
  rw [parseEnvelopeValue, hversion]
  dsimp only
  rw [if_neg (not_not.mpr hmajor), hread]

theorem accepted_of_fits {X : Crates} {p : Program} (hp : p.Fits fun _ => True)
    (hid : ∀ id ∈ p.id, X.parseId id.toString = some id)
    (hmajor : major p.version = supportedDslMajor) (hfinish : (finish X p).isOk = true) :
    Accepted X p := by
  have hspelled := Program.spelled_toValue (fun _ _ => trivial) hp
  have hparse := parseEnvelopeValue_toValue rendering_id hp hid hmajor
  rw [p.mapPredicates_id PredicateKind.mapFloats_id] at hparse
  exact accepted_of_finish ⟨p.toValue, hspelled.wellFormed⟩ hparse hfinish

def watching (condition : PredicateKind) : Program :=
  { Program.blank "p" with watches := [⟨.inline condition, [], 0, .persistent⟩] }

theorem watching_accepted {condition : PredicateKind} (hfits : condition.Fits fun _ => True)
    (h : (finish plainCrates (watching condition)).isOk = true) :
    Accepted plainCrates (watching condition) := by
  refine accepted_of_fits ?_ (fun _ hid => nomatch hid)
    (show major "0.1" = supportedDslMajor by decide) h
  constructor
  case watches =>
    intro w hw
    obtain rfl := List.mem_singleton.mp hw
    exact ⟨hfits, fun _ hs => (nomatch hs), trivial⟩
  case predicates => simp [watching, Program.blank]
  case labels => simp [watching, Program.blank]
  case priority => exact inI32_zero
  case body | onComplete | onFail => exact fun _ hs => nomatch hs
  all_goals trivial

end Program

end Vcli.Dsl

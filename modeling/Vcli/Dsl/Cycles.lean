import Vcli.Dsl.Accepted

/-! What the validation of a predicate map decides, and the cycle it reports. -/

namespace Vcli.Dsl

open Relation

section Shape

variable {names : List String} {at_ : JsonPath}

theorem checkOperands_eq_ok {op : String} {of : List String} :
    checkOperands op of names at_ = .ok () ↔ (∀ n ∈ of, n ∈ names) ∧ of ≠ [] := by
  constructor
  · intro h
    refine ⟨checkOperands_ok h, ?_⟩
    rintro rfl
    exact nomatch h
  · rintro ⟨hnamed, hne⟩
    rw [checkOperands, if_neg hne]
    refine forM_eq_ok.mpr fun n hn => known_eq_ok.mpr (hnamed n.1 ?_)
    exact List.fst_mem_of_mem_zipIdx hn

theorem checkPredicateReferences_eq_ok {q : PredicateKind} :
    checkPredicateReferences q names at_ = .ok () ↔
      (∀ n ∈ edgesOf q, n ∈ names) ∧ q ≠ .allOf [] ∧ q ≠ .anyOf [] := by
  cases q with
  | allOf of | anyOf of => simp [checkPredicateReferences, checkOperands_eq_ok, edgesOf]
  | not of => simp [checkPredicateReferences, resolveName, known_eq_ok, edgesOf]
  | elapsedMsSinceTrue predicate ms =>
    simp [checkPredicateReferences, resolveElapsed, known_eq_ok, edgesOf]
  | colorAt => simp [checkPredicateReferences, edgesOf]
  | template image confidence region throttleMs | pixelDiff region baseline threshold =>
    cases region with
    | absolute | window => simp [checkPredicateReferences, checkRegionReferences, edgesOf]
    | relativeTo predicate anchor offset size =>
      simp [checkPredicateReferences, checkRegionReferences, resolveName, known_eq_ok, edgesOf]

theorem forM_eq_error_iff {α : Type} {f : α → Check} {l : List α} {e : DslError} :
    l.forM f = .error e ↔ ∃ pre x post, l = pre ++ x :: post ∧ (∀ y ∈ pre, f y = .ok ()) ∧
      f x = .error e := by
  induction l with
  | nil =>
    refine iff_of_false nofun ?_
    rintro ⟨pre, x, post, h, -⟩
    exact nomatch (List.append_eq_nil_iff.mp h.symm).2
  | cons x l ih =>
    rw [forM_cons, Fallible.bind_eq_error]
    constructor
    · rintro (hx | ⟨⟨⟩, hx, hl⟩)
      · exact ⟨[], x, l, rfl, nofun, hx⟩
      · obtain ⟨pre, y, post, rfl, hpre, hy⟩ := ih.mp hl
        exact ⟨x :: pre, y, post, rfl, List.forall_mem_cons.mpr ⟨hx, hpre⟩, hy⟩
    · rintro ⟨pre, y, post, h, hpre, hy⟩
      cases pre with
      | nil =>
        obtain ⟨rfl, rfl⟩ := List.cons.inj h
        exact .inl hy
      | cons z pre =>
        obtain ⟨rfl, rfl⟩ := List.cons.inj h
        obtain ⟨hx, hpre⟩ := List.forall_mem_cons.mp hpre
        exact .inr ⟨(), hx, ih.mpr ⟨pre, y, post, rfl, hpre, hy⟩⟩

theorem forM_eq_error {α : Type} {f : α → Check} {l : List α} {e : DslError}
    (h : l.forM f = .error e) : ∃ x ∈ l, f x = .error e := by
  obtain ⟨pre, x, post, rfl, -, hx⟩ := forM_eq_error_iff.mp h
  exact ⟨x, List.mem_append_right pre List.mem_cons_self, hx⟩

def DslErrorKind.OfShape : DslErrorKind → Prop
  | .unknownPredicateName _ _ | .elapsedReferenceMissing _ | .emptyLogicalOp _ => True
  | _ => False

theorem resolveName_ofShape {name : String} {e : DslError}
    (h : resolveName name names at_ = .error e) : e.kind.OfShape := by
  rw [resolveName, known] at h
  split_ifs at h
  rw [← Except.error.inj h]
  trivial

theorem checkPredicateReferences_ofShape {q : PredicateKind} {e : DslError}
    (h : checkPredicateReferences q names at_ = .error e) : e.kind.OfShape := by
  have hoperands : ∀ op of, checkOperands op of names at_ = .error e → e.kind.OfShape := by
    intro op of h
    rw [checkOperands] at h
    split_ifs at h with hnil
    · rw [← Except.error.inj h]
      trivial
    · obtain ⟨n, -, hn⟩ := forM_eq_error h
      exact resolveName_ofShape hn
  cases q with
  | allOf of | anyOf of => exact hoperands _ _ h
  | not of => exact resolveName_ofShape h
  | elapsedMsSinceTrue predicate ms =>
    rw [checkPredicateReferences, resolveElapsed, known] at h
    split_ifs at h
    rw [← Except.error.inj h]
    trivial
  | colorAt => cases h
  | template image confidence region throttleMs | pixelDiff region baseline threshold =>
    cases region with
    | absolute | window => cases h
    | relativeTo predicate anchor offset size => exact resolveName_ofShape h

end Shape

section Graph

variable {predicates : Predicates}

structure WellFormed (predicates : Predicates) : Prop extends Grounded predicates where
  joined : ∀ x : String, predicates[x]? ≠ some (PredicateKind.allOf []) ∧
    predicates[x]? ≠ some (PredicateKind.anyOf [])

theorem validatePredicateShape_eq_ok : validatePredicateShape predicates = .ok () ↔
    (∀ x y, Depends predicates x y → y ∈ predicates) ∧
      ∀ x : String, predicates[x]? ≠ some (PredicateKind.allOf []) ∧
        predicates[x]? ≠ some (PredicateKind.anyOf []) := by
  have hchecks : validatePredicateShape predicates = .ok () ↔
      ∀ (x : String) q, predicates[x]? = some q →
        (∀ n ∈ edgesOf q, n ∈ predicates) ∧ q ≠ .allOf [] ∧ q ≠ .anyOf [] := by
    rw [validatePredicateShape, forM_eq_ok]
    simp only [checkPredicateReferences_eq_ok, Std.ExtTreeMap.mem_keys, Prod.forall,
      Std.ExtTreeMap.mem_toList_iff_getElem?_eq_some]
  rw [hchecks]
  constructor
  · intro h
    refine ⟨fun x y ⟨q, hq, hy⟩ => (h x q hq).1 y hy, fun x => ⟨fun hx => ?_, fun hx => ?_⟩⟩
    · exact (h x _ hx).2.1 rfl
    · exact (h x _ hx).2.2 rfl
  · rintro ⟨hnamed, hjoined⟩ x q hq
    refine ⟨fun n hn => hnamed x n ⟨q, hq, hn⟩, ?_, ?_⟩
    · rintro rfl
      exact (hjoined x).1 hq
    · rintro rfl
      exact (hjoined x).2 hq

theorem edge_depends {x y : String} (h : Search.Edge predicates.keys (edgesIn predicates) x y) :
    Depends predicates x y := by
  have hy := h.1
  cases hx : predicates[x]? with
  | none =>
    rw [edgesIn, hx] at hy
    exact absurd hy List.not_mem_nil
  | some q =>
    rw [edgesIn_eq hx] at hy
    exact ⟨q, hx, hy⟩

theorem validatePredicateGraph_beside (predicates : Predicates) :
    validatePredicateGraph predicates = (do
      validatePredicateShape predicates
      match Search.sweepBeside predicates.keys (edgesIn predicates) predicates.keys
          fun _ => .white with
      | .ok _ => .ok ()
      | .error cycle => .error ⟨.predicateCycle cycle, JsonPath.root.key "predicates"⟩) := by
  rw [Search.sweepBeside_eq]
  rfl

theorem validatePredicateGraph_eq_ok :
    validatePredicateGraph predicates = .ok () ↔ WellFormed predicates := by
  constructor
  · intro h
    obtain ⟨⟨⟩, hshape, -⟩ := Fallible.bind_eq_ok.mp h
    exact ⟨validatePredicateGraph_ok h, (validatePredicateShape_eq_ok.mp hshape).2⟩
  · intro h
    refine Fallible.bind_eq_ok.mpr ⟨(), validatePredicateShape_eq_ok.mpr ⟨h.named, h.joined⟩, ?_⟩
    have hacyclic : ∀ x, ¬ TransGen (Search.Edge predicates.keys (edgesIn predicates)) x x :=
      fun x hx => h.acyclic x (hx.lift id fun _ _ => edge_depends)
    obtain ⟨color, hcolor⟩ := Search.sweep_ok_iff.mpr hacyclic
    rw [hcolor]

/-- A cycle that is reported is one. -/
theorem validatePredicateGraph_cycle {cycle : List String} {at_ : JsonPath}
    (h : validatePredicateGraph predicates = .error ⟨.predicateCycle cycle, at_⟩) :
    Search.IsLoop (Depends predicates) cycle := by
  rcases Fallible.bind_eq_error.mp h with hshape | ⟨⟨⟩, -, hsearch⟩
  · obtain ⟨x, -, hx⟩ := forM_eq_error hshape
    exact (checkPredicateReferences_ofShape hx).elim
  · split at hsearch
    next => exact nomatch hsearch
    next loop hfound =>
      obtain ⟨hkind, -⟩ := DslError.mk.inj (Except.error.inj hsearch)
      rw [← DslErrorKind.predicateCycle.inj hkind]
      have hloop := Search.sweep_found Search.sound_start hfound
      exact ⟨hloop.length, hloop.ends, hloop.chain.imp fun _ _ => edge_depends⟩

/-- The validation of a predicate map decides whether it is well formed, and a cycle it reports is
one of its dependency graph. -/
theorem validatePredicateGraph_exact (predicates : Predicates) :
    (validatePredicateGraph predicates = .ok () ↔ WellFormed predicates) ∧
      ∀ cycle at_, validatePredicateGraph predicates = .error ⟨.predicateCycle cycle, at_⟩ →
        Search.IsLoop (Depends predicates) cycle :=
  ⟨validatePredicateGraph_eq_ok, fun _ _ h => validatePredicateGraph_cycle h⟩

end Graph

end Vcli.Dsl

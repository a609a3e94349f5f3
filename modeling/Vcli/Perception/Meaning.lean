import Vcli.Perception.Evaluate

/-! What a predicate says about a frame. Template matches, colours and their logical combinations
have a value that depends on the frame, the predicate map and the assets alone; evaluation
through a cache returns it, as long as the cache holds nothing else. -/

namespace Vcli

open Fallible

def PredicateKind.isLogical : PredicateKind → Bool
  | allOf _ | anyOf _ | not _ => true
  | _ => false

def PredicateKind.children : PredicateKind → List String
  | allOf of | anyOf of => of
  | not of | elapsedMsSinceTrue of _ => [of]
  | _ => []

def PredicateKind.isTimeless : PredicateKind → Bool
  | elapsedMsSinceTrue .. | pixelDiff .. => false
  | _ => true

namespace Perception

/-- The evaluation of `name` nests at most `k` calls before it comes to a node that is not
logical. -/
def Fits (predicates : Predicates) : Nat → String → Prop
  | 0, _ => False
  | k + 1, name => ∀ p, predicates[name]? = some p → p.isLogical = true →
      ∀ n ∈ p.children, Fits predicates k n

def Held (predicates : Predicates) (S : String → Prop) (p : PredicateKind) : Prop :=
  ∃ n, S n ∧ predicates[n]? = some p

theorem Held.mono {predicates : Predicates} {S T : String → Prop} {p : PredicateKind}
    (h : Held predicates S p) (hsub : ∀ k, S k → T k) : Held predicates T p := by
  obtain ⟨k, hk, hp⟩ := h
  exact ⟨k, hsub k hk, hp⟩

def Closed (predicates : Predicates) (S : String → Prop) : Prop :=
  ∀ p, Held predicates S p → ∀ n ∈ p.children, S n

def Shallow (predicates : Predicates) (S : String → Prop) : Prop :=
  ∀ p, Held predicates S p → ∀ n ∈ p.children, Fits predicates maxRecursionDepth n

section Denote
variable (L : Libs) (c : EvalCtx)

def resolve (ev : PredicateKind → Glance PredicateResult) (name : String) :
    Glance PredicateResult :=
  match c.predicates[name]? with
  | none => fail (.unknownPredicate name)
  | some p => ev p

def denote : Nat → PredicateKind → Glance PredicateResult
  | 0, _ => crash .stackOverflow
  | k + 1, p =>
    match p with
    | .colorAt point rgb tolerance => evalColorAt c.frame c.nowMs point rgb tolerance
    | .template image confidence region _ =>
      evalTemplate L c.frame c.nowMs c.assets image confidence region
    | .allOf of => evalAllOf c.nowMs (resolve c (denote k)) of
    | .anyOf of => evalAnyOf c.nowMs (resolve c (denote k)) of
    | .not of => evalNot c.nowMs (resolve c (denote k)) of
    | .elapsedMsSinceTrue .. | .pixelDiff .. => crash .stackOverflow

def Means (p : PredicateKind) (r : Except PerceptionError PredicateResult) : Prop :=
  ∃ k, (denote L c k p).Returns () r ()

def NameMeans (name : String) (r : Except PerceptionError PredicateResult) : Prop :=
  ∃ k, (resolve c (denote L c k) name).Returns () r ()

variable {L c}

theorem evalUntil_extends {stop : Bool} {nowMs : UnixMs} {ev ev' : String → Glance PredicateResult}
    (h : ∀ n, Extends (ev n) (ev' n)) (of : List String) :
    Extends (evalUntil stop nowMs ev of) (evalUntil stop nowMs ev' of) := by
  induction of with
  | nil => exact .refl _
  | cons n of ih =>
    refine (h n).bind fun r => ?_
    split_ifs
    · exact .refl _
    · exact ih

theorem resolve_extends {ev ev' : PredicateKind → Glance PredicateResult}
    (h : ∀ p, Extends (ev p) (ev' p)) (name : String) :
    Extends (resolve c ev name) (resolve c ev' name) := by
  unfold resolve
  split
  · exact .refl _
  · exact h _

theorem denote_extends (k : Nat) (p : PredicateKind) :
    Extends (denote L c k p) (denote L c (k + 1) p) := by
  induction k generalizing p with
  | zero => exact crash_extends
  | succ k ih =>
    cases p with
    | colorAt | template | elapsedMsSinceTrue | pixelDiff => exact .refl _
    | allOf of | anyOf of => exact evalUntil_extends (resolve_extends ih) of
    | not of => exact (resolve_extends ih of).bind fun _ => .refl _

theorem denote_extends_le {k k' : Nat} (h : k ≤ k') (p : PredicateKind) :
    Extends (denote L c k p) (denote L c k' p) := by
  induction h with
  | refl => exact .refl _
  | step _ ih => exact fun _ _ _ hret => denote_extends _ p (ih hret)

theorem Means.unique {p : PredicateKind} {r r' : Except PerceptionError PredicateResult}
    (h : Means L c p r) (h' : Means L c p r') : r = r' := by
  obtain ⟨k, hk⟩ := h
  obtain ⟨k', hk'⟩ := h'
  have hmax := denote_extends_le (le_max_left k k') p hk
  have hmax' := denote_extends_le (le_max_right k k') p hk'
  exact (hmax.unique hmax').1

theorem nameMeans_none {name : String} (h : c.predicates[name]? = none) :
    NameMeans L c name (.error (.unknownPredicate name)) := by
  refine ⟨0, ?_⟩
  unfold resolve
  rw [h]
  exact returns_fail.mpr ⟨rfl, rfl⟩

theorem nameMeans_some {name : String} {p : PredicateKind} (h : c.predicates[name]? = some p)
    {r : Except PerceptionError PredicateResult} : NameMeans L c name r ↔ Means L c p r := by
  unfold NameMeans Means resolve
  rw [h]

def Accounted (G : PerceptionError → Prop) (r : Except PerceptionError PredicateResult) : Prop :=
  ∀ e, r = .error e → G e

/-- If each of the names evaluates to what it means, so does their combination. -/
theorem evalUntil_yields {I : Memory → Prop} {G : PerceptionError → Prop} {stop : Bool}
    {ev : String → Eval PredicateResult} {of : List String}
    (hev : ∀ n ∈ of, Yields I (ev n) fun r => Accounted G r → NameMeans L c n r) :
    Yields I (evalUntil stop c.nowMs ev of) fun r => Accounted G r →
      ∃ k, (evalUntil stop c.nowMs (resolve c (denote L c k)) of).Returns () r () := by
  induction of with
  | nil => exact yields_pure fun _ => ⟨0, returns_pure.mpr ⟨rfl, rfl⟩⟩
  | cons n of ih =>
    refine yields_bind (hev n List.mem_cons_self) ?_ ?_
    · intro e hmeans hacc
      obtain ⟨k, hk⟩ := hmeans hacc
      exact ⟨k, returns_bind.mpr (.inl ⟨e, hk, rfl⟩)⟩
    · intro a hmeans
      obtain ⟨k, hk⟩ := hmeans nofun
      split_ifs with hstop
      · refine yields_pure fun _ => ⟨k, returns_bind.mpr (.inr ⟨a, (), hk, ?_⟩)⟩
        rw [if_pos hstop]
        exact returns_pure.mpr ⟨rfl, rfl⟩
      · refine (ih fun m hm => hev m (List.mem_cons_of_mem _ hm)).mono fun r hrest hacc => ?_
        obtain ⟨k', hk'⟩ := hrest hacc
        -- the head and the rest return within a common bound
        refine ⟨max k k', returns_bind.mpr (.inr ⟨a, (), ?_, ?_⟩)⟩
        · exact resolve_extends (fun p => denote_extends_le (le_max_left k k') p) n hk
        · rw [if_neg hstop]
          exact evalUntil_extends
            (resolve_extends fun p => denote_extends_le (le_max_right k k') p) of hk'

theorem dispatch_yields_logical {c' : EvalCtx} (hnow : c'.nowMs = c.nowMs) {I : Memory → Prop}
    {G : PerceptionError → Prop} {ev : String → Nat → Eval PredicateResult} {depth : Nat}
    {p : PredicateKind} (hp : p.isLogical = true)
    (hev : ∀ n ∈ p.children, Yields I (ev n depth) fun r => Accounted G r → NameMeans L c n r) :
    Yields I (dispatch L c' ev depth p) fun r => Accounted G r → Means L c p r := by
  cases p with
  | colorAt | template | elapsedMsSinceTrue | pixelDiff => exact nomatch hp
  | allOf of | anyOf of =>
    rw [dispatch, hnow]
    refine (evalUntil_yields hev).mono fun r hr hacc => ?_
    obtain ⟨k, hk⟩ := hr hacc
    exact ⟨k + 1, hk⟩
  | not of =>
    rw [dispatch, hnow]
    refine yields_bind (hev of List.mem_cons_self) ?_ ?_
    · intro e hmeans hacc
      obtain ⟨k, hk⟩ := hmeans hacc
      exact ⟨k + 1, returns_bind.mpr (.inl ⟨e, hk, rfl⟩)⟩
    · intro a hmeans
      obtain ⟨k, hk⟩ := hmeans nofun
      refine yields_pure fun _ => ⟨k + 1, returns_bind.mpr (.inr ⟨a, (), hk, ?_⟩)⟩
      exact returns_pure.mpr ⟨rfl, rfl⟩

theorem dispatch_yields_leaf {c' : EvalCtx} (hframe : c'.frame = c.frame)
    (hnow : c'.nowMs = c.nowMs) {I : Memory → Prop} {ev : String → Nat → Eval PredicateResult}
    {depth : Nat} {p : PredicateKind} (hp : p.isTimeless = true) (hleaf : p.isLogical = false)
    (himage : ∀ image confidence region throttleMs, p = .template image confidence region throttleMs →
      c.assets[assetKey image]? = c'.assets[assetKey image]?) :
    Yields I (dispatch L c' ev depth p) (Means L c p) := by
  cases p with
  | allOf | anyOf | not => exact nomatch hleaf
  | elapsedMsSinceTrue | pixelDiff => exact nomatch hp
  | colorAt =>
    rw [dispatch, hframe, hnow]
    exact yields_beside fun r hr => ⟨1, hr⟩
  | template image confidence region throttleMs =>
    have hsame : evalTemplate L c'.frame c'.nowMs c'.assets image confidence region =
        evalTemplate L c.frame c.nowMs c.assets image confidence region := by
      rw [evalTemplate, evalTemplate, himage image confidence region throttleMs rfl, hframe, hnow]
    rw [dispatch, hsame]
    exact yields_beside fun r hr => ⟨1, hr⟩

end Denote

end Perception

end Vcli

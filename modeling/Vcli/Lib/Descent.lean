import Mathlib.Data.Set.Card
import Mathlib.Logic.Relation
import Mathlib.Order.CompletePartialOrder

/-! Relations without cycles in which finitely many elements have successors: every chain is
finite, and no longer than the number of these elements. -/

namespace Descent

open Relation

variable {α : Type*} {r : α → α → Prop} {D : Set α}

def below (r : α → α → Prop) (D : Set α) (x : α) : Set α := {y | y ∈ D ∧ ReflTransGen r x y}

theorem below_ssubset (hdom : ∀ x y, r x y → x ∈ D) (hacyclic : ∀ x, ¬ TransGen r x x) {x y : α}
    (h : r x y) : below r D y ⊂ below r D x := by
  refine ⟨fun z hz => ⟨hz.1, .head h hz.2⟩, fun hsub => ?_⟩
  have hx : x ∈ below r D y := hsub ⟨hdom x y h, .refl⟩
  exact hacyclic x (TransGen.head' h hx.2)

theorem exists_rank (hD : D.Finite) (hdom : ∀ x y, r x y → x ∈ D)
    (hacyclic : ∀ x, ¬ TransGen r x x) :
    ∃ rank : α → Nat, (∀ x y, r x y → rank y < rank x) ∧ ∀ x, rank x ≤ D.ncard := by
  have hsub : ∀ x, below r D x ⊆ D := fun x y hy => hy.1
  refine ⟨fun x => (below r D x).ncard, ?_, ?_⟩
  · exact fun x y h => Set.ncard_lt_ncard (below_ssubset hdom hacyclic h) (hD.subset (hsub x))
  · exact fun x => Set.ncard_le_ncard (hsub x) hD

end Descent

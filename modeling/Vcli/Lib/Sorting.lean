import Mathlib.Data.List.Sort

/-! Association lists in the order of their keys. -/

namespace Sorting

variable {J K O α β : Type} [LE O] {rank : K → O} {l l' : List (K × α)}

def Increasing [LT O] (rank : K → O) (keys : List K) : Prop :=
  keys.Pairwise fun j k => rank j < rank k

theorem Increasing.le [LT O] [Std.LawfulOrderLT O] (h : Increasing rank (l.map Prod.fst)) :
    l.Pairwise fun x y => rank x.1 ≤ rank y.1 := by
  rw [Increasing, List.pairwise_map] at h
  exact h.imp fun hlt => (Std.lt_iff_le_and_not_ge.mp hlt).1

theorem lt_of_not_ge [LT O] [Std.IsLinearOrder O] [Std.LawfulOrderLT O] {x y : O}
    (h : ¬ y ≤ x) : x < y :=
  Std.lt_iff_le_and_not_ge.mpr ⟨Std.le_total.resolve_right h, h⟩

theorem le_iff_le [LT O] [Std.IsLinearOrder O] [Std.LawfulOrderLT O] {x y x' y' : O}
    (hlt : x < y → x' < y') (hgt : y < x → y' < x') (heq : x = y → x' = y') :
    x ≤ y ↔ x' ≤ y' := by
  constructor
  · intro h
    by_cases hge : y ≤ x
    · rw [heq (Std.le_antisymm h hge)]
      exact Std.le_refl y'
    · exact (Std.lt_iff_le_and_not_ge.mp (hlt (lt_of_not_ge hge))).1
  · intro h
    by_contra hnot
    exact (Std.lt_iff_le_and_not_ge.mp (hgt (lt_of_not_ge hnot))).2 h

theorem eq_of_perm [LT O] [Std.LawfulOrderLT O] (hp : l.Perm l')
    (h : Increasing rank (l.map Prod.fst)) (h' : Increasing rank (l'.map Prod.fst)) :
    l = l' := by
  rw [Increasing, List.pairwise_map] at h h'
  refine List.Perm.eq_of_pairwise (fun x y _ _ hxy hyx => ?_) h h' hp
  exact absurd (Std.lt_iff_le_and_not_ge.mp hyx).1 (Std.lt_iff_le_and_not_ge.mp hxy).2

variable [DecidableLE O]

def byKey (rank : K → O) (l : List (K × α)) : List (K × α) :=
  l.insertionSort fun x y => rank x.1 ≤ rank y.1

theorem byKey_perm (rank : K → O) (l : List (K × α)) : (byKey rank l).Perm l :=
  List.perm_insertionSort _ l

theorem mem_byKey {x : K × α} : x ∈ byKey rank l ↔ x ∈ l := List.mem_insertionSort _

theorem byKey_map {rank' : J → O} (f : K × α → J × β)
    (h : ∀ x ∈ l, ∀ y ∈ l, (rank x.1 ≤ rank y.1 ↔ rank' (f x).1 ≤ rank' (f y).1)) :
    byKey rank' (l.map f) = (byKey rank l).map f :=
  (List.map_insertionSort _ _ f l h).symm

theorem pairwise_byKey [Std.IsLinearOrder O] (l : List (K × α)) :
    (byKey rank l).Pairwise fun x y => rank x.1 ≤ rank y.1 := by
  have : Std.Total fun x y : K × α => rank x.1 ≤ rank y.1 := ⟨fun _ _ => Std.le_total⟩
  have : IsTrans (K × α) fun x y => rank x.1 ≤ rank y.1 := ⟨fun _ _ _ => Std.le_trans⟩
  exact List.pairwise_insertionSort _ l

variable [LT O] [Std.LawfulOrderLT O]

theorem byKey_of_increasing (h : Increasing rank (l.map Prod.fst)) : byKey rank l = l :=
  h.le.insertionSort_eq

variable [Std.IsLinearOrder O]

theorem increasing_byKey (h : (l.map fun x => rank x.1).Nodup) :
    Increasing rank ((byKey rank l).map Prod.fst) := by
  have hperm : ((byKey rank l).map fun x => rank x.1).Perm (l.map fun x => rank x.1) :=
    (byKey_perm rank l).map _
  have hne : (byKey rank l).Pairwise fun x y => rank x.1 ≠ rank y.1 :=
    List.pairwise_map.mp (hperm.nodup_iff.mpr h)
  rw [Increasing, List.pairwise_map]
  refine ((pairwise_byKey l).and hne).imp fun ⟨hxy, hneq⟩ => lt_of_not_ge fun hyx => hneq ?_
  exact Std.le_antisymm hxy hyx

theorem lt_of_byKey {R : K × α → K × α → Prop} (h : (byKey rank l).Pairwise R) :
    ∀ x ∈ l, ∀ y ∈ l, rank x.1 < rank y.1 → R x y := by
  have hself : ∀ x ∈ byKey rank l, rank x.1 < rank x.1 → R x x := fun x _ hlt =>
    absurd (Std.le_refl _) (Std.lt_iff_le_and_not_ge.mp hlt).2
  have hforth : (byKey rank l).Pairwise fun x y => rank x.1 < rank y.1 → R x y := by
    refine List.Pairwise.imp ?_ h
    intro x y hR _
    exact hR
  have hback : (byKey rank l).Pairwise fun x y => rank y.1 < rank x.1 → R y x := by
    refine List.Pairwise.imp ?_ (pairwise_byKey l)
    intro x y hle hlt
    exact absurd hle (Std.lt_iff_le_and_not_ge.mp hlt).2
  intro x hx y hy
  exact List.Pairwise.forall_of_forall_of_flip hself hforth hback (mem_byKey.mpr hx)
    (mem_byKey.mpr hy)

theorem byKey_eq_of_perm (hp : l.Perm l') (h : (l.map fun x => rank x.1).Nodup) :
    byKey rank l = byKey rank l' := by
  have hperm : (byKey rank l).Perm (byKey rank l') :=
    (byKey_perm rank l).trans (hp.trans (byKey_perm rank l').symm)
  have h' : (l'.map fun x => rank x.1).Nodup := (hp.map fun x => rank x.1).nodup_iff.mp h
  exact eq_of_perm hperm (increasing_byKey h) (increasing_byKey h')

end Sorting

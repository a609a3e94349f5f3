import Mathlib.Data.List.Basic

/-! The entries of a list under one key, lists that differ in the other entries only, and what a
reader has seen of a list who stops at an entry. -/

namespace Selection

variable {K α : Type} [DecidableEq K] {k : K} {l l' : List (K × α)}

def under (k : K) (l : List (K × α)) : List α :=
  l.filterMap fun x => if x.1 = k then some x.2 else none

@[simp] theorem under_nil : under k ([] : List (K × α)) = [] := rfl

@[simp] theorem under_cons_self (a : α) : under k ((k, a) :: l) = a :: under k l := by
  simp [under]

theorem under_cons_ne {j : K} {a : α} (h : j ≠ k) : under k ((j, a) :: l) = under k l := by
  simp [under, h]

@[simp] theorem under_append : under k (l ++ l') = under k l ++ under k l' :=
  List.filterMap_append

theorem mem_under {a : α} : a ∈ under k l ↔ (k, a) ∈ l := by
  rw [under, List.mem_filterMap]
  constructor
  · rintro ⟨⟨k', a'⟩, hmem, hsome⟩
    obtain ⟨rfl, ha⟩ := Option.ite_none_right_eq_some.mp hsome
    rw [← Option.some.inj ha]
    exact hmem
  · exact fun h => ⟨(k, a), h, if_pos rfl⟩

inductive Aligned (k : K) : List (K × α) → List (K × α) → Prop
  | nil : Aligned k [] []
  | left {x : K × α} {l l' : List (K × α)} : x.1 ≠ k → Aligned k l l' → Aligned k (x :: l) l'
  | right {x : K × α} {l l' : List (K × α)} : x.1 ≠ k → Aligned k l l' → Aligned k l (x :: l')
  | both (a : α) {l l' : List (K × α)} : Aligned k l l' → Aligned k ((k, a) :: l) ((k, a) :: l')

theorem aligned_iff : Aligned k l l' ↔ under k l = under k l' := by
  constructor
  · intro h
    induction h with
    | nil => rfl
    | left hne _ ih => rw [under_cons_ne hne, ih]
    | right hne _ ih => rw [under_cons_ne hne, ih]
    | both a _ ih => rw [under_cons_self, under_cons_self, ih]
  · intro h
    induction l generalizing l' with
    -- what stands under other keys is passed over, on the left first and then on the right
    | nil =>
      induction l' with
      | nil => exact .nil
      | cons x l' ih =>
        have hne : x.1 ≠ k := by
          rintro rfl
          rw [under_cons_self] at h
          exact nomatch h
        rw [under_cons_ne hne] at h
        exact .right hne (ih h)
    | cons x l ih =>
      by_cases hx : x.1 = k
      · obtain ⟨k', a⟩ := x
        obtain rfl : k' = k := hx
        induction l' with
        | nil =>
          rw [under_cons_self] at h
          exact nomatch h
        | cons y l' ih' =>
          by_cases hy : y.1 = k'
          · obtain ⟨k'', b⟩ := y
            obtain rfl : k'' = k' := hy
            rw [under_cons_self, under_cons_self] at h
            obtain ⟨rfl, htail⟩ := List.cons.inj h
            exact .both a (ih htail)
          · rw [under_cons_ne hy] at h
            exact .right hy (ih' h)
      · rw [under_cons_ne hx] at h
        exact .left hx (ih h)

section Pages

variable {β : Type} {f : α → Option β} {g : α → β} {page rest : List α}

theorem filterMap_eq_map_iff : page.filterMap f = page.map g ↔ ∀ a ∈ page, f a = some (g a) := by
  induction page with
  | nil => exact iff_of_true rfl nofun
  | cons a page ih =>
    rw [List.forall_mem_cons, ← ih]
    cases ha : f a with
    | none =>
      rw [List.filterMap_cons_none ha]
      refine iff_of_false (fun h => ?_) (fun h => nomatch h.1)
      have hle := List.length_filterMap_le f page
      have hlength := congrArg List.length h
      rw [List.length_map, List.length_cons] at hlength
      omega
    | some b =>
      rw [List.filterMap_cons_some ha, List.map_cons, List.cons.injEq, Option.some.injEq]

/-- A page shows a whole list if there is nothing after it and no entry of it is skipped or
changed. -/
theorem filterMap_eq_map_append_iff :
    page.filterMap f = (page ++ rest).map g ↔ rest = [] ∧ ∀ a ∈ page, f a = some (g a) := by
  constructor
  · intro h
    have hle := List.length_filterMap_le f page
    have hlength := congrArg List.length h
    rw [List.length_map, List.length_append] at hlength
    have hrest : rest = [] := List.eq_nil_of_length_eq_zero (by omega)
    rw [hrest, List.append_nil] at h
    exact ⟨hrest, filterMap_eq_map_iff.mp h⟩
  · intro h
    rw [h.1, List.append_nil]
    exact filterMap_eq_map_iff.mpr h.2

end Pages

section Through

variable {α : Type*} {p : α → Bool} {l l' : List α}

end Through

end Selection

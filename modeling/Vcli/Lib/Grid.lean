import Mathlib.Data.List.Basic

/-! Buffers in row-major order: the cells of a buffer that is written row by row, and a buffer
filled by stores at a cursor. -/

namespace Grid

variable {α : Type}

def tabulate (h w : Nat) (cell : Nat → Nat → α) : List α :=
  (List.range h).flatMap fun row => (List.range w).map (cell row)

theorem tabulate_succ (h w : Nat) (cell : Nat → Nat → α) :
    tabulate (h + 1) w cell = tabulate h w cell ++ (List.range w).map (cell h) := by
  rw [tabulate, List.range_succ, List.flatMap_append, List.flatMap_singleton, ← tabulate]

theorem length_tabulate (h w : Nat) (cell : Nat → Nat → α) :
    (tabulate h w cell).length = h * w := by
  induction h with
  | zero => rw [Nat.zero_mul, tabulate, List.range_zero, List.flatMap_nil, List.length_nil]
  | succ h ih =>
    rw [tabulate_succ, List.length_append, ih, List.length_map, List.length_range, Nat.succ_mul]

theorem getElem?_tabulate {h w row col : Nat} {cell : Nat → Nat → α} (hrow : row < h)
    (hcol : col < w) : (tabulate h w cell)[row * w + col]? = some (cell row col) := by
  induction h with
  | zero => exact absurd hrow (Nat.not_lt_zero row)
  | succ h ih =>
    rw [tabulate_succ]
    rcases Nat.lt_succ_iff_lt_or_eq.mp hrow with hbefore | rfl
    · have hin : row * w + col < (tabulate h w cell).length := by
        rw [length_tabulate]
        calc row * w + col < row * w + w := Nat.add_lt_add_left hcol _
          _ = (row + 1) * w := (Nat.succ_mul row w).symm
          _ ≤ h * w := Nat.mul_le_mul_right w hbefore
      rw [List.getElem?_append_left hin, ih hbefore]
    · have hout : (tabulate row w cell).length ≤ row * w + col := by
        rw [length_tabulate]
        exact Nat.le_add_right _ _
      rw [List.getElem?_append_right hout, length_tabulate, Nat.add_sub_cancel_left,
        List.getElem?_map, List.getElem?_range hcol, Option.map_some]

theorem flatten_map_map (h w : Nat) (cell : Nat → Nat → α) :
    ((List.range h).map fun row => (List.range w).map (cell row)).flatten =
      tabulate h w cell := by
  rw [tabulate, List.flatMap_def]

/-- The buffer agrees with `goal` up to the cursor. -/
structure Filled (goal : List α) (cursor : Nat) (buffer : List α) : Prop where
  length : buffer.length = goal.length
  agrees : buffer.take cursor = goal.take cursor

section Filled
variable {goal buffer : List α} {cursor : Nat}

theorem filled_zero (h : buffer.length = goal.length) : Filled goal 0 buffer :=
  ⟨h, by rw [List.take_zero, List.take_zero]⟩

theorem Filled.lt (h : Filled goal cursor buffer) {a : α} (ha : goal[cursor]? = some a) :
    cursor < buffer.length := by
  rw [h.length]
  exact (List.getElem?_eq_some_iff.mp ha).1

theorem Filled.store (h : Filled goal cursor buffer) {a : α} (ha : goal[cursor]? = some a) :
    Filled goal (cursor + 1) (buffer.set cursor a) := by
  have hin := h.lt ha
  refine ⟨by rw [List.length_set, h.length], ?_⟩
  rw [List.take_add_one, List.take_add_one, List.take_set_of_le (Nat.le_refl cursor), h.agrees, ha,
    List.getElem?_set_self hin]

theorem Filled.eq (h : Filled goal goal.length buffer) : buffer = goal := by
  have hall := h.agrees
  rwa [List.take_length, ← h.length, List.take_length] at hall

end Filled

end Grid

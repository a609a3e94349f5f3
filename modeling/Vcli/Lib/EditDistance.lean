import Mathlib.Data.List.Basic
import Mathlib.Order.Lattice
import Mathlib.Order.MinMax

/-! The Levenshtein distance of two sequences: the least number of single insertions, deletions
and substitutions that turn one into the other. -/

namespace EditDistance

variable {α : Type*}

inductive Script : Nat → List α → List α → Prop
  | nil : Script 0 [] []
  | keep {n as bs} (a : α) (h : Script n as bs) : Script n (a :: as) (a :: bs)
  | substitute {n as bs} (a b : α) (h : Script n as bs) : Script (n + 1) (a :: as) (b :: bs)
  | delete {n as bs} (a : α) (h : Script n as bs) : Script (n + 1) (a :: as) bs
  | insert {n as bs} (b : α) (h : Script n as bs) : Script (n + 1) as (b :: bs)

theorem Script.refl (as : List α) : Script 0 as as := by
  induction as with
  | nil => exact .nil
  | cons a as ih => exact ih.keep a

theorem Script.eq_of_zero {n : Nat} {as bs : List α} (h : Script n as bs) (hn : n = 0) :
    as = bs := by
  induction h with
  | nil => rfl
  | keep a _ ih => rw [ih hn]
  | substitute | delete | insert => contradiction

theorem script_zero_iff {as bs : List α} : Script 0 as bs ↔ as = bs := by
  constructor
  · intro h
    exact h.eq_of_zero rfl
  · rintro rfl
    exact Script.refl as

theorem Script.symm {n : Nat} {as bs : List α} (h : Script n as bs) : Script n bs as := by
  induction h with
  | nil => exact .nil
  | keep a _ ih => exact ih.keep a
  | substitute a b _ ih => exact ih.substitute b a
  | delete a _ ih => exact ih.insert a
  | insert b _ ih => exact ih.delete b

theorem Script.length_le {n : Nat} {as bs : List α} (h : Script n as bs) :
    bs.length ≤ as.length + n := by
  induction h with
  | nil => simp
  | keep | substitute | delete | insert => simp only [List.length_cons]; omega

section Distance

variable [DecidableEq α]

def levenshtein : List α → List α → Nat
  | [], bs => bs.length
  | a :: as, [] => (a :: as).length
  | a :: as, b :: bs =>
    min (min (levenshtein as (b :: bs) + 1) (levenshtein (a :: as) bs + 1))
      (levenshtein as bs + if a = b then 0 else 1)
termination_by as bs => as.length + bs.length

theorem levenshtein_nil (as : List α) : levenshtein as [] = as.length := by
  cases as <;> simp [levenshtein]

theorem nil_levenshtein (bs : List α) : levenshtein [] bs = bs.length := by
  simp [levenshtein]

theorem levenshtein_cons_le (a : α) (as bs : List α) :
    levenshtein (a :: as) bs ≤ levenshtein as bs + 1 := by
  cases bs with
  | nil => simp [levenshtein_nil]
  | cons b bs =>
    rw [levenshtein]
    exact (min_le_left ..).trans (min_le_left ..)

theorem levenshtein_le_cons (b : α) (as bs : List α) :
    levenshtein as (b :: bs) ≤ levenshtein as bs + 1 := by
  cases as with
  | nil => simp [nil_levenshtein]
  | cons a as =>
    rw [levenshtein]
    exact (min_le_left ..).trans (min_le_right ..)

theorem levenshtein_cons_cons_le (a b : α) (as bs : List α) :
    levenshtein (a :: as) (b :: bs) ≤ levenshtein as bs + if a = b then 0 else 1 := by
  rw [levenshtein]
  exact min_le_right ..

theorem Script.levenshtein_le {n : Nat} {as bs : List α} (h : Script n as bs) :
    levenshtein as bs ≤ n := by
  induction h with
  | nil => simp [levenshtein]
  | keep a _ ih => exact (levenshtein_cons_cons_le a a _ _).trans (by simpa using ih)
  | substitute a b _ ih =>
    have hcost : (if a = b then 0 else 1) ≤ 1 := by split <;> decide
    exact (levenshtein_cons_cons_le a b _ _).trans (Nat.add_le_add ih hcost)
  | delete a _ ih => exact (levenshtein_cons_le a _ _).trans (Nat.succ_le_succ ih)
  | insert b _ ih => exact (levenshtein_le_cons b _ _).trans (Nat.succ_le_succ ih)

theorem script_levenshtein (as bs : List α) : Script (levenshtein as bs) as bs := by
  fun_induction levenshtein as bs with
  | case1 bs =>
    induction bs with
    | nil => exact .nil
    | cons b bs ih => exact ih.insert b
  | case2 a as =>
    apply Script.delete
    induction as with
    | nil => exact .nil
    | cons a as ih => exact ih.delete a
  | case3 a as b bs hdelete hinsert hboth =>
    have hboth : Script (levenshtein as bs + if a = b then 0 else 1) (a :: as) (b :: bs) := by
      split
      · next hab => exact hab ▸ hboth.keep a
      · exact hboth.substitute a b
    -- the least of the three is the cost of one of them
    rcases min_choice (min (levenshtein as (b :: bs) + 1) (levenshtein (a :: as) bs + 1))
      (levenshtein as bs + if a = b then 0 else 1) with hmin | hmin <;> rw [hmin]
    · rcases min_choice (levenshtein as (b :: bs) + 1) (levenshtein (a :: as) bs + 1) with
        hmin | hmin <;> rw [hmin]
      · exact hdelete.delete a
      · exact hinsert.insert b
    · exact hboth

/-- The distance is the least number of edits. -/
theorem levenshtein_le_iff {n : Nat} {as bs : List α} :
    levenshtein as bs ≤ n ↔ ∃ m ≤ n, Script m as bs := by
  constructor
  · intro h
    exact ⟨_, h, script_levenshtein as bs⟩
  · rintro ⟨m, hm, h⟩
    exact h.levenshtein_le.trans hm

theorem levenshtein_comm (as bs : List α) : levenshtein as bs = levenshtein bs as := by
  apply le_antisymm
  · exact (script_levenshtein bs as).symm.levenshtein_le
  · exact (script_levenshtein as bs).symm.levenshtein_le

theorem levenshtein_eq_zero {as bs : List α} : levenshtein as bs = 0 ↔ as = bs := by
  rw [← Nat.le_zero, levenshtein_le_iff]
  simp [script_zero_iff]

theorem length_le_levenshtein (as bs : List α) :
    bs.length ≤ as.length + levenshtein as bs := by
  apply Script.length_le
  exact script_levenshtein as bs

theorem levenshtein_cons_le_one {a b : α} {as bs : List α} :
    levenshtein (a :: as) (b :: bs) ≤ 1 ↔
      as = b :: bs ∨ a :: as = bs ∨ if a = b then levenshtein as bs ≤ 1 else as = bs := by
  have hzero : ∀ {as bs : List α}, levenshtein as bs + 1 ≤ 1 ↔ as = bs := by
    intro as bs
    rw [Nat.succ_le_succ_iff, Nat.le_zero, levenshtein_eq_zero]
  rw [levenshtein, min_le_iff, min_le_iff, hzero, hzero, or_assoc]
  split
  · rfl
  · rw [hzero]

end Distance

end EditDistance

import Mathlib.Algebra.BigOperators.Group.List.Basic
import Mathlib.Algebra.Ring.Int.Defs
import Mathlib.Algebra.Ring.Nat
import Mathlib.Data.List.Range
import Mathlib.Tactic.FinCases

/-! The proleptic Gregorian calendar, with days counted from the first day of the year zero. -/

namespace Gregorian

def IsLeap (y : Nat) : Prop := 4 ∣ y ∧ (¬ 100 ∣ y ∨ 400 ∣ y)

instance (y : Nat) : Decidable (IsLeap y) := inferInstanceAs (Decidable (_ ∧ (¬ _ ∨ _)))

def monthLength (y : Nat) : Nat → Nat
  | 2 => if IsLeap y then 29 else 28
  | 4 | 6 | 9 | 11 => 30
  | _ => 31

def yearLength (y : Nat) : Nat := ((List.range 12).map fun m => monthLength y (m + 1)).sum

def daysBeforeYear : Nat → Nat
  | 0 => 0
  | y + 1 => daysBeforeYear y + yearLength y

def daysBeforeMonth (y m : Nat) : Nat :=
  ((List.range (m - 1)).map fun m => monthLength y (m + 1)).sum

structure IsDate (y m d : Nat) : Prop where
  month : 1 ≤ m ∧ m ≤ 12
  day : 1 ≤ d ∧ d ≤ monthLength y m

def dayNumber (y m d : Nat) : Nat := daysBeforeYear y + daysBeforeMonth y m + (d - 1)

theorem yearLength_eq (y : Nat) : yearLength y = if IsLeap y then 366 else 365 := by
  unfold yearLength
  simp only [List.range_succ, List.range_zero, List.map_append, List.map_cons, List.map_nil,
    List.nil_append, List.sum_append, List.sum_cons, List.sum_nil, monthLength]
  split <;> rfl

/-- One year in four is a leap year, but for three in four of the centuries. -/
theorem daysBeforeYear_eq (y : Nat) :
    daysBeforeYear y + (y + 99) / 100 = 365 * y + (y + 3) / 4 + (y + 399) / 400 := by
  induction y with
  | zero => rfl
  | succ y ih =>
    rw [daysBeforeYear, yearLength_eq]
    by_cases hleap : IsLeap y
    · rw [if_pos hleap]
      unfold IsLeap at hleap
      omega
    · rw [if_neg hleap]
      unfold IsLeap at hleap
      omega

/-- From March on the months are 153 days in five, whatever month is the first of them. -/
theorem daysBeforeMonth_eq {y m : Nat} (hm : 1 ≤ m ∧ m ≤ 12) :
    daysBeforeMonth y m = if m ≤ 2 then 31 * (m - 1)
      else (153 * (m - 3) + 2) / 5 + if IsLeap y then 60 else 59 := by
  have hmonths : m ∈ List.range' 1 12 := by
    rw [List.mem_range'_1]
    omega
  unfold daysBeforeMonth
  fin_cases hmonths <;> simp [List.range_succ, monthLength] <;> split <;> rfl

section March

/-- The days before the March of a year, from the March of the year zero on. A leap day is the
last day of such a year. -/
def daysBeforeMarch (y : Int) : Int := 365 * y + y / 4 - y / 100 + y / 400

theorem dayNumber_eq_march {y m d : Nat} (hm : 1 ≤ m ∧ m ≤ 12) (hd : 1 ≤ d) :
    (dayNumber y m d : Int) =
      (if m ≤ 2 then daysBeforeMarch (y - 1) + ((153 * (m + 9) + 2) / 5 : Nat)
        else daysBeforeMarch y + ((153 * (m - 3) + 2) / 5 : Nat)) + 59 + d := by
  have hyear := daysBeforeYear_eq y
  unfold dayNumber daysBeforeMarch
  rw [daysBeforeMonth_eq hm]
  split
  · have hstart : m = 1 ∨ m = 2 := by omega
    rcases hstart with rfl | rfl <;> omega
  · split
    · next hleap =>
      unfold IsLeap at hleap
      omega
    · next hleap =>
      unfold IsLeap at hleap
      omega

theorem daysBeforeMarch_succ (y : Nat) : daysBeforeMarch (y + 1) =
    daysBeforeMarch y + if IsLeap (y + 1) then 366 else 365 := by
  unfold daysBeforeMarch
  split
  · next hleap =>
    unfold IsLeap at hleap
    omega
  · next hleap =>
    unfold IsLeap at hleap
    omega

end March

end Gregorian

import Vcli.Cli.Timestamp
import Vcli.Lib.Gregorian
import Mathlib.Tactic.Linarith

/-! The two calendar algorithms are the Gregorian calendar: both count the days from a March, in
eras of 400 years. -/

namespace Vcli.Cli

open Gregorian

variable {build : Build}

theorem arithI64_of_fits {n : Int} (hlow : -2 ^ 63 ≤ n) (hhigh : n < 2 ^ 63) :
    arithI64 build n = .ok n := by
  cases build with
  | debug => exact if_pos ⟨hlow, hhigh⟩
  | release => rw [arithI64, wrapI64_of_fits hlow hhigh]

theorem arithI32_of_fits {n : Int} (hlow : -2 ^ 31 ≤ n) (hhigh : n < 2 ^ 31) :
    arithI32 build n = .ok n := by
  cases build with
  | debug => exact if_pos ⟨hlow, hhigh⟩
  | release => rw [arithI32, wrapI32_of_fits hlow hhigh]

/-- The division that truncates is made one that rounds down. -/
theorem tdiv_eq_floor {a b : Int} (hb : 0 < b) :
    (if 0 ≤ a then a else a - (b - 1)).tdiv b = a / b := by
  split
  · next ha => exact Int.tdiv_eq_ediv_of_nonneg ha
  · next ha =>
    have hrest := Int.emod_lt_of_pos a hb
    have hrest' := Int.emod_nonneg a hb.ne'
    have hneg : a - (b - 1) = -((b - 1 - a % b) + b * -(a / b)) := by
      have hdiv := Int.emod_add_mul_ediv a b
      linarith
    have hnonneg : 0 ≤ (b - 1 - a % b) + b * -(a / b) := by omega
    rw [hneg, Int.neg_tdiv, Int.tdiv_eq_ediv_of_nonneg hnonneg,
      Int.add_mul_ediv_left _ _ hb.ne', Int.ediv_eq_zero_of_lt (by omega) (by omega)]
    omega

section DaysFromCivil

theorem days_of_march (build : Build) {year : Int} {month day : Nat} (hlow : -1 ≤ year) :
    (do
      let start ← (if 0 ≤ year then .ok year else arithI32 build (year - 399))
      let era := start.tdiv 400
      if year - era * 400 < 0 then return none
      let yoe := (year - era * 400).toNat
      let doy := (153 * month + 2) / 5 + day - 1
      let doe := yoe * 365 + yoe / 4 - yoe / 100 + doy
      return some (era * 146097 + doe - 719468) : Checked (Option Int)) =
      .ok (some (daysBeforeMarch year + ((153 * month + 2) / 5 + day - 1 : Nat) - 719468)) := by
  have hchecked : (if 0 ≤ year then .ok year else arithI32 build (year - 399)) =
      .ok (if 0 ≤ year then year else year - (400 - 1)) := by
    split
    · rfl
    · exact arithI32_of_fits (by omega) (by omega)
  have hnonneg : ¬ year - year / 400 * 400 < 0 := by omega
  rw [hchecked]
  simp only [bind, Except.bind, tdiv_eq_floor (show (0 : Int) < 400 by decide), if_neg hnonneg]
  have hdays : year / 400 * 146097 + ((year - year / 400 * 400).toNat * 365 +
      (year - year / 400 * 400).toNat / 4 - (year - year / 400 * 400).toNat / 100 +
        ((153 * month + 2) / 5 + day - 1) : Nat) =
      daysBeforeMarch year + ((153 * month + 2) / 5 + day - 1 : Nat) := by
    unfold daysBeforeMarch
    omega
  rw [hdays]
  rfl

theorem daysFromCivil_eq {y m d : Nat} (hy : y ≤ maxI32) (hm : 1 ≤ m ∧ m ≤ 12)
    (hd : 1 ≤ d ∧ d ≤ 31) :
    daysFromCivil build y m d = .ok (some ((dayNumber y m d : Int) - 719528)) := by
  have hyear : (y : Int) ≤ 2147483647 := by exact_mod_cast hy
  unfold daysFromCivil
  rw [if_neg (not_or.mpr ⟨not_not.mpr hm, not_not.mpr hd⟩), dayNumber_eq_march hm hd.1]
  by_cases hearly : m ≤ 2
  · have hlate : ¬ m > 2 := by omega
    rw [if_pos hearly, if_neg hlate, if_pos hearly,
      arithI32_of_fits (by omega) (by omega)]
    refine (days_of_march build (by omega)).trans ?_
    congr 2
    omega
  · have hlate : m > 2 := by omega
    rw [if_neg hearly, if_pos hlate, if_neg hearly]
    refine (days_of_march build (Int.le_trans (by decide) (Int.natCast_nonneg y))).trans ?_
    congr 2
    omega

theorem daysFromCivil_none {y : Int} {m d : Nat}
    (h : ¬ ((1 ≤ m ∧ m ≤ 12) ∧ 1 ≤ d ∧ d ≤ 31)) : daysFromCivil build y m d = .ok none :=
  if_pos (not_and_or.mp h)

end DaysFromCivil

section CivilFromDays

/-- The year of an era, from its days. -/
def yearOfEra (doe : Nat) : Nat := (doe - doe / 1460 + doe / 36524 - doe / 146096) / 365

theorem yearOfEra_mono {a b : Nat} (hab : a ≤ b) (_hb : b < 146097) : yearOfEra a ≤ yearOfEra b := by
  have hyears : a - a / 1460 ≤ b - b / 1460 := by omega
  have hcenturies : a / 36524 + b / 146096 ≤ b / 36524 + a / 146096 := by omega
  apply Nat.div_le_div_right
  omega

theorem yearOfEra_ends : ∀ y : Nat, y < 400 →
    yearOfEra (daysBeforeMarch y).toNat = y ∧ yearOfEra (daysBeforeMarch (y + 1) - 1).toNat = y := by
  decide +kernel

theorem exists_interval {f : Nat → Int} {n : Int} {k : Nat} (h0 : f 0 ≤ n) (hk : n < f k) :
    ∃ y < k, f y ≤ n ∧ n < f (y + 1) := by
  induction k with
  | zero => omega
  | succ k ih =>
    by_cases hn : n < f k
    · obtain ⟨y, hy, hint⟩ := ih hn
      exact ⟨y, Nat.lt_succ_of_lt hy, hint⟩
    · exact ⟨k, Nat.lt_succ_self k, Int.not_lt.mp hn, hk⟩

/-- The corrections grow with the day, so what holds at both ends of a year holds between them. -/
theorem yearOfEra_spec {doe : Nat} (hdoe : doe < 146097) :
    yearOfEra doe < 400 ∧ daysBeforeMarch (yearOfEra doe) ≤ doe ∧
      (doe : Int) < daysBeforeMarch (yearOfEra doe + 1) := by
  obtain ⟨y, hy, hlow, hhigh⟩ : ∃ y < 400, daysBeforeMarch (y : Nat) ≤ doe ∧
      (doe : Int) < daysBeforeMarch ((y + 1 : Nat) : Int) := by
    apply exists_interval (f := fun y => daysBeforeMarch (y : Nat))
    · exact Int.natCast_nonneg doe
    · show (doe : Int) < 146097
      exact_mod_cast hdoe
  obtain ⟨hfirst, hlast⟩ := yearOfEra_ends y hy
  have hyear : yearOfEra doe = y := by
    push_cast at hhigh
    apply le_antisymm
    · rw [← hlast]
      have hend : daysBeforeMarch (y + 1) - 1 < 146097 := by
        unfold daysBeforeMarch
        omega
      exact yearOfEra_mono (by omega) (by omega)
    · conv_lhs => rw [← hfirst]
      exact yearOfEra_mono (by omega) hdoe
  rw [hyear]
  exact ⟨hy, hlow, by exact_mod_cast hhigh⟩

def monthOfMarch (doy : Nat) : Nat :=
  if (5 * doy + 2) / 153 < 10 then (5 * doy + 2) / 153 + 3 else (5 * doy + 2) / 153 - 9

def dayOfMarch (doy : Nat) : Nat := doy - (153 * ((5 * doy + 2) / 153) + 2) / 5 + 1

/-- The month and the day, from the days since March. The last day of all is the leap day. -/
theorem month_of_march : ∀ doy < 366,
    (1 ≤ monthOfMarch doy ∧ monthOfMarch doy ≤ 12) ∧ 1 ≤ dayOfMarch doy ∧
      (dayOfMarch doy ≤ monthLength 1 (monthOfMarch doy) ∨
        monthOfMarch doy = 2 ∧ dayOfMarch doy = 29 ∧ doy = 365) ∧
      (monthOfMarch doy ≤ 2 ↔ 306 ≤ doy) ∧
      (153 * (if monthOfMarch doy ≤ 2 then monthOfMarch doy + 9 else monthOfMarch doy - 3) + 2) / 5 +
        dayOfMarch doy = doy + 1 := by
  decide +kernel

theorem monthLength_of_le {y m d : Nat} (h : d ≤ monthLength 1 m) : d ≤ monthLength y m := by
  by_cases hm : m = 2
  · subst hm
    have hlength : 28 ≤ monthLength y 2 := by
      rw [monthLength]
      split <;> decide
    exact h.trans hlength
  · have hsame : monthLength y m = monthLength 1 m := by
      unfold monthLength
      split <;> trivial
    rwa [hsame]

theorem monthLength_le (y m : Nat) : monthLength y m ≤ 31 := by
  unfold monthLength
  split
  · split <;> decide
  · decide
  · decide
  · decide
  · decide
  · decide

theorem civilFromDays_run {z era : Int} {doe doy y : Nat} (hlow : -719528 ≤ z)
    (hhigh : z ≤ 2 ^ 63 / 86400000) (hera : (z + 719468) / 146097 = era)
    (hdoe : (z + 719468 - era * 146097).toNat = doe)
    (hdoy : doe - (365 * yearOfEra doe + yearOfEra doe / 4 - yearOfEra doe / 100) = doy)
    (hy : (if monthOfMarch doy ≤ 2 then yearOfEra doe + era * 400 + 1
      else yearOfEra doe + era * 400) = (y : Int))
    (hmax : y ≤ maxI32) (hm : monthOfMarch doy ≤ 12) (hd : dayOfMarch doy ≤ 31) :
    civilFromDays build z = .ok (y, monthOfMarch doy, dayOfMarch doy) := by
  have hcast : (y : Int).bmod (2 ^ 32) = y := by
    unfold maxI32 at hmax
    apply Int.bmod_eq_of_le
    · omega
    · omega
  have hera' := tdiv_eq_floor (a := z + 719468) (b := 146097) (by decide)
  have hyear : (doe - doe / 1460 + doe / 36524 - doe / 146096) / 365 = yearOfEra doe := rfl
  have hmonth : (if (5 * doy + 2) / 153 < 10 then (5 * doy + 2) / 153 + 3
      else (5 * doy + 2) / 153 - 9) = monthOfMarch doy := rfl
  have hday : doy - (153 * ((5 * doy + 2) / 153) + 2) / 5 + 1 = dayOfMarch doy := rfl
  unfold civilFromDays
  rw [arithI64_of_fits (by omega) (by omega)]
  simp only [bind, Except.bind, Int.reduceSub] at hera' ⊢
  rw [hera', hera, hdoe, hyear, hdoy, hmonth, hday, hy, hcast,
    Nat.mod_eq_of_lt (Nat.lt_of_le_of_lt hm (by decide)),
    Nat.mod_eq_of_lt (Nat.lt_of_le_of_lt hd (by decide))]
  rfl

theorem dayNumber_of_era {era : Int} {yoe doy y m d : Nat} (hm : 1 ≤ m ∧ m ≤ 12) (hd : 1 ≤ d)
    (hy : (if m ≤ 2 then yoe + era * 400 + 1 else yoe + era * 400) = (y : Int))
    (hdoy : (153 * (if m ≤ 2 then m + 9 else m - 3) + 2) / 5 + d = doy + 1) :
    (dayNumber y m d : Int) = daysBeforeMarch yoe + era * 146097 + doy + 60 := by
  have hwhole : daysBeforeMarch (yoe + era * 400) = daysBeforeMarch yoe + era * 146097 := by
    unfold daysBeforeMarch
    omega
  rw [dayNumber_eq_march hm hd]
  split
  · next hearly =>
    rw [if_pos hearly] at hy hdoy
    rw [← hy, Int.add_sub_cancel, hwhole]
    omega
  · next hlate =>
    rw [if_neg hlate] at hy hdoy
    rw [← hy, hwhole]
    omega

theorem civilFromDays_eq {z : Int} (hlow : -719528 ≤ z) (hhigh : z ≤ 2 ^ 63 / 86400000) :
    ∃ y m d : Nat, civilFromDays build z = .ok (y, m, d) ∧ y ≤ maxI32 ∧ IsDate y m d ∧
      (dayNumber y m d : Int) = z + 719528 := by
  obtain ⟨era, hera⟩ : ∃ era, (z + 719468) / 146097 = era := ⟨_, rfl⟩
  obtain ⟨doe, hdoe⟩ : ∃ doe, (z + 719468 - era * 146097).toNat = doe := ⟨_, rfl⟩
  obtain ⟨hyoe, hstart, hend⟩ := yearOfEra_spec (show doe < 146097 by omega)
  obtain ⟨doy, hdoy⟩ : ∃ doy,
      doe - (365 * yearOfEra doe + yearOfEra doe / 4 - yearOfEra doe / 100) = doy := ⟨_, rfl⟩
  have hsucc := daysBeforeMarch_succ (yearOfEra doe)
  have hmarch : daysBeforeMarch (yearOfEra doe) + doy = doe := by
    unfold daysBeforeMarch at hstart ⊢
    omega
  have hdoy366 : doy < 366 := by
    split at hsucc <;> omega
  obtain ⟨hm, hd, hlength, hearly, hrest⟩ := month_of_march doy hdoy366
  have hd31 : dayOfMarch doy ≤ 31 := by
    rcases hlength with hlength | ⟨-, hd29, -⟩
    · exact hlength.trans (monthLength_le ..)
    · omega
  obtain ⟨y, hy⟩ : ∃ y : Nat, (if monthOfMarch doy ≤ 2 then yearOfEra doe + era * 400 + 1
      else yearOfEra doe + era * 400) = (y : Int) := by
    apply Int.eq_ofNat_of_zero_le
    rcases (by omega : era = -1 ∨ 0 ≤ era) with hbefore | hafter
    · -- the days of the year zero before its March belong to January and February
      rw [if_pos (hearly.mpr (by omega))]
      omega
    · split <;> omega
  have hmax : y ≤ maxI32 := by
    unfold maxI32
    split at hy <;> omega
  refine ⟨y, monthOfMarch doy, dayOfMarch doy, ?_, hmax, ⟨hm, hd, ?_⟩, ?_⟩
  · exact civilFromDays_run hlow hhigh hera hdoe hdoy hy hmax hm.2 hd31
  · rcases hlength with hlength | ⟨hm2, hd29, hlast⟩
    · exact monthLength_of_le hlength
    · -- there is a last day only where the next year is a leap year
      have hleap : IsLeap y := by
        split at hsucc
        · next hleap =>
          rw [hm2, if_pos (Nat.le_refl 2)] at hy
          unfold IsLeap at hleap ⊢
          omega
        · omega
      rw [hm2, hd29, monthLength, if_pos hleap]
  · rw [dayNumber_of_era hm hd hy hrest]
    omega

end CivilFromDays

end Vcli.Cli

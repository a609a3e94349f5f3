import Vcli.Dsl.Error
import Vcli.Lib.EditDistance

/-! The hint helper against the edit distance. -/

namespace Vcli.Dsl

open EditDistance

theorem insertionFrom_true_iff {shorter longer : List Char}
    (hlen : shorter.length = longer.length) :
    insertionFrom true shorter longer = true ↔ shorter = longer := by
  induction longer generalizing shorter with
  | nil => simp [insertionFrom, List.eq_nil_of_length_eq_zero hlen]
  | cons lc longer ih =>
    cases shorter with
    | nil => simp at hlen
    | cons sc shorter =>
      have htail : shorter.length = longer.length := by simpa using hlen
      by_cases hc : sc = lc
      · simp [insertionFrom, hc, ih htail]
      · simp [insertionFrom, hc]

/-- The scan takes the first gap it can. Where the next characters agree, a gap before them
can be moved behind them. -/
theorem insertionFrom_false_iff {shorter longer : List Char}
    (hlen : shorter.length + 1 = longer.length) :
    insertionFrom false shorter longer = true ↔ levenshtein shorter longer ≤ 1 := by
  induction longer generalizing shorter with
  | nil => simp at hlen
  | cons lc longer ih =>
    have hlen' : shorter.length = longer.length := by simpa using hlen
    cases shorter with
    | nil => simp [List.eq_nil_of_length_eq_zero hlen'.symm, insertionFrom, nil_levenshtein]
    | cons sc shorter =>
      have hlong : shorter ≠ lc :: longer := by
        rintro rfl
        simp at hlen'
        omega
      have hdrop : shorter ≠ longer := by
        rintro rfl
        simp at hlen'
      rw [levenshtein_cons_le_one]
      by_cases hc : sc = lc
      · subst hc
        have hshift : sc :: shorter = longer → levenshtein shorter longer ≤ 1 := by
          rintro rfl
          exact ((Script.refl shorter).insert sc).levenshtein_le
        simpa [insertionFrom, ih hlen', hlong] using hshift
      · simp [insertionFrom, hc, insertionFrom_true_iff hlen', hlong, hdrop]

theorem isInsertion_iff {shorter longer : List Char} (hlen : shorter.length < longer.length) :
    isInsertion shorter longer = true ↔ levenshtein shorter longer ≤ 1 := by
  by_cases hone : longer.length = shorter.length + 1
  · simp [isInsertion, hone, insertionFrom_false_iff hone.symm]
  · have hfar : ¬ levenshtein shorter longer ≤ 1 := by
      intro h
      have := length_le_levenshtein shorter longer
      omega
    simp [isInsertion, hone, hfar]

theorem differences_eq_zero {as bs : List Char} (hlen : as.length = bs.length) :
    differences as bs = 0 ↔ as = bs := by
  induction as generalizing bs with
  | nil => simp [differences, List.eq_nil_of_length_eq_zero hlen.symm]
  | cons a as ih =>
    cases bs with
    | nil => simp at hlen
    | cons b bs =>
      have htail : as.length = bs.length := by simpa using hlen
      by_cases hc : a = b <;> simp [differences, hc, ih htail]

theorem differences_le_one_iff {as bs : List Char} (hlen : as.length = bs.length) :
    differences as bs ≤ 1 ↔ levenshtein as bs ≤ 1 := by
  induction as generalizing bs with
  | nil => simp [differences, nil_levenshtein, ← hlen]
  | cons a as ih =>
    cases bs with
    | nil => simp at hlen
    | cons b bs =>
      have htail : as.length = bs.length := by simpa using hlen
      have hdelete : as ≠ b :: bs := by
        rintro rfl
        simp at htail
      have hinsert : a :: as ≠ bs := by
        rintro rfl
        simp at htail
      rw [levenshtein_cons_le_one]
      by_cases hc : a = b
      · simp [differences, hc, ih htail, hdelete, hc ▸ hinsert]
      · have hrest : 1 + differences as bs ≤ 1 ↔ differences as bs = 0 := by omega
        simp [differences, hc, hrest, differences_eq_zero htail, hdelete, hinsert]

theorem distanceAtMostOne_iff (a b : List Char) :
    distanceAtMostOne a b = true ↔ levenshtein a b ≤ 1 := by
  rw [distanceAtMostOne]
  rcases Nat.lt_trichotomy a.length b.length with hlt | heq | hgt
  · rw [if_neg hlt.ne, if_pos hlt]
    exact isInsertion_iff hlt
  · rw [if_pos heq, decide_eq_true_iff]
    exact differences_le_one_iff heq
  · rw [if_neg hgt.ne', if_neg hgt.asymm, levenshtein_comm]
    exact isInsertion_iff hgt

theorem distanceAtMostOne_self (a : List Char) : distanceAtMostOne a a = true := by
  rw [distanceAtMostOne_iff, levenshtein_eq_zero.mpr rfl]
  exact Nat.zero_le 1

theorem didYouMean_eq_find (needle : String) (candidates : List String) :
    didYouMean needle candidates =
      (candidates.find? fun c => distanceAtMostOne needle.toList c.toList).filter
        fun c => c ≠ needle := by
  induction candidates with
  | nil => rfl
  | cons c candidates ih =>
    rw [didYouMean, List.find?_cons]
    by_cases hc : c = needle
    · simp [hc, distanceAtMostOne_self, Option.filter]
    · cases hclose : distanceAtMostOne needle.toList c.toList with
      | true => simp [hc, Option.filter]
      | false => simp [hc, ih]

/-- The hint is about the edit distance: names are close when one edit at most lies between
them, and the hint is the first close candidate, unless that is the name itself. -/
theorem hint_by_edit_distance :
    (∀ a b : String,
      distanceAtMostOne a.toList b.toList = true ↔ levenshtein a.toList b.toList ≤ 1) ∧
    ∀ (needle : String) (candidates : List String) (c : String),
      didYouMean needle candidates = some c ↔
        (∃ before after, candidates = before ++ c :: after ∧
          (∀ d ∈ before, 1 < levenshtein needle.toList d.toList) ∧
          levenshtein needle.toList c.toList ≤ 1) ∧ c ≠ needle := by
  constructor
  · intro a b
    exact distanceAtMostOne_iff a.toList b.toList
  · intro needle candidates c
    have hfar : ∀ d : String, (!distanceAtMostOne needle.toList d.toList) = true ↔
        1 < levenshtein needle.toList d.toList := by
      intro d
      rw [Bool.not_eq_true', ← Bool.not_eq_true, distanceAtMostOne_iff, not_le]
    rw [didYouMean_eq_find, Option.filter_eq_some_iff, List.find?_eq_some_iff_append,
      decide_eq_true_iff]
    simp only [distanceAtMostOne_iff, hfar]
    apply and_congr_left
    intro _
    constructor
    · rintro ⟨hclose, before, after, rfl, hbefore⟩
      exact ⟨before, after, rfl, hbefore, hclose⟩
    · rintro ⟨before, after, rfl, hbefore, hclose⟩
      exact ⟨hclose, before, after, rfl, hbefore⟩

end Vcli.Dsl

import Mathlib.Algebra.Ring.Int.Defs
import Mathlib.Algebra.Ring.Nat
import Mathlib.Data.List.Basic

/-! Decimal numerals: the value of a list of digits, and the list of digits of a value. -/

namespace Decimal

abbrev value (cs : List Char) : Nat := Nat.ofDigitChars 10 cs 0

def Digits (cs : List Char) : Prop := ∀ c ∈ cs, c.isDigit = true

theorem digits_cons {c : Char} {cs : List Char} :
    Digits (c :: cs) ↔ c.isDigit = true ∧ Digits cs := List.forall_mem_cons

theorem digits_append {cs ds : List Char} : Digits (cs ++ ds) ↔ Digits cs ∧ Digits ds :=
  List.forall_mem_append

theorem digits_toDigits (n : Nat) : Digits (Nat.toDigits 10 n) := by
  intro c hc
  exact Nat.isDigit_of_mem_toDigits (by decide) (by decide) hc

theorem digits_replicate_zero (z : Nat) : Digits (List.replicate z '0') := by
  intro c hc
  rw [List.eq_of_mem_replicate hc]
  decide

theorem isDigit_iff {c : Char} : c.isDigit = true ↔ 48 ≤ c.toNat ∧ c.toNat ≤ 57 :=
  Char.isDigit_iff_toNat

theorem digitChar_of_isDigit {c : Char} (hc : c.isDigit = true) :
    Nat.digitChar (c.toNat - 48) = c := by
  obtain ⟨hlow, hhigh⟩ := isDigit_iff.mp hc
  have hchar : (Nat.digitChar (c.toNat - 48)).toNat = 48 + (c.toNat - 48) :=
    Nat.toNat_digitChar_of_lt_ten (by omega)
  exact Char.toNat_inj.mp (hchar.trans (Nat.add_sub_cancel' hlow))

theorem toDigits_append {acc : Nat} {cs : List Char} (hacc : 0 < acc) (hcs : Digits cs) :
    Nat.toDigits 10 acc ++ cs = Nat.toDigits 10 (Nat.ofDigitChars 10 cs acc) := by
  induction cs generalizing acc with
  | nil => simp
  | cons c cs ih =>
    obtain ⟨hc, hcs⟩ := digits_cons.mp hcs
    have hlt : c.toNat - 48 < 10 := by
      have := isDigit_iff.mp hc
      omega
    have hstep := Nat.toDigits_append_toDigits (b := 10) (by decide) hacc hlt
    rw [Nat.toDigits_of_lt_base hlt, digitChar_of_isDigit hc] at hstep
    calc Nat.toDigits 10 acc ++ c :: cs = (Nat.toDigits 10 acc ++ [c]) ++ cs := by simp
      _ = Nat.toDigits 10 (10 * acc + (c.toNat - 48)) ++ cs := by rw [hstep]
      _ = _ := ih (by omega) hcs

theorem eq_zeros_append {cs : List Char} (hcs : Digits cs) (hpos : 0 < value cs) :
    ∃ z, cs = List.replicate z '0' ++ Nat.toDigits 10 (value cs) := by
  induction cs with
  | nil => simp [value] at hpos
  | cons c cs ih =>
    obtain ⟨hc, hcs⟩ := digits_cons.mp hcs
    by_cases hzero : c = '0'
    · have hvalue : value (c :: cs) = value cs := by simp [value, hzero, Nat.ofDigitChars_cons]
      obtain ⟨z, hz⟩ := ih hcs (hvalue ▸ hpos)
      refine ⟨z + 1, ?_⟩
      rw [hvalue, List.replicate_succ, List.cons_append, ← hz, hzero]
    · have hrange := isDigit_iff.mp hc
      have hfirst : 0 < c.toNat - 48 := by
        have : c.toNat ≠ 48 := fun h => hzero (Char.toNat_inj.mp h)
        omega
      have hlt : c.toNat - 48 < 10 := by omega
      have hnumeral := toDigits_append hfirst hcs
      rw [Nat.toDigits_of_lt_base hlt, digitChar_of_isDigit hc] at hnumeral
      refine ⟨0, ?_⟩
      simpa [value, Nat.ofDigitChars_cons] using hnumeral

theorem value_zeros_append (z : Nat) (cs : List Char) :
    value (List.replicate z '0' ++ cs) = value cs := by
  simp [value, Nat.ofDigitChars_append]

section Padding

def padded (width n : Nat) : List Char :=
  List.replicate (width - (Nat.toDigits 10 n).length) '0' ++ Nat.toDigits 10 n

theorem digits_padded (width n : Nat) : Digits (padded width n) :=
  digits_append.mpr ⟨digits_replicate_zero _, digits_toDigits n⟩

theorem value_padded (width n : Nat) : value (padded width n) = n := by
  rw [padded, value_zeros_append, value, Nat.ofDigitChars_ten_toDigits]

theorem padded_ne_nil (width n : Nat) : padded width n ≠ [] := by
  simp [padded, Nat.toDigits_ne_nil]

theorem length_padded {width n : Nat} (hwidth : 0 < width) (hn : n < 10 ^ width) :
    (padded width n).length = width := by
  have hle := (Nat.length_toDigits_le_iff (by decide) hwidth).mpr hn
  rw [padded, List.length_append, List.length_replicate]
  omega

end Padding

section Reading

def readDigits (max : Nat) (digits : List Char) : Option Nat :=
  if digits = [] ∨ digits.any (fun c => !c.isDigit) then none
  else if value digits ≤ max then some (value digits) else none

def parseUnsigned (max : Nat) : List Char → Option Nat
  | '+' :: digits => readDigits max digits
  | s => readDigits max s

def parseSigned (max : Nat) : List Char → Option Int
  | '-' :: digits => (readDigits (max + 1) digits).map fun n : Nat => -(n : Int)
  | s => (parseUnsigned max s).map fun n : Nat => (n : Int)

/-- `s` is digits of the value `n`, perhaps with a plus sign before them. -/
def Spells (s : List Char) (n : Nat) : Prop :=
  ∃ sign digits, s = sign ++ digits ∧ (sign = [] ∨ sign = ['+']) ∧ digits ≠ [] ∧
    Digits digits ∧ value digits = n

variable {max n : Nat} {s : List Char}

theorem readDigits_eq_some {digits : List Char} : readDigits max digits = some n ↔
    digits ≠ [] ∧ Digits digits ∧ value digits = n ∧ n ≤ max := by
  have hall : digits.any (fun c => !c.isDigit) = true ↔ ¬ Digits digits := by simp [Digits]
  unfold readDigits
  split
  · next hbad =>
    rw [hall] at hbad
    constructor
    · exact nofun
    · rintro ⟨hne, hdigits, -⟩
      exact absurd hbad (not_or.mpr ⟨hne, not_not.mpr hdigits⟩)
  · next hgood =>
    rw [hall] at hgood
    obtain ⟨hne, hdigits⟩ := not_or.mp hgood
    split
    · next hle =>
      constructor
      · rintro h
        obtain rfl := Option.some.inj h
        exact ⟨hne, not_not.mp hdigits, rfl, hle⟩
      · rintro ⟨-, -, rfl, -⟩
        rfl
    · next hlarge =>
      constructor
      · exact nofun
      · rintro ⟨-, -, rfl, hle⟩
        exact absurd hle hlarge

theorem parseUnsigned_eq_some : parseUnsigned max s = some n ↔ Spells s n ∧ n ≤ max := by
  unfold parseUnsigned
  split
  · next digits =>
    rw [readDigits_eq_some]
    constructor
    · rintro ⟨hne, hdigits, hvalue, hle⟩
      exact ⟨⟨['+'], digits, rfl, .inr rfl, hne, hdigits, hvalue⟩, hle⟩
    · rintro ⟨⟨sign, rest, hs, rfl | rfl, hne, hdigits, hvalue⟩, hle⟩
      · -- a plus sign is no digit
        have hplus : '+' ∈ rest := by
          rw [← List.nil_append rest, ← hs]
          exact List.mem_cons_self
        exact absurd (hdigits '+' hplus) (by decide)
      · obtain rfl := (List.cons.inj hs).2
        exact ⟨hne, hdigits, hvalue, hle⟩
  · next hplus =>
    rw [readDigits_eq_some]
    constructor
    · rintro ⟨hne, hdigits, hvalue, hle⟩
      exact ⟨⟨[], s, rfl, .inl rfl, hne, hdigits, hvalue⟩, hle⟩
    · rintro ⟨⟨sign, rest, rfl, rfl | rfl, hne, hdigits, hvalue⟩, hle⟩
      · exact ⟨hne, hdigits, hvalue, hle⟩
      · exact absurd rfl (hplus rest)

theorem parseSigned_of_not_mem (h : '-' ∉ s) :
    parseSigned max s = (parseUnsigned max s).map fun n : Nat => (n : Int) := by
  unfold parseSigned
  split
  · exact absurd List.mem_cons_self h
  · rfl

theorem Spells.of_digits (hne : s ≠ []) (hs : Digits s) : Spells s (value s) :=
  ⟨[], s, rfl, .inl rfl, hne, hs, rfl⟩

theorem spells_padded (width n : Nat) : Spells (padded width n) n := by
  have hspells := Spells.of_digits (padded_ne_nil width n) (digits_padded width n)
  rwa [value_padded] at hspells

theorem Spells.value_eq (h : Spells s n) (hs : Digits s) : value s = n := by
  obtain ⟨sign, digits, rfl, rfl | rfl, -, -, hvalue⟩ := h
  · exact hvalue
  · exact absurd (hs '+' List.mem_cons_self) (by decide)

theorem Spells.mem {c : Char} (h : Spells s n) (hc : c ∈ s) : c = '+' ∨ c.isDigit = true := by
  obtain ⟨sign, digits, rfl, hsign, -, hdigits, -⟩ := h
  rcases List.mem_append.mp hc with hc | hc
  · rcases hsign with rfl | rfl
    · exact nomatch hc
    · exact .inl (List.mem_singleton.mp hc)
  · exact .inr (hdigits c hc)

end Reading

end Decimal

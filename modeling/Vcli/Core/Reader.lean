import Mathlib.Data.List.TakeWhile
import Vcli.Core.Canonical

/-! A reader of JSON text, in the grammar of the standard. Nesting is not limited, and the value
of a decimal fraction is a parameter. -/

namespace Vcli

namespace Numeral

def isChar (c : Char) : Bool := c.isDigit || c = '-' || c = '+' || c = '.' || c = 'e' || c = 'E'

def isInteger (digits : List Char) : Bool :=
  !digits.isEmpty && digits.all Char.isDigit && (digits.length = 1 || digits.head? ≠ some '0')

def isExponent : List Char → Bool
  | [] => true
  | c :: text =>
    (c = 'e' || c = 'E') &&
      let digits := if text.head? = some '-' ∨ text.head? = some '+' then text.tail else text
      !digits.isEmpty && digits.all Char.isDigit

def isFraction : List Char → Bool
  | '.' :: text => !(text.takeWhile Char.isDigit).isEmpty && isExponent (text.dropWhile Char.isDigit)
  | text => isExponent text

def unsigned (token : List Char) : List Char := if token.head? = some '-' then token.tail else token

def isNumeral (token : List Char) : Bool :=
  isInteger ((unsigned token).takeWhile Char.isDigit) &&
    isFraction ((unsigned token).dropWhile Char.isDigit)

def toInt (token : List Char) : Int :=
  if token.head? = some '-' then -Nat.ofDigitChars 10 (unsigned token) 0
  else Nat.ofDigitChars 10 (unsigned token) 0

def read (readF64 : List Char → Option F64) (token : List Char) : Option JsonNumber :=
  if !isNumeral token then none
  else if (unsigned token).all Char.isDigit ∧ token ≠ ['-', '0'] ∧
      -2 ^ 63 ≤ toInt token ∧ toInt token < 2 ^ 64 then
    some (.int (toInt token))
  else (readF64 token).map .float

theorem isChar_of_isDigit {c : Char} (h : c.isDigit) : isChar c := by simp [isChar, h]

theorem isExponent_chars {text : List Char} (h : isExponent text) : ∀ c ∈ text, isChar c := by
  cases text with
  | nil => exact nofun
  | cons e text =>
    simp only [isExponent, Bool.and_eq_true, Bool.or_eq_true, decide_eq_true_eq,
      List.all_eq_true] at h
    obtain ⟨he, -, hdigits⟩ := h
    have he' : isChar e := by rcases he with rfl | rfl <;> decide
    refine List.forall_mem_cons.mpr ⟨he', fun c hc => ?_⟩
    split at hdigits
    next hsign =>
      cases text with
      | nil => exact nomatch hc
      | cons s digits =>
        rcases List.mem_cons.mp hc with rfl | hc
        · have hs : c = '-' ∨ c = '+' := by simpa using hsign
          rcases hs with rfl | rfl <;> decide
        · exact isChar_of_isDigit (hdigits c hc)
    next => exact isChar_of_isDigit (hdigits c hc)

theorem chars_of_dropWhile {text : List Char}
    (h : ∀ c ∈ text.dropWhile Char.isDigit, isChar c) : ∀ c ∈ text, isChar c := by
  intro c hc
  rw [← List.takeWhile_append_dropWhile (p := Char.isDigit) (l := text)] at hc
  rcases List.mem_append.mp hc with hc | hc
  · exact isChar_of_isDigit (List.mem_takeWhile_imp hc)
  · exact h c hc

theorem isFraction_chars {text : List Char} (h : isFraction text) : ∀ c ∈ text, isChar c := by
  unfold isFraction at h
  split at h
  · rw [Bool.and_eq_true] at h
    have hrest := chars_of_dropWhile (isExponent_chars h.2)
    exact List.forall_mem_cons.mpr ⟨by decide, hrest⟩
  · exact isExponent_chars h

theorem isNumeral_chars {token : List Char} (h : isNumeral token) :
    (∀ c ∈ token, isChar c) ∧ ∃ c rest, token = c :: rest ∧ (c = '-' ∨ c.isDigit) := by
  rw [isNumeral, Bool.and_eq_true] at h
  have hchars := chars_of_dropWhile (isFraction_chars h.2)
  have hne : (unsigned token).takeWhile Char.isDigit ≠ [] := by
    intro hnil
    rw [hnil] at h
    exact nomatch h.1
  cases token with
  | nil => exact absurd rfl hne
  | cons c rest =>
    by_cases hc : c = '-'
    · subst hc
      refine ⟨List.forall_mem_cons.mpr ⟨by decide, ?_⟩, _, _, rfl, Or.inl rfl⟩
      simpa [unsigned] using hchars
    · have hun : unsigned (c :: rest) = c :: rest := by simp [unsigned, hc]
      rw [hun] at hchars hne
      refine ⟨hchars, c, rest, rfl, Or.inr ?_⟩
      by_contra hdigit
      exact hne (List.takeWhile_cons_of_neg hdigit)

theorem isDigit_toDigits (n : Nat) : ∀ c ∈ Nat.toDigits 10 n, c.isDigit := by
  intro c hc
  exact Nat.isDigit_of_mem_toDigits (by decide) (by decide) hc

theorem head_toDigits {n : Nat} (h : 0 < n) : (Nat.toDigits 10 n).head? ≠ some '0' := by
  induction n using Nat.strong_induction_on with
  | _ n ih =>
    by_cases hn : n < 10
    · rw [Nat.toDigits_of_lt_base hn]
      have hdigit : ∀ d < 10, 0 < d → [d.digitChar].head? ≠ some '0' := by decide
      exact hdigit n hn h
    · rw [Nat.toDigits_of_base_le (by decide) (by omega),
        List.head?_append_of_ne_nil _ Nat.toDigits_ne_nil]
      exact ih (n / 10) (by omega) (by omega)

theorem isInteger_toDigits (n : Nat) : isInteger (Nat.toDigits 10 n) := by
  have hlead : (Nat.toDigits 10 n).length = 1 ∨ (Nat.toDigits 10 n).head? ≠ some '0' := by
    rcases Nat.eq_zero_or_pos n with rfl | hn
    · exact Or.inl (by rw [Nat.toDigits_zero]; rfl)
    · exact Or.inr (head_toDigits hn)
  simpa [isInteger, Nat.toDigits_ne_nil] using ⟨isDigit_toDigits n, hlead⟩

theorem unsigned_decimal (i : Int) : unsigned (decimal i) = Nat.toDigits 10 i.natAbs := by
  unfold decimal
  split
  · rfl
  · have hne : (Nat.toDigits 10 i.natAbs).head? ≠ some '-' := by
      intro h
      exact absurd (isDigit_toDigits _ _ (List.mem_of_mem_head? h)) (by decide)
    rw [unsigned, if_neg hne]

theorem isNumeral_decimal (i : Int) : isNumeral (decimal i) := by
  have hdigits := isDigit_toDigits i.natAbs
  rw [isNumeral, unsigned_decimal, List.takeWhile_eq_self_iff.mpr hdigits,
    List.dropWhile_eq_nil_iff.mpr hdigits, isInteger_toDigits]
  rfl

theorem toInt_decimal (i : Int) : toInt (decimal i) = i := by
  rw [toInt, unsigned_decimal, Nat.ofDigitChars_ten_toDigits]
  by_cases hi : i < 0
  · rw [decimal, if_pos hi, List.head?_cons, if_pos rfl]
    omega
  · have hne : (decimal i).head? ≠ some '-' := by
      rw [decimal, if_neg hi]
      intro h
      exact absurd (isDigit_toDigits _ _ (List.mem_of_mem_head? h)) (by decide)
    rw [if_neg hne]
    omega

theorem read_decimal (readF64 : List Char → Option F64) {i : Int}
    (h : JsonNumber.Representable (.int i)) : read readF64 (decimal i) = some (.int i) := by
  have hzero : decimal i ≠ ['-', '0'] := by
    intro hd
    have h0 : toInt (decimal i) = 0 := by rw [hd]; rfl
    rw [toInt_decimal] at h0
    subst h0
    exact absurd hd (by decide)
  have hall : (unsigned (decimal i)).all Char.isDigit := by
    rw [unsigned_decimal, List.all_eq_true]
    exact isDigit_toDigits _
  rw [read, isNumeral_decimal, toInt_decimal]
  simp only [Bool.not_true, Bool.false_eq_true, if_false]
  rw [if_pos ⟨hall, hzero, h.1, h.2⟩]

end Numeral

namespace Reader

variable (readF64 : List Char → Option F64)

def skipSpace (text : List Char) : List Char :=
  text.dropWhile fun c => c = ' ' || c = '\t' || c = '\n' || c = '\r'

/-- `Map::insert`: a key that is there already keeps its place and gets the new value. -/
def insert (entries : List (String × Json)) (k : String) (v : Json) : List (String × Json) :=
  if entries.any (·.1 = k) then entries.map fun e => if e.1 = k then (k, v) else e
  else entries ++ [(k, v)]

def scalar (text : List Char) : Option (Json × List Char) :=
  if let some text := text.dropPrefix? "null".toList then some (.null, text)
  else if let some text := text.dropPrefix? "true".toList then some (.bool true, text)
  else if let some text := text.dropPrefix? "false".toList then some (.bool false, text)
  else (Numeral.read readF64 (text.takeWhile Numeral.isChar)).map fun n =>
    (.number n, text.dropWhile Numeral.isChar)

mutual

def value : Nat → List Char → Option (Json × List Char)
  | 0, _ => none
  | fuel + 1, text =>
    match skipSpace text with
    | [] => none
    | c :: text =>
      if c = '"' then (Quoted.unquote text).map fun r => (.string (String.ofList r.1), r.2)
      else if c = '[' then
        if (skipSpace text).head? = some ']' then some (.array [], (skipSpace text).tail)
        else (items fuel text).map fun r => (.array r.1, r.2)
      else if c = '\x7b' then
        if (skipSpace text).head? = some '\x7d' then some (.object [], (skipSpace text).tail)
        else (members fuel [] text).map fun r => (.object r.1, r.2)
      else scalar readF64 (c :: text)

def items : Nat → List Char → Option (List Json × List Char)
  | 0, _ => none
  | fuel + 1, text =>
    match value fuel text with
    | none => none
    | some (v, text) =>
      match skipSpace text with
      | [] => none
      | c :: text =>
        if c = ',' then (items fuel text).map fun r => (v :: r.1, r.2)
        else if c = ']' then some ([v], text)
        else none

def members : Nat → List (String × Json) → List Char → Option (List (String × Json) × List Char)
  | 0, _, _ => none
  | fuel + 1, entries, text =>
    match skipSpace text with
    | [] => none
    | c :: text =>
      if c ≠ '"' then none
      else
        match Quoted.unquote text with
        | none => none
        | some (k, text) =>
          if (skipSpace text).head? ≠ some ':' then none
          else
            match value fuel (skipSpace text).tail with
            | none => none
            | some (v, text) =>
              match skipSpace text with
              | [] => none
              | c :: text =>
                if c = ',' then members fuel (insert entries (String.ofList k) v) text
                else if c = '\x7d' then some (insert entries (String.ofList k) v, text)
                else none

end

/-- `from_str`: one value and nothing after it. Two units of fuel a character are enough, as an
item or a member starts no deeper than the value that holds it. -/
def fromStr (text : List Char) : Option Json :=
  match value readF64 (2 * text.length + 2) text with
  | some (v, text) => if skipSpace text = [] then some v else none
  | none => none

def fromSlice (bytes : List UInt8) : Option Json :=
  (String.fromUTF8? bytes.toByteArray).bind fun s => fromStr readF64 s.toList

end Reader

end Vcli

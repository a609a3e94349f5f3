import Mathlib.Algebra.Ring.Int.Defs
import Mathlib.Algebra.Ring.Nat
import Mathlib.Data.List.Basic

/-! String literals of JSON: the escapes a writer may use, and reading a literal back. -/

namespace Quoted

def hexDigit (n : Nat) : Char := if n < 10 then Char.ofNat (48 + n) else Char.ofNat (87 + n)

def hexVal (c : Char) : Option Nat :=
  if '0' ≤ c ∧ c ≤ '9' then some (c.toNat - 48)
  else if 'a' ≤ c ∧ c ≤ 'f' then some (c.toNat - 87)
  else if 'A' ≤ c ∧ c ≤ 'F' then some (c.toNat - 55)
  else none

def hex4 (a b c d : Char) : Option Nat := do
  let a ← hexVal a
  let b ← hexVal b
  let c ← hexVal c
  let d ← hexVal d
  return ((a * 16 + b) * 16 + c) * 16 + d

def letter (c : Char) : Option Char :=
  if c = '"' then some '"'
  else if c = '\\' then some '\\'
  else if c = '/' then some '/'
  else if c = 'b' then some '\x08'
  else if c = 'f' then some '\x0c'
  else if c = 'n' then some '\n'
  else if c = 'r' then some '\r'
  else if c = 't' then some '\t'
  else none

def push (c : Char) (r : Option (List Char × List Char)) : Option (List Char × List Char) :=
  r.map fun r => (c :: r.1, r.2)

/-- The characters of a literal and what follows it; the opening quote has been read. An escaped
high surrogate needs its low one, and a control character needs an escape. -/
def unquote : List Char → Option (List Char × List Char)
  | [] => none
  | c :: text =>
    if c = '"' then some ([], text)
    else if c = '\\' then
      match text with
      | [] => none
      | e :: text =>
        if e = 'u' then
          match text with
          | a :: b :: c :: d :: text =>
            match hex4 a b c d with
            | none => none
            | some unit =>
              if unit < 0xD800 ∨ 0xE000 ≤ unit then push (Char.ofNat unit) (unquote text)
              else if 0xDC00 ≤ unit then none
              else
                match text with
                | '\\' :: 'u' :: a :: b :: c :: d :: text =>
                  match hex4 a b c d with
                  | none => none
                  | some low =>
                    if 0xDC00 ≤ low ∧ low < 0xE000 then
                      push (Char.ofNat (0x10000 + (unit - 0xD800) * 0x400 + (low - 0xDC00)))
                        (unquote text)
                    else none
                | _ => none
          | _ => none
        else
          match letter e with
          | none => none
          | some c => push c (unquote text)
    else if c.toNat < 0x20 then none
    else push c (unquote text)

theorem hexVal_hexDigit : ∀ n < 16, hexVal (hexDigit n) = some n := by decide

theorem unquote_quote (text : List Char) : unquote ('"' :: text) = some ([], text) := by
  unfold unquote
  rw [if_pos rfl]

theorem unquote_letter {e c : Char} (h : letter e = some c) (text : List Char) :
    unquote ('\\' :: e :: text) = push c (unquote text) := by
  have he : e ≠ 'u' := by
    rintro rfl
    have hnone : letter 'u' = none := by decide
    exact absurd (hnone.symm.trans h) nofun
  conv_lhs => unfold unquote
  simp [he, h]

theorem unquote_unit {n : Nat} (h : n < 0x20) (text : List Char) :
    unquote ('\\' :: 'u' :: '0' :: '0' :: hexDigit (n / 16) :: hexDigit (n % 16) :: text) =
      push (Char.ofNat n) (unquote text) := by
  have hunit : hex4 '0' '0' (hexDigit (n / 16)) (hexDigit (n % 16)) = some n := by
    have hzero : hexVal '0' = some 0 := by decide
    simp only [hex4, hzero, hexVal_hexDigit (n / 16) (by omega),
      hexVal_hexDigit (n % 16) (by omega), Option.bind_eq_bind, Option.bind_some]
    show some _ = some n
    congr 1
    omega
  have hlow : n < 0xD800 ∨ 0xE000 ≤ n := by omega
  conv_lhs => unfold unquote
  simp only [hunit, hlow, reduceIte, Char.reduceEq]

theorem unquote_plain {c : Char} (hquote : c ≠ '"') (hslash : c ≠ '\\') (h : ¬ c.toNat < 0x20)
    (text : List Char) : unquote (c :: text) = push c (unquote text) := by
  conv_lhs => unfold unquote
  simp only [hquote, hslash, h, reduceIte]

def Spells (escape : Char → List Char) : Prop :=
  ∀ c text, unquote (escape c ++ text) = push c (unquote text)

theorem Spells.unquote {escape : Char → List Char} (h : Spells escape) (s text : List Char) :
    unquote (s.flatMap escape ++ '"' :: text) = some (s, text) := by
  induction s with
  | nil => exact unquote_quote text
  | cons c s ih => rw [List.flatMap_cons, List.append_assoc, h, ih]; rfl

end Quoted

import Mathlib.Algebra.Ring.Int.Defs
import Mathlib.Algebra.Ring.Nat
import Mathlib.Data.List.AList
import Std.Data.ExtTreeMap

/-! Identifiers, clock arithmetic, geometry and frames shared by every crate. -/

namespace Vcli

/-- A `Uuid`; `Display` prints it hyphenated, in lowercase hexadecimal. -/
structure ProgramId where
  uuid : BitVec 128
deriving DecidableEq, Repr

namespace ProgramId

def hexDigit (n : Nat) : Char :=
  if n < 10 then Char.ofNat (48 + n) else Char.ofNat (87 + n)

def hex (id : ProgramId) (first count : Nat) : List Char :=
  (List.range count).map fun i =>
    hexDigit (id.uuid.toNat / 16 ^ (31 - (first + i)) % 16)

def toString (id : ProgramId) : String :=
  String.ofList (id.hex 0 8 ++ '-' :: id.hex 8 4 ++ '-' :: id.hex 12 4 ++
    '-' :: id.hex 16 4 ++ '-' :: id.hex 20 12)

theorem hexDigit_inj {a b : Nat} (ha : a < 16) (hb : b < 16) (h : hexDigit a = hexDigit b) :
    a = b := by
  have hall : ∀ a b : Fin 16, hexDigit a = hexDigit b → a = b := by decide
  exact Fin.mk.inj (hall ⟨a, ha⟩ ⟨b, hb⟩ h)

theorem eq_of_digits {n a b : Nat} (ha : a < 16 ^ n) (hb : b < 16 ^ n)
    (h : ∀ i < n, a / 16 ^ i % 16 = b / 16 ^ i % 16) : a = b := by
  induction n generalizing a b with
  | zero =>
    rw [Nat.pow_zero] at ha hb
    omega
  | succ n ih =>
    have hrest : a / 16 = b / 16 := by
      refine ih (Nat.div_lt_of_lt_mul ?_) (Nat.div_lt_of_lt_mul ?_) fun i hi => ?_
      · rwa [Nat.pow_succ'] at ha
      · rwa [Nat.pow_succ'] at hb
      · have hnext := h (i + 1) (Nat.succ_lt_succ hi)
        rwa [Nat.pow_succ', ← Nat.div_div_eq_div_mul, ← Nat.div_div_eq_div_mul] at hnext
    have hlast := h 0 (Nat.succ_pos n)
    rw [Nat.pow_zero, Nat.div_one, Nat.div_one] at hlast
    omega

theorem hex_length (id : ProgramId) (first count : Nat) : (id.hex first count).length = count := by
  rw [hex, List.length_map, List.length_range]

/-- Equal groups of digits are digit by digit equal; digits are counted from the last. -/
theorem digit_of_hex {id id' : ProgramId} {first count i : Nat}
    (h : id.hex first count = id'.hex first count) (hfirst : first + i ≤ 31)
    (hcount : 31 < first + i + count) :
    id.uuid.toNat / 16 ^ i % 16 = id'.uuid.toNat / 16 ^ i % 16 := by
  have hi : 31 - first - i < count := by omega
  have hplace : 31 - (first + (31 - first - i)) = i := by omega
  have hget := congrArg (fun l => l[31 - first - i]?) h
  simp only [hex, List.getElem?_map, List.getElem?_range hi, Option.map_some,
    Option.some.injEq, hplace] at hget
  exact hexDigit_inj (Nat.mod_lt _ (by decide)) (Nat.mod_lt _ (by decide)) hget

/-- The printed form tells ids apart. -/
theorem toString_injective {id id' : ProgramId} (h : id.toString = id'.toString) : id = id' := by
  have hchars : id.hex 0 8 ++ '-' :: id.hex 8 4 ++ '-' :: id.hex 12 4 ++
      '-' :: id.hex 16 4 ++ '-' :: id.hex 20 12 =
      id'.hex 0 8 ++ '-' :: id'.hex 8 4 ++ '-' :: id'.hex 12 4 ++
        '-' :: id'.hex 16 4 ++ '-' :: id'.hex 20 12 := String.ofList_injective h
  obtain ⟨h₄, hfive⟩ := List.append_inj hchars (by simp [hex_length])
  obtain ⟨h₃, hfour⟩ := List.append_inj h₄ (by simp [hex_length])
  obtain ⟨h₂, hthree⟩ := List.append_inj h₃ (by simp [hex_length])
  obtain ⟨hone, htwo⟩ := List.append_inj h₂ (by simp [hex_length])
  have hdigits : ∀ i < 32, id.uuid.toNat / 16 ^ i % 16 = id'.uuid.toNat / 16 ^ i % 16 := by
    intro i hi
    rcases (by omega : i < 12 ∨ 12 ≤ i ∧ i < 16 ∨ 16 ≤ i ∧ i < 20 ∨ 20 ≤ i ∧ i < 24 ∨ 24 ≤ i) with
      hi | hi | hi | hi | hi
    · exact digit_of_hex (List.cons.inj hfive).2 (by omega) (by omega)
    · exact digit_of_hex (List.cons.inj hfour).2 (by omega) (by omega)
    · exact digit_of_hex (List.cons.inj hthree).2 (by omega) (by omega)
    · exact digit_of_hex (List.cons.inj htwo).2 (by omega) (by omega)
    · exact digit_of_hex hone (by omega) (by omega)
  have hnat : id.uuid.toNat = id'.uuid.toNat :=
    eq_of_digits (show _ < 16 ^ 32 from id.uuid.isLt) id'.uuid.isLt hdigits
  exact congrArg ProgramId.mk (BitVec.eq_of_toNat_eq hnat)

end ProgramId

/-- Milliseconds since the epoch, an `i64` in the source. -/
abbrev UnixMs := Int

namespace UnixMs

def minValue : Int := -9223372036854775808

def maxValue : Int := 9223372036854775807

def clamp (t : Int) : UnixMs :=
  if t < minValue then minValue else if maxValue < t then maxValue else t

def saturatingSub (a b : UnixMs) : UnixMs := clamp (a - b)

def saturatingAdd (a b : UnixMs) : UnixMs := clamp (a + b)

/-- Saturation cannot turn a difference below an unsigned bound into one above it, nor
the other way round. -/
theorem le_saturatingSub_iff (a b : UnixMs) (n : UInt32) :
    (n.toNat : Int) ≤ saturatingSub a b ↔ (n.toNat : Int) ≤ a - b := by
  have hn : n.toNat < 2 ^ 32 := n.toNat_lt
  unfold saturatingSub clamp minValue maxValue
  split_ifs <;> omega

end UnixMs

/-- A binary64 value, kept as its bit pattern. -/
structure F64 where
  bits : BitVec 64
deriving DecidableEq, Repr

namespace F64

def isNan (x : F64) : Bool := (0x7ff0000000000000#64).ult (x.bits &&& 0x7fffffffffffffff#64)

def rank (x : F64) : Int :=
  if x.bits.msb then -((x.bits &&& 0x7fffffffffffffff#64).toNat : Int) else x.bits.toNat

def lt (x y : F64) : Bool := !x.isNan && !y.isNan && decide (x.rank < y.rank)

end F64

structure Point where
  x : Int
  y : Int
deriving DecidableEq, Repr

structure Rect where
  x : Int
  y : Int
  w : Int
  h : Int
deriving DecidableEq, Repr

structure Size where
  w : Int
  h : Int
deriving DecidableEq, Repr

inductive FrameFormat
  | bgra8
  | rgba8
deriving DecidableEq, Repr

structure Frame where
  format : FrameFormat
  bounds : Rect
  stride : Nat
  pixels : List UInt8
  capturedAtNs : Nat
deriving DecidableEq, Repr

def Frame.dot : Frame := ⟨.rgba8, ⟨0, 0, 1, 1⟩, 4, [0, 0, 0, 255], 0⟩

inductive ProgramState
  | pending
  | waiting
  | running
  | blocked
  | completed
  | failed
  | cancelled
deriving DecidableEq, Repr

namespace ProgramState

def isTerminal : ProgramState → Bool
  | completed | failed | cancelled => true
  | _ => false

def asStr : ProgramState → String
  | pending => "pending"
  | waiting => "waiting"
  | running => "running"
  | blocked => "blocked"
  | completed => "completed"
  | failed => "failed"
  | cancelled => "cancelled"

end ProgramState

end Vcli

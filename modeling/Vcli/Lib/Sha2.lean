import Mathlib.Analysis.SpecialFunctions.Pow.NthRootLemmas
import Mathlib.Analysis.SpecialFunctions.Pow.Real
import Mathlib.Data.Nat.Nth
import Mathlib.Data.Nat.Prime.Basic
import Vcli.Lib.BitString

/-! The Secure Hash Standard's hashes with words of `w` bits, over strings of bits. -/

namespace Sha2

variable {w : Nat}

section functions

def rotr (n : Nat) (x : BitVec w) : BitVec w := x >>> n ||| x <<< (w - n)

def ch (x y z : BitVec w) : BitVec w := (x &&& y) ^^^ (~~~x &&& z)

def maj (x y z : BitVec w) : BitVec w := (x &&& y) ^^^ (x &&& z) ^^^ (y &&& z)

theorem rotateRight_eq_rotr {n : Nat} (h : n < w) (x : BitVec w) : x.rotateRight n = rotr n x :=
  BitVec.rotateRight_eq_rotateRightAux_of_lt h

end functions

section constants

noncomputable def fraction (w : Nat) (x : ℝ) : BitVec w := BitVec.ofNat w ⌊Int.fract x * 2 ^ w⌋₊

noncomputable def primeRoot (w n t : Nat) : BitVec w :=
  fraction w ((Nat.nth Nat.Prime t : ℝ) ^ (n : ℝ)⁻¹)

theorem fraction_eq {x : ℝ} (hx : 0 ≤ x) : fraction w x = BitVec.ofNat w ⌊x * 2 ^ w⌋₊ := by
  have hwhole : (⌊x⌋ : ℝ) = ((⌊x⌋₊ : Nat) : ℝ) := (natCast_floor_eq_intCast_floor hx).symm
  have hsplit : x * 2 ^ w = Int.fract x * 2 ^ w + ((⌊x⌋₊ * 2 ^ w : Nat) : ℝ) := by
    rw [Nat.cast_mul, ← hwhole, Nat.cast_pow, Nat.cast_ofNat, ← add_mul, Int.fract_add_floor]
  have hfract : 0 ≤ Int.fract x * 2 ^ w := mul_nonneg (Int.fract_nonneg x) (by positivity)
  apply BitVec.eq_of_toNat_eq
  rw [fraction, hsplit, Nat.floor_add_natCast hfract, BitVec.toNat_ofNat, BitVec.toNat_ofNat,
    Nat.add_mul_mod_self_right]

theorem primeRoot_eq {n p t : Nat} (hn : n ≠ 0) (hp : Nat.nth Nat.Prime t = p) :
    primeRoot w n t = BitVec.ofNat w (Nat.nthRoot n (p * 2 ^ (n * w))) := by
  have hroot : (0 : ℝ) ≤ (p : ℝ) ^ (n : ℝ)⁻¹ := Real.rpow_nonneg (Nat.cast_nonneg p) _
  have hshift : (0 : ℝ) ≤ (p : ℝ) ^ (n : ℝ)⁻¹ * 2 ^ w := mul_nonneg hroot (by positivity)
  have hpow : ((p : ℝ) ^ (n : ℝ)⁻¹ * 2 ^ w) ^ n = ((p * 2 ^ (n * w) : Nat) : ℝ) := by
    rw [mul_pow, Real.rpow_inv_natCast_pow (Nat.cast_nonneg p) hn, ← pow_mul, Nat.mul_comm w n]
    push_cast
    rfl
  -- the integers below the shifted root are those whose power stays below the shifted prime
  have hbelow : ∀ q : Nat, q ≤ ⌊(p : ℝ) ^ (n : ℝ)⁻¹ * 2 ^ w⌋₊ ↔
      q ≤ Nat.nthRoot n (p * 2 ^ (n * w)) := by
    intro q
    rw [Nat.le_floor_iff hshift, Nat.le_nthRoot_iff hn,
      ← pow_le_pow_iff_left₀ (Nat.cast_nonneg q) hshift hn, hpow]
    exact_mod_cast Iff.rfl
  rw [primeRoot, hp, fraction_eq hroot, eq_of_forall_le_iff hbelow]

end constants

section messages

noncomputable def zeros (w length : Nat) : Nat :=
  sInf {n | length + 1 + n ≡ 14 * w [MOD 16 * w]}

noncomputable def padded (w : Nat) (message : List Bool) : List Bool :=
  message ++ true :: List.replicate (zeros w message.length) false ++
    BitString.ofNat (2 * w) message.length

def part (size i : Nat) (bits : List Bool) : List Bool := (bits.drop (size * i)).take size

def block (w : Nat) (message : List Bool) (i t : Nat) : BitVec w :=
  BitVec.ofNat w (BitString.toNat (part w t (part (16 * w) i message)))

theorem zeros_eq {length n : Nat} (h : length + 1 + n ≡ 14 * w [MOD 16 * w]) (hlt : n < 16 * w) :
    zeros w length = n := by
  have hleast : IsLeast {n | length + 1 + n ≡ 14 * w [MOD 16 * w]} n := by
    refine ⟨h, ?_⟩
    intro other hother
    have hsame : n ≡ other [MOD 16 * w] := (h.trans (Nat.ModEq.symm hother)).add_left_cancel' _
    calc n = n % (16 * w) := (Nat.mod_eq_of_lt hlt).symm
      _ = other % (16 * w) := hsame
      _ ≤ other := Nat.mod_le ..
  exact hleast.csInf_eq

end messages

structure State (w : Nat) where
  a : BitVec w
  b : BitVec w
  c : BitVec w
  d : BitVec w
  e : BitVec w
  f : BitVec w
  g : BitVec w
  h : BitVec w

def State.words (s : State w) : List (BitVec w) := [s.a, s.b, s.c, s.d, s.e, s.f, s.g, s.h]

def State.add (s v : State w) : State w :=
  ⟨s.a + v.a, s.b + v.b, s.c + v.c, s.d + v.d, s.e + v.e, s.f + v.f, s.g + v.g, s.h + v.h⟩

structure Parameters (w : Nat) where
  rounds : Nat
  initial : State w
  constant : Nat → BitVec w
  upperSigma0 : BitVec w → BitVec w
  upperSigma1 : BitVec w → BitVec w
  sigma0 : BitVec w → BitVec w
  sigma1 : BitVec w → BitVec w

section computation

variable (p : Parameters w)

def schedule (m : Nat → BitVec w) (t : Nat) : BitVec w :=
  if t < 16 then m t
  else p.sigma1 (schedule m (t - 2)) + schedule m (t - 7) + p.sigma0 (schedule m (t - 15)) +
    schedule m (t - 16)

def step (m : Nat → BitVec w) (s : State w) (t : Nat) : State w :=
  let t1 := s.h + p.upperSigma1 s.e + ch s.e s.f s.g + p.constant t + schedule p m t
  let t2 := p.upperSigma0 s.a + maj s.a s.b s.c
  ⟨t1 + t2, s.a, s.b, s.c, s.d + t1, s.e, s.f, s.g⟩

def compress (s : State w) (m : Nat → BitVec w) : State w :=
  s.add ((List.range p.rounds).foldl (step p m) s)

def chain (message : List Bool) : State w :=
  (List.range (message.length / (16 * w))).foldl (fun s i => compress p s (block w message i))
    p.initial

noncomputable def digest (message : List Bool) : Option (List Bool) :=
  if message.length < 2 ^ (2 * w) then
    some ((chain p (padded w message)).words.flatMap fun x => BitString.ofNat w x.toNat)
  else none

theorem schedule_of_lt {m : Nat → BitVec w} {t : Nat} (h : t < 16) : schedule p m t = m t := by
  rw [schedule, if_pos h]

theorem schedule_add (m : Nat → BitVec w) (t : Nat) : schedule p m (t + 16) =
    p.sigma1 (schedule p m (t + 14)) + schedule p m (t + 9) + p.sigma0 (schedule p m (t + 1)) +
      schedule p m t := by
  rw [schedule, if_neg (by omega)]
  rfl

end computation

section sha256

def primes : List Nat :=
  [2, 3, 5, 7, 11, 13, 17, 19, 23, 29, 31, 37, 41, 43, 47, 53, 59, 61, 67, 71, 73, 79, 83, 89, 97,
    101, 103, 107, 109, 113, 127, 131, 137, 139, 149, 151, 157, 163, 167, 173, 179, 181, 191, 193,
    197, 199, 211, 223, 227, 229, 233, 239, 241, 251, 257, 263, 269, 271, 277, 281, 283, 293, 307,
    311]

noncomputable def sha256 : Parameters 32 where
  rounds := 64
  initial := ⟨primeRoot 32 2 0, primeRoot 32 2 1, primeRoot 32 2 2, primeRoot 32 2 3,
    primeRoot 32 2 4, primeRoot 32 2 5, primeRoot 32 2 6, primeRoot 32 2 7⟩
  constant := primeRoot 32 3
  upperSigma0 x := rotr 2 x ^^^ rotr 13 x ^^^ rotr 22 x
  upperSigma1 x := rotr 6 x ^^^ rotr 11 x ^^^ rotr 25 x
  sigma0 x := rotr 7 x ^^^ rotr 18 x ^^^ x >>> 3
  sigma1 x := rotr 17 x ^^^ rotr 19 x ^^^ x >>> 10

theorem nth_primes {t : Nat} (h : t < 64) : Nat.nth Nat.Prime t = primes.getD t 0 := by
  have hcount : ∀ t < 64, (primes.getD t 0).Prime ∧ Nat.count Nat.Prime (primes.getD t 0) = t := by
    decide +kernel
  obtain ⟨hprime, hbelow⟩ := hcount t h
  conv_lhs => rw [← hbelow]
  exact Nat.nth_count hprime

end sha256

end Sha2

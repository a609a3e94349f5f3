import Mathlib.Data.List.Induction
import Mathlib.Tactic.Ring
import Vcli.Lib.BigEndian

/-! Strings of bits, the most significant first. -/

namespace BitString

def ofNat : Nat → Nat → List Bool
  | 0, _ => []
  | count + 1, n => ofNat count (n / 2) ++ [n % 2 == 1]

def toNat (bits : List Bool) : Nat := bits.foldl (fun n b => 2 * n + b.toNat) 0

def ofBytes (data : List UInt8) : List Bool := data.flatMap fun b => ofNat 8 b.toNat

def hex : List Bool → List Char
  | a :: b :: c :: d :: rest => Nat.digitChar (toNat [a, b, c, d]) :: hex rest
  | _ => []

section numbers

@[simp] theorem length_ofNat (count n : Nat) : (ofNat count n).length = count := by
  induction count generalizing n with
  | zero => rfl
  | succ count ih => rw [ofNat, List.length_append, ih]; rfl

theorem ofNat_add (m n x : Nat) : ofNat (m + n) x = ofNat m (x / 2 ^ n) ++ ofNat n x := by
  induction n generalizing x with
  | zero => simp [ofNat]
  | succ n ih =>
    have hdiv : x / 2 / 2 ^ n = x / 2 ^ (n + 1) := by
      rw [Nat.div_div_eq_div_mul, Nat.pow_succ']
    rw [Nat.add_succ, ofNat, ofNat, ih, hdiv, List.append_assoc]

theorem ofNat_mod (count n : Nat) : ofNat count (n % 2 ^ count) = ofNat count n := by
  induction count generalizing n with
  | zero => rfl
  | succ count ih =>
    have hlast : n % 2 ^ (count + 1) % 2 = n % 2 :=
      Nat.mod_mod_of_dvd n (Dvd.intro_left (2 ^ count) rfl)
    have hrest : n % 2 ^ (count + 1) / 2 = n / 2 % 2 ^ count := by
      rw [Nat.pow_succ', Nat.mod_mul_right_div_self]
    rw [ofNat, ofNat, hlast, hrest, ih]

theorem toNat_append (bs cs : List Bool) :
    toNat (bs ++ cs) = toNat bs * 2 ^ cs.length + toNat cs := by
  induction cs using List.reverseRecOn with
  | nil => simp [toNat]
  | append_singleton cs c ih =>
    have hlast : ∀ ds : List Bool, toNat (ds ++ [c]) = 2 * toNat ds + c.toNat := by
      intro ds
      rw [toNat, List.foldl_append]
      rfl
    rw [← List.append_assoc, hlast, hlast, ih, List.length_append, List.length_singleton,
      Nat.pow_succ]
    ring

theorem toNat_ofNat (count n : Nat) : toNat (ofNat count n) = n % 2 ^ count := by
  induction count generalizing n with
  | zero => rw [Nat.pow_zero, Nat.mod_one]; rfl
  | succ count ih =>
    have hbit : toNat [n % 2 == 1] = n % 2 := by
      rcases Nat.mod_two_eq_zero_or_one n with h | h <;> rw [h] <;> rfl
    have hsplit : n % 2 ^ (count + 1) = n % 2 + 2 * (n / 2 % 2 ^ count) := by
      rw [Nat.pow_succ', Nat.mod_mul]
    rw [ofNat, toNat_append, ih, hbit, hsplit, List.length_singleton]
    omega

end numbers

section bytes

theorem ofBytes_append (data rest : List UInt8) :
    ofBytes (data ++ rest) = ofBytes data ++ ofBytes rest := List.flatMap_append

@[simp] theorem length_ofBytes (data : List UInt8) : (ofBytes data).length = 8 * data.length := by
  induction data with
  | nil => rfl
  | cons b data ih =>
    rw [← List.singleton_append, ofBytes_append, List.length_append, ih, List.length_append]
    simp [ofBytes]
    omega

theorem ofBytes_zeros (n : Nat) :
    ofBytes (List.replicate n 0) = List.replicate (8 * n) false := by
  induction n with
  | zero => rfl
  | succ n ih =>
    rw [List.replicate_succ', ofBytes_append, ih, Nat.mul_succ, List.replicate_add]
    rfl

theorem ofBytes_toBytes (count n : Nat) :
    ofBytes (BigEndian.toBytes count n) = ofNat (8 * count) n := by
  induction count generalizing n with
  | zero => rfl
  | succ count ih =>
    have hbyte : ofBytes [UInt8.ofNat (n % 256)] = ofNat 8 n := by
      have hmod : (UInt8.ofNat (n % 256)).toNat = n % 2 ^ 8 :=
        UInt8.toNat_ofNat_of_lt' (Nat.mod_lt n (by decide))
      rw [ofBytes, List.flatMap_singleton, hmod, ofNat_mod]
    rw [BigEndian.toBytes, ofBytes_append, ih, hbyte, Nat.mul_succ, ofNat_add]
    rfl

theorem toNat_ofBytes (data : List UInt8) : toNat (ofBytes data) = BigEndian.ofBytes data := by
  induction data using List.reverseRecOn with
  | nil => rfl
  | append_singleton data b ih =>
    have hbyte : ofBytes [b] = ofNat 8 b.toNat := List.flatMap_singleton ..
    have hlt : b.toNat < 2 ^ 8 := b.toNat_lt
    rw [ofBytes_append, toNat_append, ih, hbyte, length_ofNat, toNat_ofNat,
      Nat.mod_eq_of_lt hlt, BigEndian.ofBytes_append]
    rfl

theorem drop_ofBytes (n : Nat) (data : List UInt8) :
    (ofBytes data).drop (8 * n) = ofBytes (data.drop n) := by
  induction n generalizing data with
  | zero => rfl
  | succ n ih =>
    cases data with
    | nil => simp [ofBytes]
    | cons b data =>
      have hfirst : (ofNat 8 b.toNat ++ ofBytes data).drop 8 = ofBytes data :=
        List.drop_left' (length_ofNat 8 b.toNat)
      rw [List.drop_succ_cons, ← ih, Nat.mul_succ, Nat.add_comm, ← List.drop_drop, ← hfirst]
      rfl

theorem take_ofBytes (n : Nat) (data : List UInt8) :
    (ofBytes data).take (8 * n) = ofBytes (data.take n) := by
  rcases Nat.le_total n data.length with h | h
  · have hlen : (ofBytes (data.take n)).length = 8 * n := by
      rw [length_ofBytes, List.length_take, Nat.min_eq_left h]
    conv_lhs => rw [← List.take_append_drop n data, ofBytes_append]
    exact List.take_left' hlen
  · rw [List.take_of_length_le h, List.take_of_length_le]
    rw [length_ofBytes]
    omega

end bytes

section digits

theorem hex_append (bs cs : List Bool) (h : 4 ∣ bs.length) : hex (bs ++ cs) = hex bs ++ hex cs := by
  induction bs using hex.induct with
  | case1 a b c d rest ih =>
    have hrest : 4 ∣ rest.length := by
      simp only [List.length_cons] at h
      omega
    simp only [List.cons_append, hex, ih hrest]
  | case2 bs hshort =>
    have hnil : bs = [] := by
      match bs, hshort with
      | [], _ => rfl
      | [_], _ => simp at h
      | [_, _], _ => simp at h
      | [_, _, _], _ => simp at h
      | a :: b :: c :: d :: rest, hshort => exact absurd rfl (hshort a b c d rest)
    rw [hnil]
    rfl

theorem hex_ofNat (count n : Nat) : hex (ofNat (4 * count) n) =
    (List.range count).map fun i => Nat.digitChar (n / 16 ^ (count - 1 - i) % 16) := by
  induction count generalizing n with
  | zero => rfl
  | succ count ih =>
    have hdigit : hex (ofNat 4 n) = [Nat.digitChar (n % 16)] := by
      have hfour : ofNat 4 n = [n / 8 % 2 == 1, n / 4 % 2 == 1, n / 2 % 2 == 1, n % 2 == 1] := by
        simp only [ofNat, Nat.div_div_eq_div_mul]
        rfl
      have hvalue := toNat_ofNat 4 n
      rw [hfour] at hvalue ⊢
      rw [hex, hvalue]
      rfl
    have hhigh : ∀ i ∈ List.range count, Nat.digitChar (n / 16 / 16 ^ (count - 1 - i) % 16) =
        Nat.digitChar (n / 16 ^ (count + 1 - 1 - i) % 16) := by
      intro i hi
      have hexp : count + 1 - 1 - i = count - 1 - i + 1 := by
        have := List.mem_range.mp hi
        omega
      rw [Nat.div_div_eq_div_mul, hexp, Nat.pow_succ']
    have hsplit : ofNat (4 * (count + 1)) n = ofNat (4 * count) (n / 16) ++ ofNat 4 n :=
      ofNat_add (4 * count) 4 n
    rw [hsplit, hex_append _ _ (by simp), ih, hdigit, List.map_congr_left hhigh,
      List.range_succ, List.map_append]
    simp

end digits

end BitString

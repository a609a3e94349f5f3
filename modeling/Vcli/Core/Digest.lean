import Vcli.Core.Sha256
import Vcli.Lib.Sha2

/-! The crate's hash is the standard's. -/

namespace Vcli.Sha256

open Sha2 (State)

section padding

/-- Zeros until the message is eight bytes short of a block; `none` when the steps run out
first. -/
def fill : Nat → List UInt8 → Option (List UInt8)
  | 0, _ => none
  | steps + 1, msg => if msg.length % 64 ≠ 56 then fill steps (msg ++ [0]) else some msg

theorem fill_eq {msg : List UInt8} {zeros steps : Nat} (hstop : (msg.length + zeros) % 64 = 56)
    (hleast : ∀ n < zeros, (msg.length + n) % 64 ≠ 56) (hsteps : zeros < steps) :
    fill steps msg = some (msg ++ List.replicate zeros 0) := by
  induction zeros generalizing msg steps with
  | zero =>
    obtain ⟨steps, rfl⟩ := Nat.exists_eq_succ_of_ne_zero hsteps.ne'
    have hfull : msg.length % 64 = 56 := hstop
    rw [fill, if_neg (not_not.mpr hfull), List.replicate_zero, List.append_nil]
  | succ zeros ih =>
    obtain ⟨steps, rfl⟩ := Nat.exists_eq_succ_of_ne_zero (Nat.ne_zero_of_lt hsteps)
    have hlen : (msg ++ [0]).length = msg.length + 1 := List.length_append
    have hnext : fill steps (msg ++ [0]) = some (msg ++ [0] ++ List.replicate zeros 0) := by
      apply ih
      · rw [hlen, ← hstop]
        congr 1
        omega
      · intro n hn
        have hlater := hleast (n + 1) (by omega)
        rw [hlen, Nat.add_assoc, Nat.add_comm 1 n]
        exact hlater
      · omega
    have hgo : msg.length % 64 ≠ 56 := hleast 0 (Nat.succ_pos zeros)
    rw [fill, if_pos hgo, hnext, List.append_assoc]
    rfl

theorem fill_marked (data : List UInt8) : fill 64 (data ++ [0x80]) =
    some (data ++ 0x80 :: List.replicate ((119 - data.length % 64) % 64) 0) := by
  have hlen : (data ++ [0x80]).length = data.length + 1 := List.length_append
  have hstop : ((data ++ [0x80]).length + (119 - data.length % 64) % 64) % 64 = 56 := by
    rw [hlen]
    omega
  have hleast : ∀ n < (119 - data.length % 64) % 64, ((data ++ [0x80]).length + n) % 64 ≠ 56 := by
    intro n hn
    rw [hlen]
    omega
  rw [fill_eq hstop hleast (Nat.mod_lt _ (by decide)), List.append_assoc]
  rfl

theorem length_pad (data : List UInt8) : (pad data).length % 64 = 0 := by
  simp only [pad, List.length_append, List.length_cons, List.length_replicate,
    BigEndian.length_toBytes]
  omega

theorem zeros_eq (data : List UInt8) :
    Sha2.zeros 32 (8 * data.length) = 7 + 8 * ((119 - data.length % 64) % 64) := by
  apply Sha2.zeros_eq
  · unfold Nat.ModEq
    omega
  · omega

theorem ofBytes_pad (data : List UInt8) :
    BitString.ofBytes (pad data) = Sha2.padded 32 (BitString.ofBytes data) := by
  have hmark : ∀ n, BitString.ofBytes (0x80 :: List.replicate n 0) =
      true :: List.replicate (7 + 8 * n) false := by
    intro n
    rw [← List.singleton_append, BitString.ofBytes_append, BitString.ofBytes_zeros,
      List.replicate_add]
    rfl
  have hlength : BitString.ofBytes (BigEndian.toBytes 8 (data.length * 8 % 2 ^ 64)) =
      BitString.ofNat (2 * 32) (8 * data.length) := by
    rw [BitString.ofBytes_toBytes, Nat.mul_comm data.length]
    exact BitString.ofNat_mod 64 _
  rw [pad, BitString.ofBytes_append, BitString.ofBytes_append, hmark, hlength, Sha2.padded,
    BitString.length_ofBytes, zeros_eq]

end padding

section chunks

theorem flatten_chunksExact (size : Nat) (data : List UInt8) :
    (chunksExact size data).flatten = data.take (size * (data.length / size)) := by
  have hfirst : ∀ n, ((List.range n).map fun i => (data.drop (size * i)).take size).flatten =
      data.take (size * n) := by
    intro n
    induction n with
    | zero => rfl
    | succ n ih =>
      rw [List.range_succ, List.map_append, List.flatten_append, ih, Nat.mul_succ, List.take_add]
      simp
  exact hfirst _

/-- Cutting the padded message drops nothing. -/
theorem flatten_chunksExact_pad (data : List UInt8) :
    (chunksExact 64 (pad data)).flatten = pad data := by
  have hwhole : 64 * ((pad data).length / 64) = (pad data).length :=
    Nat.mul_div_cancel' (Nat.dvd_of_mod_eq_zero (length_pad data))
  rw [flatten_chunksExact, hwhole, List.take_length]

theorem part_ofBytes (size i : Nat) (data : List UInt8) :
    Sha2.part (8 * size) i (BitString.ofBytes data) =
      BitString.ofBytes ((data.drop (size * i)).take size) := by
  rw [Sha2.part, Nat.mul_assoc, BitString.drop_ofBytes, BitString.take_ofBytes]

theorem block_ofBytes (data : List UInt8) (i t : Nat) :
    Sha2.block 32 (BitString.ofBytes data) i t = BitVec.ofNat 32
      (BigEndian.ofBytes ((((data.drop (64 * i)).take 64).drop (4 * t)).take 4)) := by
  have hblock := part_ofBytes 64 i data
  have hword := part_ofBytes 4 t ((data.drop (64 * i)).take 64)
  rw [Sha2.block, hblock, hword, BitString.toNat_ofBytes]

end chunks

section schedules

theorem lower_sigma0 (x : Word) :
    x.rotateRight 7 ^^^ x.rotateRight 18 ^^^ x >>> 3 = Sha2.sha256.sigma0 x := by
  simp [Sha2.sha256, Sha2.rotateRight_eq_rotr]

theorem lower_sigma1 (x : Word) :
    x.rotateRight 17 ^^^ x.rotateRight 19 ^^^ x >>> 10 = Sha2.sha256.sigma1 x := by
  simp [Sha2.sha256, Sha2.rotateRight_eq_rotr]

theorem upper_sigma0 (x : Word) :
    x.rotateRight 2 ^^^ x.rotateRight 13 ^^^ x.rotateRight 22 = Sha2.sha256.upperSigma0 x := by
  simp [Sha2.sha256, Sha2.rotateRight_eq_rotr]

theorem upper_sigma1 (x : Word) :
    x.rotateRight 6 ^^^ x.rotateRight 11 ^^^ x.rotateRight 25 = Sha2.sha256.upperSigma1 x := by
  simp [Sha2.sha256, Sha2.rotateRight_eq_rotr]

variable (m : Nat → Word)

noncomputable def words (count : Nat) : List Word :=
  (List.range count).map (Sha2.schedule Sha2.sha256 m)

theorem extend_words (n : Nat) : extend (words m (n + 16)) = words m (n + 1 + 16) := by
  have hback : ∀ t < 16, (words m (n + 16)).getD ((words m (n + 16)).length - (16 - t)) 0 =
      Sha2.schedule Sha2.sha256 m (n + t) := by
    intro t ht
    have hlen : (words m (n + 16)).length = n + 16 := by simp [words]
    have hindex : n + 16 - (16 - t) = n + t := by omega
    have hlt : n + t < n + 16 := by omega
    rw [hlen, hindex, words, List.getD_eq_getElem?_getD, List.getElem?_map,
      List.getElem?_range hlt]
    rfl
  have hback16 := hback 0 (by omega)
  have hback15 := hback 1 (by omega)
  have hback7 := hback 9 (by omega)
  have hback2 := hback 14 (by omega)
  have hnext : words m (n + 1 + 16) =
      words m (n + 16) ++ [Sha2.schedule Sha2.sha256 m (n + 16)] := by
    rw [words, words, Nat.add_right_comm, List.range_succ, List.map_append]
    rfl
  unfold extend
  simp only [hback16, hback15, hback7, hback2, lower_sigma0, lower_sigma1]
  rw [hnext, Sha2.schedule_add, Nat.add_zero]
  congr 2
  ac_rfl

theorem schedule_eq {chunk : List UInt8} (hlen : chunk.length = 64)
    (hm : ∀ t, m t = BitVec.ofNat 32 (BigEndian.ofBytes ((chunk.drop (4 * t)).take 4))) :
    schedule chunk = words m 64 := by
  have hfirst : (chunksExact 4 chunk).map (fun word => BitVec.ofNat 32 (BigEndian.ofBytes word)) =
      words m 16 := by
    rw [chunksExact, hlen, List.map_map, words]
    apply List.map_congr_left
    intro t ht
    rw [Sha2.schedule_of_lt _ (List.mem_range.mp ht), hm t]
    rfl
  have hextended : ∀ n, (List.range n).foldl (fun w _ => extend w) (words m 16) =
      words m (n + 16) := by
    intro n
    induction n with
    | zero => rfl
    | succ n ih =>
      rw [List.range_succ, List.foldl_append, ih]
      exact extend_words m n
  rw [schedule, hfirst]
  exact hextended 48

end schedules

section rounds

theorem initial_eq : initial = Sha2.sha256.initial.words := by
  have hroots : ∀ t < 8, BitVec.ofNat 32 (Nat.nthRoot 2 (Sha2.primes.getD t 0 * 2 ^ (2 * 32))) =
      initial.getD t 0 := by
    decide +kernel
  have hword : ∀ t < 8, Sha2.primeRoot 32 2 t = initial.getD t 0 := by
    intro t ht
    rw [← hroots t ht]
    exact Sha2.primeRoot_eq (by decide) (Sha2.nth_primes (by omega))
  simp only [Sha2.sha256, State.words, hword, Nat.reduceLT]
  rfl

theorem k_eq : k = (List.range 64).map Sha2.sha256.constant := by
  have hroots : ∀ t < 64, BitVec.ofNat 32 (Nat.nthRoot 3 (Sha2.primes.getD t 0 * 2 ^ (3 * 32))) =
      k.getD t 0 := by
    decide +kernel
  have htable : k = (List.range 64).map fun t => k.getD t 0 := by decide
  rw [htable]
  apply List.map_congr_left
  intro t ht
  have hlt := List.mem_range.mp ht
  rw [← hroots t hlt]
  exact (Sha2.primeRoot_eq (by decide) (Sha2.nth_primes hlt)).symm

theorem round_eq (m : Nat → Word) (s : State 32) (t : Nat) :
    round s.words (Sha2.sha256.constant t, Sha2.schedule Sha2.sha256 m t) =
      (Sha2.step Sha2.sha256 m s t).words := by
  simp only [State.words, round, Sha2.step, upper_sigma0, upper_sigma1]
  rfl

theorem compress_eq {m : Nat → Word} {chunk : List UInt8} (s : State 32) (hlen : chunk.length = 64)
    (hm : ∀ t, m t = BitVec.ofNat 32 (BigEndian.ofBytes ((chunk.drop (4 * t)).take 4))) :
    compress s.words chunk = (Sha2.compress Sha2.sha256 s m).words := by
  have hrounds : (k.zip (schedule chunk)).foldl round s.words =
      ((List.range 64).foldl (Sha2.step Sha2.sha256 m) s).words := by
    rw [k_eq, schedule_eq m hlen hm, words, List.zip_map', List.foldl_map]
    exact List.foldl_hom State.words (round_eq m)
  rw [compress, hrounds]
  rfl

end rounds

section digests

theorem chain_eq (message : List UInt8) :
    (chunksExact 64 message).foldl compress initial =
      (Sha2.chain Sha2.sha256 (BitString.ofBytes message)).words := by
  have hblocks : ∀ n ≤ message.length / 64,
      (List.range n).foldl (fun s i => compress s ((message.drop (64 * i)).take 64)) initial =
        ((List.range n).foldl (fun s i => Sha2.compress Sha2.sha256 s
          (Sha2.block 32 (BitString.ofBytes message) i)) Sha2.sha256.initial).words := by
    intro n hn
    induction n with
    | zero => exact initial_eq
    | succ n ih =>
      have hlen : ((message.drop (64 * n)).take 64).length = 64 := by
        rw [List.length_take, List.length_drop]
        omega
      rw [List.range_succ, List.foldl_append, List.foldl_append, ih (by omega)]
      simp only [List.foldl_cons, List.foldl_nil]
      exact compress_eq _ hlen (block_ofBytes message n)
  have hcount : (BitString.ofBytes message).length / (16 * 32) = message.length / 64 := by
    rw [BitString.length_ofBytes]
    omega
  rw [chunksExact, List.foldl_map, Sha2.chain, hcount]
  exact hblocks _ (Nat.le_refl _)

theorem hex_eq (word : Word) : hex word = BitString.hex (BitString.ofNat 32 word.toNat) := by
  have hdigit : ∀ n < 16, Quoted.hexDigit n = Nat.digitChar n := by decide
  have hdigits := BitString.hex_ofNat 8 word.toNat
  rw [hex, hdigits]
  apply List.map_congr_left
  intro i hi
  exact hdigit _ (Nat.mod_lt _ (by decide))

theorem flatMap_hex (words : List Word) : words.flatMap hex =
    BitString.hex (words.flatMap fun x => BitString.ofNat 32 x.toNat) := by
  induction words with
  | nil => rfl
  | cons word words ih =>
    have hfour : 4 ∣ (BitString.ofNat 32 word.toNat).length := by simp
    rw [List.flatMap_cons, List.flatMap_cons, BitString.hex_append _ _ hfour, hex_eq, ih]

/-- The hash of a message that has a digest is the digest in hexadecimal; the loop that pads it
ends, its length is then a whole number of blocks, and the blocks together are all of it. -/
theorem sha256Hex_is_sha256 (data : List UInt8) (h : data.length < 2 ^ 61) :
    (Sha2.digest Sha2.sha256 (BitString.ofBytes data)).map BitString.hex =
        some (sha256Hex data).toList ∧
      (sha256Hex data).toList.length = 64 ∧
      (∃ filled, fill 64 (data ++ [0x80]) = some filled ∧
        pad data = filled ++ BigEndian.toBytes 8 (data.length * 8 % 2 ^ 64)) ∧
      (pad data).length % 64 = 0 ∧
      (chunksExact 64 (pad data)).flatten = pad data := by
  have hdigest : (Sha2.digest Sha2.sha256 (BitString.ofBytes data)).map BitString.hex =
      some (sha256Hex data).toList := by
    have hshort : (BitString.ofBytes data).length < 2 ^ (2 * 32) := by
      rw [BitString.length_ofBytes]
      omega
    rw [Sha2.digest, if_pos hshort, Option.map_some, sha256Hex, String.toList_ofList, flatMap_hex,
      chain_eq, ofBytes_pad]
  have hfill : ∃ filled, fill 64 (data ++ [0x80]) = some filled ∧
      pad data = filled ++ BigEndian.toBytes 8 (data.length * 8 % 2 ^ 64) :=
    ⟨_, fill_marked data, rfl⟩
  exact ⟨hdigest, length_sha256Hex data, hfill, length_pad data, flatten_chunksExact_pad data⟩

theorem three_bytes_sha256 :
    (Sha2.digest Sha2.sha256 (BitString.ofBytes [97, 98, 99])).map BitString.hex =
      some "ba7816bf8f01cfea414140de5dae2223b00361a396177a9cb410ff61f20015ad".toList := by
  have hhash : sha256Hex [97, 98, 99] =
      "ba7816bf8f01cfea414140de5dae2223b00361a396177a9cb410ff61f20015ad" := by
    decide +kernel
  rw [← hhash]
  exact (sha256Hex_is_sha256 [97, 98, 99] (by decide)).1

end digests

end Vcli.Sha256

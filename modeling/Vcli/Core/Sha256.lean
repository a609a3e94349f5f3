import Vcli.Lib.BigEndian
import Vcli.Lib.Quoted

/-! SHA-256 as the crate computes it, without a dependency. -/

namespace Vcli.Sha256

abbrev Word := BitVec 32

def initial : List Word :=
  [0x6a09e667#32, 0xbb67ae85#32, 0x3c6ef372#32, 0xa54ff53a#32,
    0x510e527f#32, 0x9b05688c#32, 0x1f83d9ab#32, 0x5be0cd19#32]

def k : List Word :=
  [0x428a2f98#32, 0x71374491#32, 0xb5c0fbcf#32, 0xe9b5dba5#32, 0x3956c25b#32, 0x59f111f1#32,
    0x923f82a4#32, 0xab1c5ed5#32, 0xd807aa98#32, 0x12835b01#32, 0x243185be#32, 0x550c7dc3#32,
    0x72be5d74#32, 0x80deb1fe#32, 0x9bdc06a7#32, 0xc19bf174#32, 0xe49b69c1#32, 0xefbe4786#32,
    0x0fc19dc6#32, 0x240ca1cc#32, 0x2de92c6f#32, 0x4a7484aa#32, 0x5cb0a9dc#32, 0x76f988da#32,
    0x983e5152#32, 0xa831c66d#32, 0xb00327c8#32, 0xbf597fc7#32, 0xc6e00bf3#32, 0xd5a79147#32,
    0x06ca6351#32, 0x14292967#32, 0x27b70a85#32, 0x2e1b2138#32, 0x4d2c6dfc#32, 0x53380d13#32,
    0x650a7354#32, 0x766a0abb#32, 0x81c2c92e#32, 0x92722c85#32, 0xa2bfe8a1#32, 0xa81a664b#32,
    0xc24b8b70#32, 0xc76c51a3#32, 0xd192e819#32, 0xd6990624#32, 0xf40e3585#32, 0x106aa070#32,
    0x19a4c116#32, 0x1e376c08#32, 0x2748774c#32, 0x34b0bcb5#32, 0x391c0cb3#32, 0x4ed8aa4a#32,
    0x5b9cca4f#32, 0x682e6ff3#32, 0x748f82ee#32, 0x78a5636f#32, 0x84c87814#32, 0x8cc70208#32,
    0x90befffa#32, 0xa4506ceb#32, 0xbef9a3f7#32, 0xc67178f2#32]

def pad (data : List UInt8) : List UInt8 :=
  data ++ 0x80 :: List.replicate ((119 - data.length % 64) % 64) 0 ++
    BigEndian.toBytes 8 (data.length * 8 % 2 ^ 64)

def chunksExact (size : Nat) (data : List UInt8) : List (List UInt8) :=
  (List.range (data.length / size)).map fun i => (data.drop (size * i)).take size

def extend (w : List Word) : List Word :=
  let back (n : Nat) : Word := w.getD (w.length - n) 0
  let s0 := (back 15).rotateRight 7 ^^^ (back 15).rotateRight 18 ^^^ (back 15) >>> 3
  let s1 := (back 2).rotateRight 17 ^^^ (back 2).rotateRight 19 ^^^ (back 2) >>> 10
  w ++ [back 16 + s0 + back 7 + s1]

def schedule (chunk : List UInt8) : List Word :=
  (List.range 48).foldl (fun w _ => extend w)
    ((chunksExact 4 chunk).map fun word => BitVec.ofNat 32 (BigEndian.ofBytes word))

def round (h : List Word) (kw : Word × Word) : List Word :=
  match h with
  | [h0, h1, h2, h3, h4, h5, h6, h7] =>
    let s1 := h4.rotateRight 6 ^^^ h4.rotateRight 11 ^^^ h4.rotateRight 25
    let ch := (h4 &&& h5) ^^^ (~~~h4 &&& h6)
    let temp1 := h7 + s1 + ch + kw.1 + kw.2
    let s0 := h0.rotateRight 2 ^^^ h0.rotateRight 13 ^^^ h0.rotateRight 22
    let maj := (h0 &&& h1) ^^^ (h0 &&& h2) ^^^ (h1 &&& h2)
    let temp2 := s0 + maj
    [temp1 + temp2, h0, h1, h2, h3 + temp1, h4, h5, h6]
  | _ => h

def compress (state : List Word) (chunk : List UInt8) : List Word :=
  List.zipWith (· + ·) state ((k.zip (schedule chunk)).foldl round state)

def hex (word : Word) : List Char :=
  (List.range 8).map fun i => Quoted.hexDigit (word.toNat / 16 ^ (7 - i) % 16)

def sha256Hex (data : List UInt8) : String :=
  String.ofList (((chunksExact 64 (pad data)).foldl compress initial).flatMap hex)

example : sha256Hex [97, 98, 99] =
    "ba7816bf8f01cfea414140de5dae2223b00361a396177a9cb410ff61f20015ad" := by
  decide +kernel

theorem length_round (h : List Word) (kw : Word × Word) : (round h kw).length = h.length := by
  unfold round
  split <;> rfl

theorem length_rounds (h : List Word) (kws : List (Word × Word)) :
    (kws.foldl round h).length = h.length := by
  induction kws generalizing h with
  | nil => rfl
  | cons kw kws ih => rw [List.foldl_cons, ih, length_round]

theorem length_compress (state : List Word) (chunk : List UInt8) :
    (compress state chunk).length = state.length := by
  rw [compress, List.length_zipWith, length_rounds, Nat.min_self]

theorem length_digest (state : List Word) (chunks : List (List UInt8)) :
    (chunks.foldl compress state).length = state.length := by
  induction chunks generalizing state with
  | nil => rfl
  | cons chunk chunks ih => rw [List.foldl_cons, ih, length_compress]

theorem length_sha256Hex (data : List UInt8) : (sha256Hex data).toList.length = 64 := by
  have hword : ∀ word : Word, (hex word).length = 8 := by
    intro word
    rw [hex, List.length_map, List.length_range]
  rw [sha256Hex, String.toList_ofList, List.length_flatMap]
  simp only [hword, List.map_const', List.sum_replicate_nat, length_digest]
  rfl

theorem mem_sha256Hex {data : List UInt8} {c : Char} (hc : c ∈ (sha256Hex data).toList) :
    c ∈ "0123456789abcdef".toList := by
  have hdigit : ∀ n < 16, Quoted.hexDigit n ∈ "0123456789abcdef".toList := by decide
  rw [sha256Hex, String.toList_ofList] at hc
  obtain ⟨word, -, hc⟩ := List.mem_flatMap.mp hc
  obtain ⟨i, -, rfl⟩ := List.mem_map.mp hc
  exact hdigit _ (Nat.mod_lt _ (by decide))

end Vcli.Sha256

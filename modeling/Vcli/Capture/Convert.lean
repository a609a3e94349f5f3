import Vcli.Perception.Geometry

/-! Frames out of captured buffers: padding is kept, and a buffer at twice the resolution is
halved by averaging. What perception reads of the frame is what the backend captured. -/

namespace Vcli

open Fallible

/-- A binary32 value, kept as its bit pattern. -/
structure F32 where
  bits : BitVec 32
deriving DecidableEq, Repr

namespace F32

/-- The number in units of the least positive one, exactly; infinities and NaN are no numbers. -/
def units (x : F32) : Option Int :=
  let exponent : Nat := x.bits.toNat / 2 ^ 23 % 2 ^ 8
  let fraction : Nat := x.bits.toNat % 2 ^ 23
  if exponent = 255 then none
  else
    let magnitude : Int :=
      if exponent = 0 then fraction else (2 ^ 23 + fraction) * 2 ^ (exponent - 1)
    some (if x.bits.msb then -magnitude else magnitude)

/-- `(x - n).abs() < EPSILON`. A difference this small is computed without rounding. -/
def near (x : F32) (n : Nat) : Bool :=
  match x.units with
  | none => false
  | some u => decide ((u - n * 2 ^ 149).natAbs < 2 ^ 126)

def two : F32 := ⟨0x40000000#32⟩

end F32

structure RawBgra where
  widthPx : UInt32
  heightPx : UInt32
  stride : Nat
  pixels : List UInt8
  capturedAtNs : Nat
  scale : F32
  logicalOriginX : Int
  logicalOriginY : Int

inductive CaptureError
  | malformedFrame (reason : String)
deriving DecidableEq, Repr

abbrev Conversion (α : Type) := Fallible Unit CaptureError Crash α

section Buffers

@[irreducible] def asI32 (n : Nat) : Int := Int.bmod n 4294967296

theorem asI32_of_lt {n : Nat} (h : n < 2147483648) : asI32 n = n := by
  unfold asI32
  exact Int.bmod_eq_of_le (by omega) (by omega)

def checkedU32 (n : Nat) : Conversion Nat :=
  if n < 2 ^ 32 then pure n else crash .panic

def slice (bytes : List UInt8) (start stop : Nat) : Conversion (List UInt8) :=
  if start ≤ stop ∧ stop ≤ bytes.length then pure ((bytes.drop start).take (stop - start))
  else crash .panic

def byteAt (bytes : List UInt8) (i : Nat) : Conversion UInt8 :=
  match bytes[i]? with
  | some b => pure b
  | none => crash .panic

def store (bytes : List UInt8) (i : Nat) (b : UInt8) : Conversion (List UInt8) :=
  if i < bytes.length then pure (bytes.set i b) else crash .panic

end Buffers

def Frame.new (format : FrameFormat) (bounds : Rect) (stride : Nat) (pixels : List UInt8)
    (capturedAtNs : Nat) : Conversion Frame :=
  if pixels.length < min (stride * bounds.h.toNat) (2 ^ 64 - 1) then crash .panic
  else pure ⟨format, bounds, stride, pixels, capturedAtNs⟩

def boxAverage (row₀ row₁ : List UInt8) (i : Nat) : Conversion UInt8 := do
  let a ← byteAt row₀ i
  let b ← byteAt row₀ (i + 4)
  let c ← byteAt row₁ i
  let d ← byteAt row₁ (i + 4)
  return UInt8.ofNat ((a.toNat + b.toNat + c.toNat + d.toNat) / 4)

def downsample2x (raw : RawBgra) : Conversion (Int × Int × Nat × List UInt8) := do
  let outW := raw.widthPx.toNat / 2
  let outH := raw.heightPx.toNat / 2
  let outStride := outW * 4
  let out ← (List.range outH).foldlM (fun out y => do
    let row₀ ← slice raw.pixels (y * 2 * raw.stride) (y * 2 * raw.stride + raw.widthPx.toNat * 4)
    let row₁ ← slice raw.pixels ((y * 2 + 1) * raw.stride)
      ((y * 2 + 1) * raw.stride + raw.widthPx.toNat * 4)
    (List.range outW).foldlM (fun out x =>
      (List.range 4).foldlM (fun out c => do
        let mean ← boxAverage row₀ row₁ (x * 2 * 4 + c)
        store out (y * outStride + x * 4 + c) mean) out) out)
    (List.replicate (outStride * outH) 0)
  return (asI32 outW, asI32 outH, outStride, out)

def bgraToFrame (display : F32 → String) (raw : RawBgra) : Conversion Frame := do
  let need := raw.stride * raw.heightPx.toNat
  if 2 ^ 64 ≤ need then fail (.malformedFrame "stride * height overflow")
  else if raw.pixels.length < need then
    fail (.malformedFrame ("buffer len " ++ toString raw.pixels.length ++ " < stride*height " ++
      toString need))
  else if raw.stride < raw.widthPx.toNat * 4 then do
    let shown ← checkedU32 (raw.widthPx.toNat * 4)
    fail (.malformedFrame ("stride " ++ toString raw.stride ++ " less than width*4 " ++
      toString shown))
  else do
    let out ←
      if raw.scale.near 1 then
        pure (asI32 raw.widthPx.toNat, asI32 raw.heightPx.toNat, raw.stride, raw.pixels)
      else if raw.scale.near 2 then downsample2x raw
      else fail (.malformedFrame ("unsupported scale " ++ display raw.scale))
    Frame.new .bgra8 ⟨raw.logicalOriginX, raw.logicalOriginY, out.1, out.2.1⟩ out.2.2.1 out.2.2.2
      raw.capturedAtNs

section Reads
variable {bytes : List UInt8} {start stop i : Nat} {b : UInt8}

theorem slice_returns (hstart : start ≤ stop) (hstop : stop ≤ bytes.length) :
    (slice bytes start stop).Returns () (.ok ((bytes.drop start).take (stop - start))) () := by
  rw [slice, if_pos ⟨hstart, hstop⟩]
  exact returns_pure.mpr ⟨rfl, rfl⟩

theorem getElem?_slice (h : i < stop - start) :
    ((bytes.drop start).take (stop - start))[i]? = bytes[start + i]? := by
  rw [List.getElem?_take_of_lt h, List.getElem?_drop]

theorem byteAt_returns (h : bytes[i]? = some b) : (byteAt bytes i).Returns () (.ok b) () := by
  rw [byteAt, h]
  exact returns_pure.mpr ⟨rfl, rfl⟩

theorem store_returns (h : i < bytes.length) :
    (store bytes i b).Returns () (.ok (bytes.set i b)) () := by
  rw [store, if_pos h]
  exact returns_pure.mpr ⟨rfl, rfl⟩

theorem boxAverage_returns {row₀ row₁ : List UInt8} {b₀₀ b₁₀ b₀₁ b₁₁ : UInt8}
    (h₀₀ : row₀[i]? = some b₀₀) (h₁₀ : row₀[i + 4]? = some b₁₀) (h₀₁ : row₁[i]? = some b₀₁)
    (h₁₁ : row₁[i + 4]? = some b₁₁) :
    (boxAverage row₀ row₁ i).Returns ()
      (.ok (UInt8.ofNat ((b₀₀.toNat + b₁₀.toNat + b₀₁.toNat + b₁₁.toNat) / 4))) () := by
  refine returns_bind.mpr (.inr ⟨b₀₀, (), byteAt_returns h₀₀, ?_⟩)
  refine returns_bind.mpr (.inr ⟨b₁₀, (), byteAt_returns h₁₀, ?_⟩)
  refine returns_bind.mpr (.inr ⟨b₀₁, (), byteAt_returns h₀₁, ?_⟩)
  refine returns_bind.mpr (.inr ⟨b₁₁, (), byteAt_returns h₁₁, ?_⟩)
  exact returns_pure.mpr ⟨rfl, rfl⟩

end Reads

namespace RawBgra

structure Sized (raw : RawBgra) : Prop where
  rows : raw.stride * raw.heightPx.toNat ≤ raw.pixels.length
  stride : raw.widthPx.toNat * 4 ≤ raw.stride

def byte (raw : RawBgra) (row i : Nat) : UInt8 := raw.pixels.getD (row * raw.stride + i) 0

structure Shows (raw : RawBgra) (x y : Nat) (c : Rgb) : Prop where
  across : x < raw.widthPx.toNat
  along : y < raw.heightPx.toNat
  red : raw.pixels[y * raw.stride + x * 4 + 2]? = some c.r
  green : raw.pixels[y * raw.stride + x * 4 + 1]? = some c.g
  blue : raw.pixels[y * raw.stride + x * 4]? = some c.b

/-- What the byte `i` of row `y` of the halved image is. -/
def halved (raw : RawBgra) (y i : Nat) : UInt8 :=
  let j := i / 4 * 8 + i % 4
  UInt8.ofNat (((raw.byte (y * 2) j).toNat + (raw.byte (y * 2) (j + 4)).toNat +
    (raw.byte (y * 2 + 1) j).toNat + (raw.byte (y * 2 + 1) (j + 4)).toNat) / 4)

def half (raw : RawBgra) : List UInt8 :=
  Grid.tabulate (raw.heightPx.toNat / 2) (raw.widthPx.toNat / 2 * 4) raw.halved

theorem half_byte {raw : RawBgra} {y x k : Nat} (hy : y < raw.heightPx.toNat / 2)
    (hx : x < raw.widthPx.toNat / 2) (hk : k < 4) :
    raw.half[y * (raw.widthPx.toNat / 2 * 4) + x * 4 + k]? = some (raw.halved y (x * 4 + k)) := by
  rw [Nat.add_assoc]
  exact Grid.getElem?_tabulate hy (by omega)

section Sized
variable {raw : RawBgra}

theorem Sized.end_of_row (h : raw.Sized) {row : Nat} (hrow : row < raw.heightPx.toNat) :
    row * raw.stride + raw.widthPx.toNat * 4 ≤ raw.pixels.length := by
  calc row * raw.stride + raw.widthPx.toNat * 4
      ≤ row * raw.stride + raw.stride := Nat.add_le_add_left h.stride _
    _ = (row + 1) * raw.stride := (Nat.succ_mul row _).symm
    _ ≤ raw.heightPx.toNat * raw.stride := Nat.mul_le_mul_right _ hrow
    _ = raw.stride * raw.heightPx.toNat := Nat.mul_comm _ _
    _ ≤ raw.pixels.length := h.rows

theorem Sized.byte (h : raw.Sized) {row i : Nat} (hrow : row < raw.heightPx.toNat)
    (hi : i < raw.widthPx.toNat * 4) :
    raw.pixels[row * raw.stride + i]? = some (raw.byte row i) := by
  have hend := h.end_of_row hrow
  have hin : row * raw.stride + i < raw.pixels.length := by omega
  rw [RawBgra.byte, List.getD_eq_getElem?_getD, List.getElem?_eq_getElem hin, Option.getD_some]

/-- Rows `y` and `y + 1` of the buffer, without their padding. -/
structure Rows (raw : RawBgra) (y : Nat) (row₀ row₁ : List UInt8) : Prop where
  upper : ∀ i < raw.widthPx.toNat * 4, row₀[i]? = some (raw.byte (y * 2) i)
  lower : ∀ i < raw.widthPx.toNat * 4, row₁[i]? = some (raw.byte (y * 2 + 1) i)

theorem Rows.average {y x k : Nat} {row₀ row₁ : List UInt8} (h : raw.Rows y row₀ row₁)
    (hx : x < raw.widthPx.toNat / 2) (hk : k < 4) :
    (boxAverage row₀ row₁ (x * 2 * 4 + k)).Returns () (.ok (raw.halved y (x * 4 + k))) () := by
  have hplace : (x * 4 + k) / 4 * 8 + (x * 4 + k) % 4 = x * 2 * 4 + k := by omega
  have haverage := boxAverage_returns (h.upper (x * 2 * 4 + k) (by omega))
    (h.upper (x * 2 * 4 + k + 4) (by omega)) (h.lower (x * 2 * 4 + k) (by omega))
    (h.lower (x * 2 * 4 + k + 4) (by omega))
  rw [halved, hplace]
  exact haverage

theorem Rows.fill_pixel {y x : Nat} {row₀ row₁ out : List UInt8} (h : raw.Rows y row₀ row₁)
    (hy : y < raw.heightPx.toNat / 2) (hx : x < raw.widthPx.toNat / 2)
    (hout : Grid.Filled raw.half (y * (raw.widthPx.toNat / 2 * 4) + x * 4) out) :
    ∃ out', ((List.range 4).foldlM (fun out c => do
        let mean ← boxAverage row₀ row₁ (x * 2 * 4 + c)
        store out (y * (raw.widthPx.toNat / 2 * 4) + x * 4 + c) mean) out).Returns ()
          (.ok out') () ∧
      Grid.Filled raw.half (y * (raw.widthPx.toNat / 2 * 4) + (x + 1) * 4) out' := by
  have hstep : ∀ k < 4, ∀ out,
      Grid.Filled raw.half (y * (raw.widthPx.toNat / 2 * 4) + x * 4 + k) out →
      ∃ out', ((boxAverage row₀ row₁ (x * 2 * 4 + k) >>= fun mean =>
          store out (y * (raw.widthPx.toNat / 2 * 4) + x * 4 + k) mean).Returns () (.ok out') ()) ∧
        Grid.Filled raw.half (y * (raw.widthPx.toNat / 2 * 4) + x * 4 + (k + 1)) out' := by
    intro k hk out hout
    have hbyte := half_byte hy hx hk
    refine ⟨_, returns_bind.mpr (.inr ⟨_, (), h.average hx hk, store_returns (hout.lt hbyte)⟩), ?_⟩
    exact hout.store hbyte
  obtain ⟨out', hret, hfilled⟩ := returns_foldlM hstep hout
  refine ⟨out', hret, ?_⟩
  rw [Nat.succ_mul, ← Nat.add_assoc]
  exact hfilled

theorem Rows.fill_row {y : Nat} {row₀ row₁ out : List UInt8} (h : raw.Rows y row₀ row₁)
    (hy : y < raw.heightPx.toNat / 2)
    (hout : Grid.Filled raw.half (y * (raw.widthPx.toNat / 2 * 4)) out) :
    ∃ out', ((List.range (raw.widthPx.toNat / 2)).foldlM (fun out x =>
        (List.range 4).foldlM (fun out c => do
          let mean ← boxAverage row₀ row₁ (x * 2 * 4 + c)
          store out (y * (raw.widthPx.toNat / 2 * 4) + x * 4 + c) mean) out) out).Returns ()
            (.ok out') () ∧
      Grid.Filled raw.half ((y + 1) * (raw.widthPx.toNat / 2 * 4)) out' := by
  obtain ⟨out', hret, hfilled⟩ := returns_foldlM
    (I := fun x => Grid.Filled raw.half (y * (raw.widthPx.toNat / 2 * 4) + x * 4))
    (fun x hx out hout => h.fill_pixel hy hx hout) (by rwa [Nat.zero_mul, Nat.add_zero])
  refine ⟨out', hret, ?_⟩
  rw [Nat.succ_mul]
  exact hfilled

theorem Sized.slice_row (h : raw.Sized) {row : Nat} (hrow : row < raw.heightPx.toNat) :
    ∃ bytes, (slice raw.pixels (row * raw.stride)
        (row * raw.stride + raw.widthPx.toNat * 4)).Returns () (.ok bytes) () ∧
      ∀ i < raw.widthPx.toNat * 4, bytes[i]? = some (raw.byte row i) := by
  refine ⟨_, slice_returns (Nat.le_add_right _ _) (h.end_of_row hrow), fun i hi => ?_⟩
  rw [getElem?_slice (by omega), h.byte hrow hi]

theorem Sized.downsample2x_returns (h : raw.Sized) :
    (downsample2x raw).Returns () (.ok (asI32 (raw.widthPx.toNat / 2),
      asI32 (raw.heightPx.toNat / 2), raw.widthPx.toNat / 2 * 4, raw.half)) () := by
  have hlength : raw.half.length = raw.heightPx.toNat / 2 * (raw.widthPx.toNat / 2 * 4) :=
    Grid.length_tabulate _ _ _
  have hblank : Grid.Filled raw.half (0 * (raw.widthPx.toNat / 2 * 4))
      (List.replicate (raw.widthPx.toNat / 2 * 4 * (raw.heightPx.toNat / 2)) 0) := by
    rw [Nat.zero_mul]
    apply Grid.filled_zero
    rw [List.length_replicate, hlength, Nat.mul_comm]
  obtain ⟨out, hret, hfilled⟩ := returns_foldlM (n := raw.heightPx.toNat / 2) (s := ())
    (I := fun y => Grid.Filled raw.half (y * (raw.widthPx.toNat / 2 * 4)))
    (f := fun out y => do
      let row₀ ← slice raw.pixels (y * 2 * raw.stride)
        (y * 2 * raw.stride + raw.widthPx.toNat * 4)
      let row₁ ← slice raw.pixels ((y * 2 + 1) * raw.stride)
        ((y * 2 + 1) * raw.stride + raw.widthPx.toNat * 4)
      (List.range (raw.widthPx.toNat / 2)).foldlM (fun out x =>
        (List.range 4).foldlM (fun out c => do
          let mean ← boxAverage row₀ row₁ (x * 2 * 4 + c)
          store out (y * (raw.widthPx.toNat / 2 * 4) + x * 4 + c) mean) out) out)
    (fun y hy out hout => by
      have hupper : y * 2 < raw.heightPx.toNat := by omega
      have hlower : y * 2 + 1 < raw.heightPx.toNat := by omega
      obtain ⟨row₀, hslice₀, hrow₀⟩ := h.slice_row hupper
      obtain ⟨row₁, hslice₁, hrow₁⟩ := h.slice_row hlower
      obtain ⟨out', hret, hfilled⟩ := Rows.fill_row ⟨hrow₀, hrow₁⟩ hy hout
      refine ⟨out', ?_, hfilled⟩
      exact returns_bind.mpr (.inr ⟨row₀, (), hslice₀,
        returns_bind.mpr (.inr ⟨row₁, (), hslice₁, hret⟩)⟩)) hblank
  rw [← hlength] at hfilled
  obtain rfl := hfilled.eq
  exact returns_bind.mpr (.inr ⟨_, (), hret, returns_pure.mpr ⟨rfl, rfl⟩⟩)

end Sized

end RawBgra

section Captured
variable {display : F32 → String} {raw : RawBgra} {frame : Frame}

def RawBgra.whole (raw : RawBgra) : Frame :=
  ⟨.bgra8, ⟨raw.logicalOriginX, raw.logicalOriginY, asI32 raw.widthPx.toNat,
    asI32 raw.heightPx.toNat⟩, raw.stride, raw.pixels, raw.capturedAtNs⟩

def RawBgra.thumbnail (raw : RawBgra) : Frame :=
  ⟨.bgra8, ⟨raw.logicalOriginX, raw.logicalOriginY, asI32 (raw.widthPx.toNat / 2),
    asI32 (raw.heightPx.toNat / 2)⟩, raw.widthPx.toNat / 2 * 4, raw.half, raw.capturedAtNs⟩

theorem Frame.new_returns {format : FrameFormat} {bounds : Rect} {stride : Nat}
    {pixels : List UInt8} {capturedAtNs : Nat} {r : Except CaptureError Frame}
    (h : (Frame.new format bounds stride pixels capturedAtNs).Returns () r ()) :
    r = .ok ⟨format, bounds, stride, pixels, capturedAtNs⟩ := by
  unfold Frame.new at h
  split_ifs at h
  · exact absurd h not_returns_crash
  · exact (returns_pure.mp h).1

theorem bgraToFrame_returns (h : (bgraToFrame display raw).Returns () (.ok frame) ()) :
    raw.Sized ∧ (raw.scale.near 1 = true ∧ frame = raw.whole ∨
      raw.scale.near 1 = false ∧ raw.scale.near 2 = true ∧ frame = raw.thumbnail) := by
  unfold bgraToFrame at h
  dsimp only at h
  split_ifs at h with hover hshort hstride hone htwo
  · exact nomatch (returns_fail.mp h).1
  · exact nomatch (returns_fail.mp h).1
  · rcases returns_bind.mp h with ⟨e, -, he⟩ | ⟨shown, _, -, hfail⟩
    · exact nomatch he
    · exact nomatch (returns_fail.mp hfail).1
  · have hsized : raw.Sized := ⟨by omega, by omega⟩
    rw [pure_bind'] at h
    exact ⟨hsized, .inl ⟨hone, Except.ok.inj (Frame.new_returns h)⟩⟩
  · have hsized : raw.Sized := ⟨by omega, by omega⟩
    rcases returns_bind.mp h with ⟨e, -, he⟩ | ⟨out, _, hout, hnew⟩
    · exact nomatch he
    obtain ⟨hsame, -⟩ := hout.unique hsized.downsample2x_returns
    obtain rfl := Except.ok.inj hsame
    have hframe := Except.ok.inj (Frame.new_returns hnew)
    exact ⟨hsized, .inr ⟨Bool.eq_false_iff.mpr hone, htwo, hframe⟩⟩
  · rcases returns_bind.mp h with ⟨e, -, he⟩ | ⟨out, _, hout, -⟩
    · exact nomatch he
    · exact nomatch (returns_fail.mp hout).1

theorem whole_backed (h : raw.Sized) (hw : raw.widthPx.toNat < 2147483648)
    (hh : raw.heightPx.toNat < 2147483648) : raw.whole.Backed := by
  obtain ⟨hrows, hstride⟩ := h
  constructor
  · show 4 * asI32 raw.widthPx.toNat ≤ raw.stride
    rw [asI32_of_lt hw]
    omega
  · show (raw.stride : Int) * asI32 raw.heightPx.toNat ≤ raw.pixels.length
    rw [asI32_of_lt hh]
    exact_mod_cast hrows

theorem thumbnail_backed (hw : raw.widthPx.toNat < 2147483648)
    (hh : raw.heightPx.toNat < 2147483648) : raw.thumbnail.Backed := by
  constructor
  · show 4 * asI32 (raw.widthPx.toNat / 2) ≤ (raw.widthPx.toNat / 2 * 4 : Nat)
    rw [asI32_of_lt (by omega)]
    omega
  · show ((raw.widthPx.toNat / 2 * 4 : Nat) : Int) * asI32 (raw.heightPx.toNat / 2) ≤
      raw.half.length
    rw [asI32_of_lt (by omega), RawBgra.half, Grid.length_tabulate, mul_comm]
    exact_mod_cast le_refl _

theorem Frame.Shows.bgra {x y : Nat} {c : Rgb} (hformat : frame.format = .bgra8)
    (h : frame.Shows (frame.bounds.x + x) (frame.bounds.y + y) c) :
    frame.pixels[y * frame.stride + x * 4 + 2]? = some c.r ∧
      frame.pixels[y * frame.stride + x * 4 + 1]? = some c.g ∧
        frame.pixels[y * frame.stride + x * 4]? = some c.b := by
  obtain ⟨-, -, hr, hg, hb⟩ := h
  have hoffset : frame.offset (frame.bounds.x + x) (frame.bounds.y + y) =
      y * frame.stride + x * 4 := by
    rw [Frame.offset, add_sub_cancel_left, add_sub_cancel_left, Int.toNat_natCast,
      Int.toNat_natCast]
  rw [hoffset, hformat] at hr hg hb
  exact ⟨hr, hg, hb⟩

structure Averages (c a₀₀ a₁₀ a₀₁ a₁₁ : Rgb) : Prop where
  red : c.r.toNat = (a₀₀.r.toNat + a₁₀.r.toNat + a₀₁.r.toNat + a₁₁.r.toNat) / 4
  green : c.g.toNat = (a₀₀.g.toNat + a₁₀.g.toNat + a₀₁.g.toNat + a₁₁.g.toNat) / 4
  blue : c.b.toNat = (a₀₀.b.toNat + a₁₀.b.toNat + a₀₁.b.toNat + a₁₁.b.toNat) / 4

theorem toNat_average (a b c d : UInt8) :
    (UInt8.ofNat ((a.toNat + b.toNat + c.toNat + d.toNat) / 4)).toNat =
      (a.toNat + b.toNat + c.toNat + d.toNat) / 4 := by
  have ha := a.toNat_lt
  have hb := b.toNat_lt
  have hc := c.toNat_lt
  have hd := d.toNat_lt
  apply UInt8.toNat_ofNat_of_lt
  show _ < 256
  omega

theorem RawBgra.Sized.shows (h : raw.Sized) {x y : Nat} (hx : x < raw.widthPx.toNat)
    (hy : y < raw.heightPx.toNat) :
    raw.Shows x y ⟨raw.byte y (x * 4 + 2), raw.byte y (x * 4 + 1), raw.byte y (x * 4)⟩ where
  across := hx
  along := hy
  red := by rw [Nat.add_assoc, h.byte hy (by omega)]
  green := by rw [Nat.add_assoc, h.byte hy (by omega)]
  blue := h.byte hy (by omega)

theorem halved_toNat (raw : RawBgra) (x y : Nat) {k : Nat} (hk : k < 4) :
    (raw.halved y (x * 4 + k)).toNat =
      ((raw.byte (2 * y) (2 * x * 4 + k)).toNat + (raw.byte (2 * y) ((2 * x + 1) * 4 + k)).toNat +
        (raw.byte (2 * y + 1) (2 * x * 4 + k)).toNat +
        (raw.byte (2 * y + 1) ((2 * x + 1) * 4 + k)).toNat) / 4 := by
  have hleft : (x * 4 + k) / 4 * 8 + (x * 4 + k) % 4 = 2 * x * 4 + k := by omega
  have hright : 2 * x * 4 + k + 4 = (2 * x + 1) * 4 + k := by omega
  rw [RawBgra.halved, toNat_average, hleft, hright, Nat.mul_comm y 2]

/-- A pixel of the halved image is the average of four. -/
theorem thumbnail_averages (h : raw.Sized) {x y : Nat} (hx : x < raw.widthPx.toNat / 2)
    (hy : y < raw.heightPx.toNat / 2) {c : Rgb}
    (hc : raw.thumbnail.Shows (raw.thumbnail.bounds.x + x) (raw.thumbnail.bounds.y + y) c) :
    ∃ a₀₀ a₁₀ a₀₁ a₁₁, raw.Shows (2 * x) (2 * y) a₀₀ ∧ raw.Shows (2 * x + 1) (2 * y) a₁₀ ∧
      raw.Shows (2 * x) (2 * y + 1) a₀₁ ∧ raw.Shows (2 * x + 1) (2 * y + 1) a₁₁ ∧
        Averages c a₀₀ a₁₀ a₀₁ a₁₁ := by
  obtain ⟨hr, hg, hb⟩ := hc.bgra rfl
  have hred := Option.some.inj (hr.symm.trans (RawBgra.half_byte hy hx (show 2 < 4 by decide)))
  have hgreen := Option.some.inj (hg.symm.trans (RawBgra.half_byte hy hx (show 1 < 4 by decide)))
  have hblue := Option.some.inj (hb.symm.trans (RawBgra.half_byte hy hx (show 0 < 4 by decide)))
  refine ⟨_, _, _, _, h.shows (show 2 * x < _ by omega) (show 2 * y < _ by omega),
    h.shows (show 2 * x + 1 < _ by omega) (show 2 * y < _ by omega),
    h.shows (show 2 * x < _ by omega) (show 2 * y + 1 < _ by omega),
    h.shows (show 2 * x + 1 < _ by omega) (show 2 * y + 1 < _ by omega), ?_, ?_, ?_⟩
  · rw [hred]
    exact halved_toNat raw x y (by decide)
  · rw [hgreen]
    exact halved_toNat raw x y (by decide)
  · rw [hblue]
    exact halved_toNat raw x y (by decide)

theorem F32.not_near_both {x : F32} (h : x.near 1 = true) : x.near 2 = false := by
  unfold F32.near at h ⊢
  cases hunits : x.units with
  | none => rfl
  | some u =>
    rw [hunits] at h
    have hone := of_decide_eq_true h
    apply decide_eq_false
    omega

/-- Perception reads what was captured: at the same resolution byte for byte, at twice the
resolution the averages of the squares of four pixels. -/
theorem captured_pixels_read (display : F32 → String) (raw : RawBgra) (frame : Frame)
    (hw : raw.widthPx.toNat < 2147483648) (hh : raw.heightPx.toNat < 2147483648)
    (hframe : (bgraToFrame display raw).Returns () (.ok frame) ()) :
    (4 * frame.bounds.w ≤ frame.stride ∧
      frame.stride * frame.bounds.h ≤ frame.pixels.length) ∧
    ∀ x y : Nat, (x : Int) < frame.bounds.w → (y : Int) < frame.bounds.h →
      ∃ c, (pixelRgb frame x y).Returns () (.ok c) () ∧
        (raw.scale.near 1 = true → raw.Shows x y c) ∧
        (raw.scale.near 2 = true → ∃ a₀₀ a₁₀ a₀₁ a₁₁, raw.Shows (2 * x) (2 * y) a₀₀ ∧
          raw.Shows (2 * x + 1) (2 * y) a₁₀ ∧ raw.Shows (2 * x) (2 * y + 1) a₀₁ ∧
          raw.Shows (2 * x + 1) (2 * y + 1) a₁₁ ∧ Averages c a₀₀ a₁₀ a₀₁ a₁₁) := by
  obtain ⟨hsized, ⟨hone, rfl⟩ | ⟨hone, htwo, rfl⟩⟩ := bgraToFrame_returns hframe
  -- at scale one the pixels are kept, and at two each stands for a square of four
  · have hbacked := whole_backed hsized hw hh
    refine ⟨⟨hbacked.stride, hbacked.length⟩, fun x y hx hy => ?_⟩
    obtain ⟨c, hc⟩ := hbacked.shows
      (show raw.whole.bounds.Contains (raw.whole.bounds.x + x) (raw.whole.bounds.y + y) by
        unfold Rect.Contains
        omega)
    refine ⟨c, pixelRgb_returns hc, fun _ => ?_, fun htwo => ?_⟩
    · obtain ⟨hr, hg, hb⟩ := hc.bgra rfl
      have hwidth : raw.whole.bounds.w = raw.widthPx.toNat := asI32_of_lt hw
      have hheight : raw.whole.bounds.h = raw.heightPx.toNat := asI32_of_lt hh
      exact ⟨by omega, by omega, hr, hg, hb⟩
    · exact absurd htwo (Bool.eq_false_iff.mp (F32.not_near_both hone))
  · have hbacked := thumbnail_backed hw hh
    refine ⟨⟨hbacked.stride, hbacked.length⟩, fun x y hx hy => ?_⟩
    obtain ⟨c, hc⟩ := hbacked.shows
      (show raw.thumbnail.bounds.Contains (raw.thumbnail.bounds.x + x)
          (raw.thumbnail.bounds.y + y) by
        unfold Rect.Contains
        omega)
    have hwidth : raw.thumbnail.bounds.w = (raw.widthPx.toNat / 2 : Nat) :=
      asI32_of_lt (by omega)
    have hheight : raw.thumbnail.bounds.h = (raw.heightPx.toNat / 2 : Nat) :=
      asI32_of_lt (by omega)
    refine ⟨c, pixelRgb_returns hc, fun honce => ?_, fun _ => ?_⟩
    · exact absurd honce (Bool.eq_false_iff.mp hone)
    · exact thumbnail_averages hsized (by omega) (by omega) hc

def retina : RawBgra where
  widthPx := 3
  heightPx := 2
  stride := 16
  pixels := [0, 10, 20, 255, 1, 11, 22, 255, 99, 99, 99, 255, 0, 0, 0, 0,
    2, 12, 24, 255, 4, 15, 29, 255, 99, 99, 99, 255, 0, 0, 0, 0]
  capturedAtNs := 1
  scale := .two
  logicalOriginX := -5
  logicalOriginY := 7

theorem retina_read :
    (4 * retina.thumbnail.bounds.w ≤ retina.thumbnail.stride ∧
      retina.thumbnail.stride * retina.thumbnail.bounds.h ≤ retina.thumbnail.pixels.length) ∧
    ∃ c, (pixelRgb retina.thumbnail (0 : Nat) (0 : Nat)).Returns () (.ok c) () ∧
      (retina.scale.near 1 = true → retina.Shows 0 0 c) ∧
      (retina.scale.near 2 = true → ∃ a₀₀ a₁₀ a₀₁ a₁₁, retina.Shows 0 0 a₀₀ ∧
        retina.Shows 1 0 a₁₀ ∧ retina.Shows 0 1 a₀₁ ∧ retina.Shows 1 1 a₁₁ ∧
        Averages c a₀₀ a₁₀ a₀₁ a₁₁) := by
  have hframe : (bgraToFrame (fun _ => "2") retina).Returns () (.ok retina.thumbnail) () := by
    show _ = _
    decide +kernel
  obtain ⟨hbacked, hread⟩ := captured_pixels_read (fun _ => "2") retina retina.thumbnail
    (by decide) (by decide) hframe
  exact ⟨hbacked, hread 0 0 (by decide +kernel) (by decide +kernel)⟩

end Captured

end Vcli

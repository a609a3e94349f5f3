import Vcli.Lib.Fallible
import Vcli.Runtime.Body

/-! Reading a frame and the evaluators that look at nothing but the frame and the assets. The
image libraries and Unicode normalization are parameters; arithmetic on `i32` is checked. -/

namespace Vcli

inductive Crash
  | stackOverflow
  | panic
deriving DecidableEq, Repr

abbrev Glance (α : Type) := Fallible Unit PerceptionError Crash α

structure RgbImage where
  width : Nat
  height : Nat
  pixels : List Rgb
deriving DecidableEq, Repr

structure GrayImage where
  width : Nat
  height : Nat
  pixels : List UInt8
deriving DecidableEq, Repr

/-- What perception takes from other crates: NFC, decoding to luma, the grey image of a crop,
the best response of the normalized cross-correlation with its place, and the 9 by 8
resampling of a grey image. -/
structure Libs where
  nfc : String → String
  loadLuma8 : List UInt8 → Except String GrayImage
  grayscale : RgbImage → GrayImage
  matchTemplate : GrayImage → GrayImage → F64 × Nat × Nat
  resize : GrayImage → GrayImage

def plainLibs : Libs :=
  ⟨id, fun _ => .error "no image", fun image => ⟨image.width, image.height, []⟩,
    fun _ _ => (⟨0#64⟩, 0, 0), fun gray => gray⟩

def checkedI32 (n : Int) : Glance Int :=
  if -2147483648 ≤ n ∧ n ≤ 2147483647 then pure n else Fallible.crash .panic

section FrameView

def pixelRgb (frame : Frame) (x y : Int) : Glance Rgb :=
  if x < 0 ∨ y < 0 ∨ frame.bounds.w ≤ x ∨ frame.bounds.h ≤ y then
    Fallible.fail .regionOutOfBounds
  else
    match frame.pixels.drop (y.toNat * frame.stride + x.toNat * 4) with
    | b₀ :: b₁ :: b₂ :: _ :: _ =>
      match frame.format with
      | .bgra8 => pure ⟨b₂, b₁, b₀⟩
      | .rgba8 => pure ⟨b₀, b₁, b₂⟩
    | _ => Fallible.crash .panic

def cropRgb (frame : Frame) (region : Rect) : Glance RgbImage := do
  let fb := frame.bounds
  let x₀ := max region.x fb.x
  let y₀ := max region.y fb.y
  let x₁ := min (← checkedI32 (region.x + region.w)) (← checkedI32 (fb.x + fb.w))
  let y₁ := min (← checkedI32 (region.y + region.h)) (← checkedI32 (fb.y + fb.h))
  if x₁ ≤ x₀ ∨ y₁ ≤ y₀ then Fallible.fail .regionOutOfBounds
  else
    let w ← checkedI32 (x₁ - x₀)
    let h ← checkedI32 (y₁ - y₀)
    let rows ← (List.range h.toNat).mapM fun row => (List.range w.toNat).mapM fun col => do
      let fx ← checkedI32 ((← checkedI32 (x₀ - fb.x)) + col)
      let fy ← checkedI32 ((← checkedI32 (y₀ - fb.y)) + row)
      pixelRgb frame fx fy
    return ⟨w.toNat, h.toNat, rows.flatten⟩

def frameToRgb (frame : Frame) : Glance RgbImage := do
  if frame.bounds.w < 0 ∨ frame.bounds.h < 0 then Fallible.crash .panic
  else
    let rows ← (List.range frame.bounds.h.toNat).mapM fun y =>
      (List.range frame.bounds.w.toNat).mapM fun x => pixelRgb frame x y
    return ⟨frame.bounds.w.toNat, frame.bounds.h.toNat, rows.flatten⟩

end FrameView

section ColorAt

/-- The squared distance cannot leave the range of `i32`; the squared tolerance can. -/
def sample (frame : Frame) (x y : Int) (target : Rgb) (tolerance : UInt16) : Glance Bool := do
  let c ← pixelRgb frame x y
  let dr : Int := c.r.toNat - target.r.toNat
  let dg : Int := c.g.toNat - target.g.toNat
  let db : Int := c.b.toNat - target.b.toNat
  let tolSq ← checkedI32 (tolerance.toNat * tolerance.toNat)
  return decide (dr * dr + dg * dg + db * db ≤ tolSq)

def evalColorAt (frame : Frame) (nowMs : UnixMs) (point : Point) (rgb : Rgb)
    (tolerance : UInt16) : Glance PredicateResult := do
  let fx ← checkedI32 (point.x - frame.bounds.x)
  let fy ← checkedI32 (point.y - frame.bounds.y)
  let truthy ← sample frame fx fy rgb tolerance
  return ⟨truthy, none, nowMs⟩

end ColorAt

section Template

def assetKey (imageRef : String) : String :=
  if "sha256:".toList.isPrefixOf imageRef.toList then
    String.ofList (imageRef.toList.drop 7)
  else imageRef

/-- The image to search and the screen position of its origin. Regions that are not absolute
are taken for the whole frame. -/
def haystack (frame : Frame) : Region → Glance (RgbImage × Int × Int)
  | .absolute rect => do
    let crop ← cropRgb frame rect
    return (crop, max rect.x frame.bounds.x, max rect.y frame.bounds.y)
  | _ => do
    let image ← frameToRgb frame
    return (image, frame.bounds.x, frame.bounds.y)

def matchImage (L : Libs) (frame : Frame) (nowMs : UnixMs) (bytes : List UInt8)
    (confidence : F64) (region : Region) : Glance PredicateResult :=
  match L.loadLuma8 bytes with
  | .error e => Fallible.fail (.assetDecode e)
  | .ok template => do
    let hay ← haystack frame region
    let gray := L.grayscale hay.1
    if gray.width < template.width ∨ gray.height < template.height then
      return ⟨false, none, nowMs⟩
    else
      let best := L.matchTemplate gray template
      if best.1.lt confidence then return ⟨false, none, nowMs⟩
      else
        let x ← checkedI32 (hay.2.1 + best.2.1)
        let y ← checkedI32 (hay.2.2 + best.2.2)
        return ⟨true, some ⟨⟨x, y, template.width, template.height⟩, best.1⟩, nowMs⟩

def evalTemplate (L : Libs) (frame : Frame) (nowMs : UnixMs) (assets : Assets) (image : String)
    (confidence : F64) (region : Region) : Glance PredicateResult :=
  match assets[assetKey image]? with
  | none => Fallible.fail (.assetNotMaterialized image)
  | some bytes => matchImage L frame nowMs bytes confidence region

end Template

section PixelDiff

def dhash (L : Libs) (gray : GrayImage) : BitVec 64 :=
  let small := L.resize gray
  let at_ (x y : Nat) : UInt8 := small.pixels.getD (y * 9 + x) 0
  (List.range 64).foldl (fun h i =>
    h <<< 1 ||| if at_ (i % 8 + 1) (i / 8) < at_ (i % 8) (i / 8) then 1#64 else 0#64) 0#64

def hamming (a b : BitVec 64) : Nat :=
  ((List.range 64).filter fun i => (a ^^^ b).getLsbD i).length

/-- The binary64 value of `n / 64`, exact for the counts a digest of 64 bits can give. -/
def F64.sixtyFourths (n : Nat) : F64 :=
  if n = 0 then ⟨0#64⟩
  else
    let e := Nat.log2 n
    ⟨BitVec.ofNat 64 ((e + 1017) * 2 ^ 52 + (n - 2 ^ e) * 2 ^ (52 - e))⟩

def F64.ge (x y : F64) : Bool := !x.isNan && !y.isNan && decide (y.rank ≤ x.rank)

end PixelDiff

end Vcli

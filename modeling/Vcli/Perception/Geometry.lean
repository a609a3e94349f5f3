import Mathlib.Algebra.Order.Ring.Int
import Vcli.Dsl.Accepted
import Vcli.Lib.Grid
import Vcli.Perception.Looks

/-! Where evaluations look. Rectangles are the sets of their pixels; crops and samples are
compared with what the frame shows at those places of the screen. -/

namespace Vcli

open Fallible

def Rect.Contains (r : Rect) (x y : Int) : Prop :=
  r.x ≤ x ∧ x < r.x + r.w ∧ r.y ≤ y ∧ y < r.y + r.h

instance (r : Rect) (x y : Int) : Decidable (r.Contains x y) := by
  unfold Rect.Contains
  infer_instance

def FrameFormat.channels : FrameFormat → Nat × Nat × Nat
  | .bgra8 => (2, 1, 0)
  | .rgba8 => (0, 1, 2)

section Shows
variable {frame : Frame} {x y : Int} {c c' : Rgb}

def Frame.offset (frame : Frame) (x y : Int) : Nat :=
  (y - frame.bounds.y).toNat * frame.stride + (x - frame.bounds.x).toNat * 4

/-- The frame has a pixel at this place of the screen, and `c` is its colour. -/
structure Frame.Shows (frame : Frame) (x y : Int) (c : Rgb) : Prop where
  inside : frame.bounds.Contains x y
  whole : frame.offset x y + 4 ≤ frame.pixels.length
  red : frame.pixels[frame.offset x y + frame.format.channels.1]? = some c.r
  green : frame.pixels[frame.offset x y + frame.format.channels.2.1]? = some c.g
  blue : frame.pixels[frame.offset x y + frame.format.channels.2.2]? = some c.b

theorem Frame.Shows.unique (h : frame.Shows x y c) (h' : frame.Shows x y c') : c = c' := by
  have hr := Option.some.inj (h.red.symm.trans h'.red)
  have hg := Option.some.inj (h.green.symm.trans h'.green)
  have hb := Option.some.inj (h.blue.symm.trans h'.blue)
  cases c
  cases c'
  rw [Rgb.mk.injEq]
  exact ⟨hr, hg, hb⟩

theorem exists_four {l : List UInt8} {i : Nat} (h : i + 4 ≤ l.length) :
    ∃ b₀ b₁ b₂ b₃ rest, l.drop i = b₀ :: b₁ :: b₂ :: b₃ :: rest ∧
      l[i]? = some b₀ ∧ l[i + 1]? = some b₁ ∧ l[i + 2]? = some b₂ := by
  have hlength : 4 ≤ (l.drop i).length := by
    rw [List.length_drop]
    omega
  have hget : ∀ k, l[i + k]? = (l.drop i)[k]? := fun k => List.getElem?_drop.symm
  match hdrop : l.drop i with
  | b₀ :: b₁ :: b₂ :: b₃ :: rest =>
    rw [hdrop] at hget
    exact ⟨b₀, b₁, b₂, b₃, rest, rfl, hget 0, hget 1, hget 2⟩
  | [] | [_] | [_, _] | [_, _, _] =>
    rw [hdrop] at hlength
    simp at hlength

theorem pixelRgb_returns {fx fy : Int}
    (h : frame.Shows (frame.bounds.x + fx) (frame.bounds.y + fy) c) :
    (pixelRgb frame fx fy).Returns () (.ok c) () := by
  obtain ⟨⟨hleft, hright, htop, hbottom⟩, hwhole, hr, hg, hb⟩ := h
  have hin : ¬ (fx < 0 ∨ fy < 0 ∨ frame.bounds.w ≤ fx ∨ frame.bounds.h ≤ fy) := by omega
  have hoffset : frame.offset (frame.bounds.x + fx) (frame.bounds.y + fy) =
      fy.toNat * frame.stride + fx.toNat * 4 := by
    rw [Frame.offset, add_sub_cancel_left, add_sub_cancel_left]
  rw [hoffset] at hwhole hr hg hb
  obtain ⟨b₀, b₁, b₂, b₃, rest, hdrop, h₀, h₁, h₂⟩ := exists_four hwhole
  rw [pixelRgb, if_neg hin, hdrop]
  cases hformat : frame.format with
  | bgra8 =>
    rw [hformat] at hr hg hb
    have hc : c = ⟨b₂, b₁, b₀⟩ := by
      rw [← Option.some.inj (hr.symm.trans h₂), ← Option.some.inj (hg.symm.trans h₁),
        ← Option.some.inj (hb.symm.trans h₀)]
    exact returns_pure.mpr ⟨congrArg Except.ok hc, rfl⟩
  | rgba8 =>
    rw [hformat] at hr hg hb
    have hc : c = ⟨b₀, b₁, b₂⟩ := by
      rw [← Option.some.inj (hr.symm.trans h₀), ← Option.some.inj (hg.symm.trans h₁),
        ← Option.some.inj (hb.symm.trans h₂)]
    exact returns_pure.mpr ⟨congrArg Except.ok hc, rfl⟩

theorem pixelRgb_outside {fx fy : Int}
    (h : ¬ frame.bounds.Contains (frame.bounds.x + fx) (frame.bounds.y + fy)) :
    (pixelRgb frame fx fy).Returns () (.error .regionOutOfBounds) () := by
  unfold Rect.Contains at h
  rw [pixelRgb, if_pos (by omega)]
  exact returns_fail.mpr ⟨rfl, rfl⟩

theorem shows_of_whole (hin : frame.bounds.Contains x y)
    (hwhole : frame.offset x y + 4 ≤ frame.pixels.length) : ∃ c, frame.Shows x y c := by
  obtain ⟨b₀, b₁, b₂, -, -, -, h₀, h₁, h₂⟩ := exists_four hwhole
  cases hformat : frame.format with
  | bgra8 => exact ⟨⟨b₂, b₁, b₀⟩, hin, hwhole, by rw [hformat]; exact h₂,
      by rw [hformat]; exact h₁, by rw [hformat]; exact h₀⟩
  | rgba8 => exact ⟨⟨b₀, b₁, b₂⟩, hin, hwhole, by rw [hformat]; exact h₀,
      by rw [hformat]; exact h₁, by rw [hformat]; exact h₂⟩

/-- Without a pixel there the read goes past the end of the buffer. -/
theorem pixelRgb_crashes {fx fy : Int}
    (hin : frame.bounds.Contains (frame.bounds.x + fx) (frame.bounds.y + fy))
    (hnone : ¬ ∃ c, frame.Shows (frame.bounds.x + fx) (frame.bounds.y + fy) c) :
    pixelRgb frame fx fy () = .error .panic := by
  have hshort : ¬ frame.offset (frame.bounds.x + fx) (frame.bounds.y + fy) + 4 ≤
      frame.pixels.length := fun hwhole => hnone (shows_of_whole hin hwhole)
  rw [Frame.offset, add_sub_cancel_left, add_sub_cancel_left] at hshort
  obtain ⟨hleft, hright, htop, hbottom⟩ := hin
  rw [pixelRgb, if_neg (by omega)]
  rcases hdrop : frame.pixels.drop (fy.toNat * frame.stride + fx.toNat * 4) with
    _ | ⟨b₀, _ | ⟨b₁, _ | ⟨b₂, _ | ⟨b₃, rest⟩⟩⟩⟩
  · rfl
  · rfl
  · rfl
  · rfl
  · have hlength := congrArg List.length hdrop
    simp only [List.length_drop, List.length_cons] at hlength
    omega

end Shows

structure Frame.Backed (frame : Frame) : Prop where
  stride : 4 * frame.bounds.w ≤ frame.stride
  length : frame.stride * frame.bounds.h ≤ frame.pixels.length

theorem Frame.Backed.shows {frame : Frame} (h : frame.Backed) {x y : Int}
    (hin : frame.bounds.Contains x y) : ∃ c, frame.Shows x y c := by
  refine shows_of_whole hin ?_
  obtain ⟨hleft, hright, htop, hbottom⟩ := hin
  have hrow : (x - frame.bounds.x).toNat * 4 + 4 ≤ frame.stride := by
    have := h.stride
    omega
  have hrows : ((y - frame.bounds.y).toNat + 1) * frame.stride ≤ frame.pixels.length := by
    have hheight : ((y - frame.bounds.y).toNat : Int) + 1 ≤ frame.bounds.h := by omega
    have hmul := mul_le_mul_of_nonneg_left hheight (Int.natCast_nonneg frame.stride)
    have hlength := h.length
    rw [mul_comm] at hmul
    exact_mod_cast hmul.trans hlength
  calc frame.offset x y + 4
      = (y - frame.bounds.y).toNat * frame.stride + ((x - frame.bounds.x).toNat * 4 + 4) := by
        rw [Frame.offset, Nat.add_assoc]
    _ ≤ (y - frame.bounds.y).toNat * frame.stride + frame.stride := Nat.add_le_add_left hrow _
    _ = ((y - frame.bounds.y).toNat + 1) * frame.stride := (Nat.succ_mul _ _).symm
    _ ≤ frame.pixels.length := hrows

section Checked
variable {α : Type} {n : Int}

theorem checkedI32_bind (h : FitsI32 n) (f : Int → Glance α) : checkedI32 n >>= f = f n := by
  rw [checkedI32, if_pos (show -2147483648 ≤ n ∧ n ≤ 2147483647 from h), pure_bind']

theorem checkedI32_overflow (h : ¬ FitsI32 n) (f : Int → Glance α) :
    (checkedI32 n >>= f) () = .error .panic := by
  apply bind_crashes
  rw [checkedI32, if_neg (show ¬ (-2147483648 ≤ n ∧ n ≤ 2147483647) from h)]
  rfl

end Checked

section Crop
variable {frame : Frame} {rect : Rect}

structure Rect.EdgesFit (r : Rect) : Prop where
  right : FitsI32 (r.x + r.w)
  bottom : FitsI32 (r.y + r.h)

/-- The corners of what `rect` and the frame have in common. -/
def Frame.left (frame : Frame) (rect : Rect) : Int := max rect.x frame.bounds.x

def Frame.top (frame : Frame) (rect : Rect) : Int := max rect.y frame.bounds.y

def Frame.right (frame : Frame) (rect : Rect) : Int :=
  min (rect.x + rect.w) (frame.bounds.x + frame.bounds.w)

def Frame.bottom (frame : Frame) (rect : Rect) : Int :=
  min (rect.y + rect.h) (frame.bounds.y + frame.bounds.h)

theorem contains_both {x y : Int} : rect.Contains x y ∧ frame.bounds.Contains x y ↔
    (frame.left rect ≤ x ∧ x < frame.right rect) ∧
      frame.top rect ≤ y ∧ y < frame.bottom rect := by
  simp only [Rect.Contains, Frame.left, Frame.right, Frame.top, Frame.bottom, max_le_iff,
    lt_min_iff]
  tauto

def Frame.Apart (frame : Frame) (rect : Rect) : Prop :=
  ∀ x y, ¬ (rect.Contains x y ∧ frame.bounds.Contains x y)

theorem apart_iff : frame.Apart rect ↔
    frame.right rect ≤ frame.left rect ∨ frame.bottom rect ≤ frame.top rect := by
  simp only [Frame.Apart, contains_both]
  constructor
  · intro h
    have hcorner := h (frame.left rect) (frame.top rect)
    omega
  · rintro h x y ⟨hx, hy⟩
    omega

def RgbImage.pixel? (image : RgbImage) (col row : Nat) : Option Rgb :=
  image.pixels[row * image.width + col]?

/-- The image shows the pixels that `rect` and the frame have in common, each in its place. -/
structure Frame.Crops (frame : Frame) (rect : Rect) (image : RgbImage) : Prop where
  covers : ∀ x y, rect.Contains x y ∧ frame.bounds.Contains x y ↔
    (Rect.mk (frame.left rect) (frame.top rect) image.width image.height).Contains x y
  length : image.pixels.length = image.height * image.width
  shows : ∀ col row : Nat, col < image.width → row < image.height →
    ∃ c, image.pixel? col row = some c ∧
      frame.Shows (frame.left rect + col) (frame.top rect + row) c

def Frame.readRows (frame : Frame) (rect : Rect) (w h : Nat) : Glance (List (List Rgb)) :=
  ((List.range h).map Nat.cast).mapM fun row : Int =>
    ((List.range w).map Nat.cast).mapM fun col : Int => do
      let fx ← checkedI32 ((← checkedI32 (frame.left rect - frame.bounds.x)) + col)
      let fy ← checkedI32 ((← checkedI32 (frame.top rect - frame.bounds.y)) + row)
      pixelRgb frame fx fy

theorem cropRgb_eq (hrect : rect.EdgesFit) (hframe : frame.bounds.EdgesFit) :
    cropRgb frame rect =
      if frame.right rect ≤ frame.left rect ∨ frame.bottom rect ≤ frame.top rect then
        fail .regionOutOfBounds
      else do
        let w ← checkedI32 (frame.right rect - frame.left rect)
        let h ← checkedI32 (frame.bottom rect - frame.top rect)
        let rows ← frame.readRows rect w.toNat h.toNat
        return ⟨w.toNat, h.toNat, rows.flatten⟩ := by
  have hcast : ∀ n : Nat, (do let a ← List.range n; pure (a : Int)) =
      (List.range n).map Nat.cast := by
    intro n
    rw [List.map_eq_flatMap]
    rfl
  rw [cropRgb, checkedI32_bind hrect.right, checkedI32_bind hframe.right,
    checkedI32_bind hrect.bottom, checkedI32_bind hframe.bottom]
  simp only [hcast]
  rfl

theorem cropRgb_apart (hrect : rect.EdgesFit) (hframe : frame.bounds.EdgesFit)
    (h : frame.Apart rect) :
    (cropRgb frame rect).Returns () (.error .regionOutOfBounds) () := by
  rw [cropRgb_eq hrect hframe, if_pos (apart_iff.mp h)]
  exact returns_fail.mpr ⟨rfl, rfl⟩

theorem cropRgb_overflow (h : ¬ (rect.EdgesFit ∧ frame.bounds.EdgesFit)) :
    cropRgb frame rect () = .error .panic := by
  unfold cropRgb
  by_cases hright : FitsI32 (rect.x + rect.w)
  · by_cases hright' : FitsI32 (frame.bounds.x + frame.bounds.w)
    · by_cases hbottom : FitsI32 (rect.y + rect.h)
      · have hbottom' : ¬ FitsI32 (frame.bounds.y + frame.bounds.h) :=
          fun hfits => h ⟨⟨hright, hbottom⟩, hright', hfits⟩
        rw [checkedI32_bind hright, checkedI32_bind hright', checkedI32_bind hbottom]
        exact checkedI32_overflow hbottom' _
      · rw [checkedI32_bind hright, checkedI32_bind hright']
        exact checkedI32_overflow hbottom _
    · rw [checkedI32_bind hright]
      exact checkedI32_overflow hright' _
  · exact checkedI32_overflow hright _

theorem left_ge (frame : Frame) (rect : Rect) : frame.bounds.x ≤ frame.left rect := le_max_right _ _

theorem top_ge (frame : Frame) (rect : Rect) : frame.bounds.y ≤ frame.top rect := le_max_right _ _

theorem right_le (frame : Frame) (rect : Rect) :
    frame.right rect ≤ frame.bounds.x + frame.bounds.w := min_le_right _ _

theorem bottom_le (frame : Frame) (rect : Rect) :
    frame.bottom rect ≤ frame.bounds.y + frame.bounds.h := min_le_right _ _

theorem readRows_returns {w h : Nat} {cell : Nat → Nat → Rgb} (hw : FitsI32 frame.bounds.w)
    (hh : FitsI32 frame.bounds.h) (hright : frame.left rect + w ≤ frame.right rect)
    (hbottom : frame.top rect + h ≤ frame.bottom rect)
    (hcell : ∀ row < h, ∀ col < w,
      frame.Shows (frame.left rect + col) (frame.top rect + row) (cell row col)) :
    (frame.readRows rect w h).Returns ()
      (.ok ((List.range h).map fun row => (List.range w).map (cell row))) () := by
  have hleft := left_ge frame rect
  have htop := top_ge frame rect
  have hright' := right_le frame rect
  have hbottom' := bottom_le frame rect
  unfold FitsI32 at hw hh
  -- row by row and column by column, with the bounds of the crop against every overflow
  have hrows := returns_mapM (s := ()) (l := (List.range h).map (Nat.cast : Nat → Int))
    (f := fun row : Int => ((List.range w).map Nat.cast).mapM fun col : Int => do
      let fx ← checkedI32 ((← checkedI32 (frame.left rect - frame.bounds.x)) + col)
      let fy ← checkedI32 ((← checkedI32 (frame.top rect - frame.bounds.y)) + row)
      pixelRgb frame fx fy)
    (g := fun row => (List.range w).map (cell row.toNat)) ?_
  · rw [List.map_map] at hrows
    exact hrows
  · intro row' hmem
    obtain ⟨row, hrange, rfl⟩ := List.mem_map.mp hmem
    have hrow := List.mem_range.mp hrange
    have hcols := returns_mapM (s := ()) (l := (List.range w).map (Nat.cast : Nat → Int))
      (f := fun col : Int => do
        let fx ← checkedI32 ((← checkedI32 (frame.left rect - frame.bounds.x)) + col)
        let fy ← checkedI32 ((← checkedI32 (frame.top rect - frame.bounds.y)) + row)
        pixelRgb frame fx fy)
      (g := fun col => cell row col.toNat) ?_
    · rw [List.map_map] at hcols
      exact hcols
    · intro col' hmem'
      obtain ⟨col, hrange', rfl⟩ := List.mem_map.mp hmem'
      have hcol := List.mem_range.mp hrange'
      rw [checkedI32_bind (by unfold FitsI32; omega), checkedI32_bind (by unfold FitsI32; omega),
        checkedI32_bind (by unfold FitsI32; omega), checkedI32_bind (by unfold FitsI32; omega)]
      apply pixelRgb_returns
      have hshows := hcell row hrow col hcol
      have hx : frame.bounds.x + (frame.left rect - frame.bounds.x + col) =
          frame.left rect + col := by omega
      have hy : frame.bounds.y + (frame.top rect - frame.bounds.y + row) =
          frame.top rect + row := by omega
      rw [hx, hy]
      exact hshows

theorem cropRgb_crops (hrect : rect.EdgesFit) (hframe : frame.bounds.EdgesFit)
    (hw : FitsI32 frame.bounds.w) (hh : FitsI32 frame.bounds.h) (hbacked : frame.Backed)
    (h : ¬ frame.Apart rect) :
    ∃ image, (cropRgb frame rect).Returns () (.ok image) () ∧ frame.Crops rect image := by
  have hmeet : ¬ (frame.right rect ≤ frame.left rect ∨ frame.bottom rect ≤ frame.top rect) :=
    fun hle => h (apart_iff.mpr hle)
  have hleft := left_ge frame rect
  have htop := top_ge frame rect
  have hright := right_le frame rect
  have hbottom := bottom_le frame rect
  -- outside the crop any colour will do, for no place of the image is read from there
  have hexists : ∀ row col : Nat, ∃ c, (col : Int) < frame.right rect - frame.left rect →
      (row : Int) < frame.bottom rect - frame.top rect →
        frame.Shows (frame.left rect + col) (frame.top rect + row) c := by
    intro row col
    by_cases hin : frame.bounds.Contains (frame.left rect + col) (frame.top rect + row)
    · obtain ⟨c, hc⟩ := hbacked.shows hin
      exact ⟨c, fun _ _ => hc⟩
    · refine ⟨⟨0, 0, 0⟩, fun hcol hrow => absurd ?_ hin⟩
      have hboth : rect.Contains (frame.left rect + col) (frame.top rect + row) ∧
          frame.bounds.Contains (frame.left rect + col) (frame.top rect + row) :=
        contains_both.mpr (by omega)
      exact hboth.2
  choose cell hcell using hexists
  refine ⟨⟨(frame.right rect - frame.left rect).toNat, (frame.bottom rect - frame.top rect).toNat,
    Grid.tabulate (frame.bottom rect - frame.top rect).toNat
      (frame.right rect - frame.left rect).toNat cell⟩, ?_, ?_, ?_, ?_⟩
  · have hrows := readRows_returns (w := (frame.right rect - frame.left rect).toNat)
      (h := (frame.bottom rect - frame.top rect).toNat) hw hh (by omega) (by omega)
      fun row hrow col hcol => hcell row col (by omega) (by omega)
    unfold FitsI32 at hw hh
    rw [cropRgb_eq hrect hframe, if_neg hmeet, checkedI32_bind (by unfold FitsI32; omega),
      checkedI32_bind (by unfold FitsI32; omega), ← Grid.flatten_map_map]
    exact returns_bind.mpr (.inr ⟨_, (), hrows, returns_pure.mpr ⟨rfl, rfl⟩⟩)
  · intro x y
    rw [contains_both]
    simp only [Rect.Contains]
    omega
  · exact Grid.length_tabulate _ _ _
  · intro col row hcol hrow
    refine ⟨cell row col, Grid.getElem?_tabulate hrow hcol, hcell row col ?_ ?_⟩
    · simp only at hcol
      omega
    · simp only at hrow
      omega

/-- The crop reports that there is nothing to see exactly when that is so, and otherwise is what
there is to see. -/
structure Frame.CropsExactly (frame : Frame) (rect : Rect) : Prop where
  outside : (cropRgb frame rect).Returns () (.error .regionOutOfBounds) () ↔ frame.Apart rect
  inside : ¬ frame.Apart rect →
    ∃ image, (cropRgb frame rect).Returns () (.ok image) () ∧ frame.Crops rect image

/-- Crops are exact as long as the edges can be computed. -/
theorem cropsExactly_iff (frame : Frame) (rect : Rect) (hbacked : frame.Backed)
    (hw : FitsI32 frame.bounds.w) (hh : FitsI32 frame.bounds.h) :
    frame.CropsExactly rect ↔ rect.EdgesFit ∧ frame.bounds.EdgesFit := by
  constructor
  · intro h
    by_contra hnot
    have hcrash := cropRgb_overflow hnot
    by_cases hapart : frame.Apart rect
    · exact not_returns_of_crash hcrash _ (h.outside.mpr hapart)
    · obtain ⟨image, himage, -⟩ := h.inside hapart
      exact not_returns_of_crash hcrash _ himage
  · rintro ⟨hrect, hframe⟩
    refine ⟨⟨?_, cropRgb_apart hrect hframe⟩, cropRgb_crops hrect hframe hw hh hbacked⟩
    intro hout
    by_contra hmeet
    obtain ⟨image, himage, -⟩ := cropRgb_crops hrect hframe hw hh hbacked hmeet
    exact nomatch (hout.unique himage).1

theorem dot_backed : Frame.dot.Backed := ⟨by decide, by decide⟩

theorem cropsExactly_dot :
    Frame.dot.CropsExactly ⟨-5, 0, 9, 1⟩ ↔
      (Rect.mk (-5) 0 9 1).EdgesFit ∧ Frame.dot.bounds.EdgesFit :=
  cropsExactly_iff Frame.dot ⟨-5, 0, 9, 1⟩ dot_backed ⟨by decide, by decide⟩
    ⟨by decide, by decide⟩

/-- A region at the right end of the coordinates is accepted, and stops the scheduler. -/
theorem crop_overflows :
    Dsl.Accepted Dsl.plainCrates (Dsl.watching
        (.template "a" ⟨0x3fe0000000000000#64⟩ (.absolute ⟨2147483647, 0, 1, 1⟩) 0)) ∧
      (Frame.dot.Backed ∧ Frame.dot.bounds.Fits ∧ Frame.dot.bounds.EdgesFit) ∧
      cropRgb Frame.dot ⟨2147483647, 0, 1, 1⟩ () = .error .panic ∧
      ¬ Frame.dot.CropsExactly ⟨2147483647, 0, 1, 1⟩ := by
  have hedge : ¬ FitsI32 (2147483647 + 1) := by
    unfold FitsI32
    decide
  refine ⟨Dsl.watching_accepted ⟨trivial, by decide, ?_⟩ (by decide +kernel),
    ⟨dot_backed, ?_, ?_⟩, cropRgb_overflow fun h => hedge h.1.right, ?_⟩
  · refine ⟨?_, ?_, ?_, ?_⟩ <;> exact ⟨by decide, by decide⟩
  · refine ⟨?_, ?_, ?_, ?_⟩ <;> exact ⟨by decide, by decide⟩
  · constructor <;> exact ⟨by decide, by decide⟩
  · intro h
    have hcrash : cropRgb Frame.dot ⟨2147483647, 0, 1, 1⟩ () = .error .panic :=
      cropRgb_overflow fun h => hedge h.1.right
    apply not_returns_of_crash hcrash (.error .regionOutOfBounds)
    apply h.outside.mpr
    intro x y hxy
    simp only [Rect.Contains, Frame.dot] at hxy
    omega

end Crop

section Colour
variable {frame : Frame} {nowMs : UnixMs} {point : Point} {rgb c : Rgb} {tolerance : UInt16}

def Rgb.distSq (a b : Rgb) : Int :=
  ((a.r.toNat : Int) - b.r.toNat) * (a.r.toNat - b.r.toNat) +
    ((a.g.toNat : Int) - b.g.toNat) * (a.g.toNat - b.g.toNat) +
      ((a.b.toNat : Int) - b.b.toNat) * (a.b.toNat - b.b.toNat)

structure Samples (frame : Frame) (point : Point) (tolerance : UInt16) : Prop where
  across : FitsI32 (point.x - frame.bounds.x)
  along : FitsI32 (point.y - frame.bounds.y)
  inside : frame.bounds.Contains point.x point.y →
    tolerance.toNat ≤ 46340 ∧ ∃ c, frame.Shows point.x point.y c

theorem fitsI32_square {n : Nat} : FitsI32 (n * n) ↔ n ≤ 46340 := by
  constructor
  · rintro ⟨-, hle⟩
    by_contra hgt
    have hsq : 46341 * 46341 ≤ n * n := Nat.mul_self_le_mul_self (by omega)
    have hcast : ((n * n : Nat) : Int) ≤ 2147483647 := by exact_mod_cast hle
    omega
  · intro hle
    have hsq : n * n ≤ 46340 * 46340 := Nat.mul_self_le_mul_self hle
    have hcast : ((n * n : Nat) : Int) ≤ 46340 * 46340 := by exact_mod_cast hsq
    have hnonneg : (0 : Int) ≤ n * n := Int.mul_nonneg (Int.natCast_nonneg n) (Int.natCast_nonneg n)
    rw [Int.natCast_mul] at hcast
    exact ⟨by omega, by omega⟩

theorem local_x : frame.bounds.x + (point.x - frame.bounds.x) = point.x := by omega

theorem local_y : frame.bounds.y + (point.y - frame.bounds.y) = point.y := by omega

theorem pixelRgb_at (h : frame.Shows point.x point.y c) :
    (pixelRgb frame (point.x - frame.bounds.x) (point.y - frame.bounds.y)).Returns ()
      (.ok c) () := by
  apply pixelRgb_returns
  rwa [local_x, local_y]

theorem evalColorAt_outside (hx : FitsI32 (point.x - frame.bounds.x))
    (hy : FitsI32 (point.y - frame.bounds.y)) (h : ¬ frame.bounds.Contains point.x point.y) :
    (evalColorAt frame nowMs point rgb tolerance).Returns () (.error .regionOutOfBounds) () := by
  have hpixel : (pixelRgb frame (point.x - frame.bounds.x) (point.y - frame.bounds.y)).Returns ()
      (.error .regionOutOfBounds) () := pixelRgb_outside (by rwa [local_x, local_y])
  rw [evalColorAt, checkedI32_bind hx, checkedI32_bind hy]
  exact returns_bind.mpr (.inl ⟨_, returns_bind.mpr (.inl ⟨_, hpixel, rfl⟩), rfl⟩)

theorem evalColorAt_inside (hx : FitsI32 (point.x - frame.bounds.x))
    (hy : FitsI32 (point.y - frame.bounds.y)) (ht : tolerance.toNat ≤ 46340)
    (h : frame.Shows point.x point.y c) :
    (evalColorAt frame nowMs point rgb tolerance).Returns ()
      (.ok ⟨decide (c.distSq rgb ≤ tolerance.toNat * tolerance.toNat), none, nowMs⟩) () := by
  have hpixel := pixelRgb_at h
  have hsample : (sample frame (point.x - frame.bounds.x) (point.y - frame.bounds.y) rgb
      tolerance).Returns () (.ok (decide (c.distSq rgb ≤ tolerance.toNat * tolerance.toNat))) () := by
    refine returns_bind.mpr (.inr ⟨c, (), hpixel, ?_⟩)
    rw [checkedI32_bind (fitsI32_square.mpr ht)]
    exact returns_pure.mpr ⟨rfl, rfl⟩
  rw [evalColorAt, checkedI32_bind hx, checkedI32_bind hy]
  exact returns_bind.mpr (.inr ⟨_, (), hsample, returns_pure.mpr ⟨rfl, rfl⟩⟩)

theorem evalColorAt_crashes (h : ¬ Samples frame point tolerance) :
    evalColorAt frame nowMs point rgb tolerance () = .error .panic := by
  by_cases hx : FitsI32 (point.x - frame.bounds.x)
  swap
  · exact checkedI32_overflow hx _
  by_cases hy : FitsI32 (point.y - frame.bounds.y)
  swap
  · rw [evalColorAt, checkedI32_bind hx]
    exact checkedI32_overflow hy _
  have hin : frame.bounds.Contains point.x point.y := by
    by_contra hout
    exact h ⟨hx, hy, fun hin => absurd hin hout⟩
  rw [evalColorAt, checkedI32_bind hx, checkedI32_bind hy]
  apply bind_crashes
  by_cases hshows : ∃ c, frame.Shows point.x point.y c
  · obtain ⟨c, hc⟩ := hshows
    have ht : ¬ tolerance.toNat ≤ 46340 := fun ht => h ⟨hx, hy, fun _ => ⟨ht, c, hc⟩⟩
    have hpixel := pixelRgb_at hc
    rw [sample, bind_apply_eq, show pixelRgb frame _ _ () = .ok (.ok c, ()) from hpixel]
    exact checkedI32_overflow (fun hfits => ht (fitsI32_square.mp hfits)) _
  · apply bind_crashes
    apply pixelRgb_crashes
    · rwa [local_x, local_y]
    · rwa [local_x, local_y]

theorem distSq_le (a b : Rgb) : a.distSq b ≤ 195075 := by
  have hsq : ∀ u v : UInt8, ((u.toNat : Int) - v.toNat) * (u.toNat - v.toNat) ≤ 65025 := by
    intro u v
    have hu := u.toNat_lt
    have hv := v.toNat_lt
    have habs : ((u.toNat : Int) - v.toNat).natAbs ≤ 255 := by omega
    have hmul := Nat.mul_self_le_mul_self habs
    rw [← Int.natAbs_mul_self' ((u.toNat : Int) - v.toNat)]
    exact_mod_cast hmul
  have hr := hsq a.r b.r
  have hg := hsq a.g b.g
  have hb := hsq a.b b.b
  unfold Rgb.distSq
  omega

def ColorHolds (frame : Frame) (nowMs : UnixMs) (point : Point) (rgb : Rgb)
    (tolerance : UInt16) : Prop :=
  ∃ r, (evalColorAt frame nowMs point rgb tolerance).Returns () (.ok r) () ∧ r.truthy = true

structure ColorExact (frame : Frame) (nowMs : UnixMs) (point : Point) (rgb : Rgb)
    (tolerance : UInt16) : Prop where
  outside : (evalColorAt frame nowMs point rgb tolerance).Returns ()
    (.error .regionOutOfBounds) () ↔ ¬ frame.bounds.Contains point.x point.y
  inside : frame.bounds.Contains point.x point.y → ∃ c, frame.Shows point.x point.y c ∧
    (evalColorAt frame nowMs point rgb tolerance).Returns ()
      (.ok ⟨decide (c.distSq rgb ≤ tolerance.toNat * tolerance.toNat), none, nowMs⟩) ()
  monotone : ∀ smaller : UInt16, smaller.toNat ≤ tolerance.toNat →
    ColorHolds frame nowMs point rgb smaller → ColorHolds frame nowMs point rgb tolerance
  tolerant : frame.bounds.Contains point.x point.y → 442 ≤ tolerance.toNat →
    ColorHolds frame nowMs point rgb tolerance

theorem colorHolds_iff (h : Samples frame point tolerance) (hc : frame.Shows point.x point.y c) :
    ColorHolds frame nowMs point rgb tolerance ↔
      c.distSq rgb ≤ tolerance.toNat * tolerance.toNat := by
  have hret : (evalColorAt frame nowMs point rgb tolerance).Returns ()
      (.ok ⟨decide (c.distSq rgb ≤ tolerance.toNat * tolerance.toNat), none, nowMs⟩) () :=
    evalColorAt_inside h.across h.along (h.inside hc.inside).1 hc
  constructor
  · rintro ⟨r, hr, htrue⟩
    obtain ⟨rfl⟩ := Except.ok.inj (hret.unique hr).1
    exact of_decide_eq_true htrue
  · intro hle
    exact ⟨_, hret, decide_eq_true hle⟩

/-- Colours are compared exactly, as long as nothing overflows on the way. -/
theorem colorExact_iff (frame : Frame) (nowMs : UnixMs) (point : Point) (rgb : Rgb)
    (tolerance : UInt16) :
    ColorExact frame nowMs point rgb tolerance ↔ Samples frame point tolerance := by
  constructor
  · intro h
    by_contra hnot
    have hcrash : evalColorAt frame nowMs point rgb tolerance () = .error .panic :=
      evalColorAt_crashes hnot
    by_cases hin : frame.bounds.Contains point.x point.y
    · obtain ⟨c, -, hret⟩ := h.inside hin
      exact not_returns_of_crash hcrash _ hret
    · exact not_returns_of_crash hcrash _ (h.outside.mpr hin)
  · intro h
    have hinside : frame.bounds.Contains point.x point.y → ∃ c, frame.Shows point.x point.y c ∧
        (evalColorAt frame nowMs point rgb tolerance).Returns ()
          (.ok ⟨decide (c.distSq rgb ≤ tolerance.toNat * tolerance.toNat), none, nowMs⟩) () := by
      intro hin
      obtain ⟨ht, c, hc⟩ := h.inside hin
      exact ⟨c, hc, evalColorAt_inside h.across h.along ht hc⟩
    refine ⟨⟨?_, evalColorAt_outside h.across h.along⟩, hinside, ?_, ?_⟩
    · intro hout hin
      obtain ⟨c, -, hret⟩ := hinside hin
      exact nomatch (hout.unique hret).1
    · rintro smaller hle ⟨r, hr, htrue⟩
      by_cases hin : frame.bounds.Contains point.x point.y
      · obtain ⟨ht, c, hc⟩ := h.inside hin
        have hsmaller : Samples frame point smaller :=
          ⟨h.across, h.along, fun _ => ⟨hle.trans ht, c, hc⟩⟩
        have hdist := (colorHolds_iff hsmaller hc).mp ⟨r, hr, htrue⟩
        -- a wider tolerance admits every colour that a narrower one does
        refine (colorHolds_iff h hc).mpr (hdist.trans ?_)
        exact_mod_cast Nat.mul_self_le_mul_self hle
      · exact nomatch (hr.unique (evalColorAt_outside h.across h.along hin)).1
    · intro hin hmin
      -- no two colours are further apart than white and black
      obtain ⟨-, c, hc⟩ := h.inside hin
      refine (colorHolds_iff h hc).mpr ((distSq_le c rgb).trans ?_)
      have hsq := Nat.mul_self_le_mul_self hmin
      have hcast : ((442 * 442 : Nat) : Int) ≤ tolerance.toNat * tolerance.toNat := by
        exact_mod_cast hsq
      omega

/-- The widest tolerance is accepted, and stops the scheduler where every colour should pass. -/
theorem color_overflows :
    Dsl.Accepted Dsl.plainCrates (Dsl.watching (.colorAt ⟨0, 0⟩ ⟨0, 0, 0⟩ 65535)) ∧
      Frame.dot.Backed ∧ Frame.dot.bounds.Contains 0 0 ∧
      evalColorAt Frame.dot 0 ⟨0, 0⟩ ⟨0, 0, 0⟩ 65535 () = .error .panic ∧
      ¬ ColorExact Frame.dot 0 ⟨0, 0⟩ ⟨0, 0, 0⟩ 65535 := by
  have hin : Frame.dot.bounds.Contains 0 0 := by decide
  have hnot : ¬ Samples Frame.dot ⟨0, 0⟩ 65535 := by
    intro h
    exact absurd (h.inside hin).1 (by decide)
  have hcrash : evalColorAt Frame.dot 0 ⟨0, 0⟩ ⟨0, 0, 0⟩ 65535 () = .error .panic :=
    evalColorAt_crashes hnot
  refine ⟨Dsl.watching_accepted ⟨inI32_zero, inI32_zero⟩ (by decide +kernel), dot_backed, hin,
    hcrash, ?_⟩
  intro h
  obtain ⟨c, -, hret⟩ := h.inside hin
  exact not_returns_of_crash hcrash _ hret

end Colour

section Template
variable {L : Libs} {frame : Frame} {nowMs : UnixMs} {rect : Rect} {template : GrayImage}

/-- What the image libraries promise of sizes: greying keeps them, and the best response lies at
one of the places where the template fits. -/
structure Libs.Measured (L : Libs) : Prop where
  grayscale : ∀ image, (L.grayscale image).width = image.width ∧
    (L.grayscale image).height = image.height
  best : ∀ hay template : GrayImage, template.width ≤ hay.width → template.height ≤ hay.height →
    (L.matchTemplate hay template).2.1 < hay.width - template.width + 1 ∧
      (L.matchTemplate hay template).2.2 < hay.height - template.height + 1

theorem edgesFit_of_crop {r : Except PerceptionError RgbImage}
    (h : (cropRgb frame rect).Returns () r ()) : rect.EdgesFit ∧ frame.bounds.EdgesFit := by
  by_contra hnot
  exact not_returns_of_crash (cropRgb_overflow hnot) _ h

theorem crop_size {image : RgbImage} (h : (cropRgb frame rect).Returns () (.ok image) ()) :
    (image.width : Int) = frame.right rect - frame.left rect ∧
      (image.height : Int) = frame.bottom rect - frame.top rect := by
  obtain ⟨hrect, hframe⟩ := edgesFit_of_crop h
  rw [cropRgb_eq hrect hframe] at h
  split_ifs at h with hempty
  · obtain ⟨he, -⟩ := returns_fail.mp h
    exact nomatch he
  · by_cases hw : FitsI32 (frame.right rect - frame.left rect)
    swap
    · exact absurd h (not_returns_of_crash (checkedI32_overflow hw _) _)
    by_cases hh : FitsI32 (frame.bottom rect - frame.top rect)
    swap
    · rw [checkedI32_bind hw] at h
      exact absurd h (not_returns_of_crash (checkedI32_overflow hh _) _)
    rw [checkedI32_bind hw, checkedI32_bind hh] at h
    rcases returns_bind.mp h with ⟨e, -, he⟩ | ⟨rows, _, -, hpure⟩
    · exact nomatch he
    · obtain ⟨himage, -⟩ := returns_pure.mp hpure
      obtain rfl := Except.ok.inj himage
      simp only
      omega

theorem fitsI32_of_returns {α : Type} {n : Int} {f : Int → Glance α}
    {r : Except PerceptionError α} (h : (checkedI32 n >>= f).Returns () r ()) :
    FitsI32 n ∧ (f n).Returns () r () := by
  by_cases hn : FitsI32 n
  · rw [checkedI32_bind hn] at h
    exact ⟨hn, h⟩
  · exact absurd h (not_returns_of_crash (checkedI32_overflow hn f) r)

/-- The best match of the template in the searched image is good enough, and `md` is what the
screen has there. -/
def Sighted (L : Libs) (bytes : List UInt8) (confidence : F64) (hay : RgbImage × Int × Int)
    (md : MatchData) : Prop :=
  ∃ template : GrayImage, L.loadLuma8 bytes = .ok template ∧
    template.width ≤ (L.grayscale hay.1).width ∧ template.height ≤ (L.grayscale hay.1).height ∧
    (L.matchTemplate (L.grayscale hay.1) template).1.lt confidence = false ∧
    FitsI32 (hay.2.1 + (L.matchTemplate (L.grayscale hay.1) template).2.1) ∧
    FitsI32 (hay.2.2 + (L.matchTemplate (L.grayscale hay.1) template).2.2) ∧
    md = ⟨⟨hay.2.1 + (L.matchTemplate (L.grayscale hay.1) template).2.1,
        hay.2.2 + (L.matchTemplate (L.grayscale hay.1) template).2.2,
        template.width, template.height⟩, (L.matchTemplate (L.grayscale hay.1) template).1⟩

section MatchImage
variable {bytes : List UInt8} {confidence : F64} {region : Region}

theorem matchImage_sighted {r : PredicateResult}
    (h : (matchImage L frame nowMs bytes confidence region).Returns () (.ok r) ())
    (htrue : r.truthy = true) :
    ∃ hay md, (haystack frame region).Returns () (.ok hay) () ∧
      Sighted L bytes confidence hay md ∧ r = ⟨true, some md, nowMs⟩ := by
  unfold matchImage at h
  cases hload : L.loadLuma8 bytes with
  | error e =>
    rw [hload] at h
    exact nomatch (returns_fail.mp h).1
  | ok template =>
    rw [hload] at h
    rcases returns_bind.mp h with ⟨e, -, he⟩ | ⟨hay, _, hhay, hmatch⟩
    · exact nomatch he
    dsimp only at hmatch
    split_ifs at hmatch with hsmall hlow
    · obtain ⟨hr, -⟩ := returns_pure.mp hmatch
      obtain rfl := Except.ok.inj hr
      exact nomatch htrue
    · obtain ⟨hr, -⟩ := returns_pure.mp hmatch
      obtain rfl := Except.ok.inj hr
      exact nomatch htrue
    · obtain ⟨hx, hmatch⟩ := fitsI32_of_returns hmatch
      obtain ⟨hy, hmatch⟩ := fitsI32_of_returns hmatch
      obtain ⟨hr, -⟩ := returns_pure.mp hmatch
      have hlow : (L.matchTemplate (L.grayscale hay.1) template).1.lt confidence = false :=
        Bool.eq_false_iff.mpr hlow
      exact ⟨hay, _, hhay, ⟨template, hload, by omega, by omega, hlow, hx, hy, rfl⟩,
        Except.ok.inj hr⟩

theorem matchImage_returns {hay : RgbImage × Int × Int} {md : MatchData}
    (hhay : (haystack frame region).Returns () (.ok hay) ())
    (h : Sighted L bytes confidence hay md) :
    (matchImage L frame nowMs bytes confidence region).Returns ()
      (.ok ⟨true, some md, nowMs⟩) () := by
  obtain ⟨template, hload, hw, hh, hlow, hx, hy, rfl⟩ := h
  rw [matchImage, hload]
  refine returns_bind.mpr (.inr ⟨hay, (), hhay, ?_⟩)
  dsimp only
  rw [if_neg (by omega), if_neg (Bool.eq_false_iff.mp hlow), checkedI32_bind hx,
    checkedI32_bind hy]
  exact returns_pure.mpr ⟨rfl, rfl⟩

end MatchImage

/-- A template that is found in a region is found inside the region and on the screen, and so is
the point to click at. -/
theorem template_found_inside (hL : L.Measured) (assets : Assets) (image : String)
    (bytes : List UInt8) (hbytes : assets[assetKey image]? = some bytes)
    (hload : L.loadLuma8 bytes = .ok template) (hwidth : 1 ≤ template.width)
    (hheight : 1 ≤ template.height) (confidence : F64) (r : PredicateResult)
    (hret : (evalTemplate L frame nowMs assets image confidence (.absolute rect)).Returns ()
      (.ok r) ()) (htrue : r.truthy = true) :
    ∃ md p, r.matchData = some md ∧ md.bbox.w = template.width ∧ md.bbox.h = template.height ∧
      (∀ x y, md.bbox.Contains x y → rect.Contains x y ∧ frame.bounds.Contains x y) ∧
      Expr.resolveCenter r = .ok p ∧ md.bbox.Contains p.x p.y ∧
      frame.bounds.Contains p.x p.y := by
  rw [evalTemplate, hbytes] at hret
  obtain ⟨hay, md, hhay, ⟨template', hload', hfitsw, hfitsh, -, -, -, hsighted⟩, rfl⟩ :=
    matchImage_sighted hret htrue
  obtain rfl := Except.ok.inj (hload.symm.trans hload')
  rcases returns_bind.mp hhay with ⟨e, -, he⟩ | ⟨crop, _, hcrop, hpure⟩
  · cases he
  obtain rfl := Except.ok.inj (returns_pure.mp hpure).1
  have hbox : md.bbox =
      ⟨frame.left rect + (L.matchTemplate (L.grayscale crop) template).2.1,
        frame.top rect + (L.matchTemplate (L.grayscale crop) template).2.2,
        template.width, template.height⟩ := congrArg MatchData.bbox hsighted
  dsimp only at hfitsw hfitsh
  obtain ⟨hgrayw, hgrayh⟩ := hL.grayscale crop
  obtain ⟨hbestx, hbesty⟩ := hL.best _ _ hfitsw hfitsh
  obtain ⟨hcropw, hcroph⟩ := crop_size hcrop
  -- the search stays in the crop, and the crop is where rectangle and frame meet
  have hinside : ∀ x y, md.bbox.Contains x y →
      rect.Contains x y ∧ frame.bounds.Contains x y := by
    intro x y hxy
    rw [contains_both]
    simp only [hbox, Rect.Contains] at hxy
    omega
  have hw : md.bbox.w = template.width := by rw [hbox]
  have hh : md.bbox.h = template.height := by rw [hbox]
  have hcenter : md.bbox.Contains (md.bbox.x + (max md.bbox.w 1 - 1) / 2)
      (md.bbox.y + (max md.bbox.h 1 - 1) / 2) := by
    rw [hw, hh]
    simp only [Rect.Contains, hw, hh]
    omega
  exact ⟨md, ⟨_, _⟩, rfl, hw, hh, hinside, rfl, hcenter, (hinside _ _ hcenter).2⟩

def Frame.white : Frame := ⟨.bgra8, ⟨-7, 3, 1, 1⟩, 8, [255, 255, 255, 255, 0, 0, 0, 0], 0⟩

def whitePng : List UInt8 :=
  [137, 80, 78, 71, 13, 10, 26, 10, 0, 0, 0, 13, 73, 72, 68, 82, 0, 0, 0, 1, 0, 0, 0, 1, 8, 0, 0,
    0, 0, 58, 126, 155, 85, 0, 0, 0, 10, 73, 68, 65, 84, 120, 156, 99, 248, 15, 0, 1, 1, 1, 0,
    177, 56, 246, 20, 0, 0, 0, 0, 73, 69, 78, 68, 174, 66, 96, 130]

def whiteLibs : Libs :=
  { plainLibs with
    loadLuma8 := fun bytes => if bytes = whitePng then .ok ⟨1, 1, [255]⟩ else .error "no image"
    grayscale := fun image => ⟨image.width, image.height, image.pixels.map Rgb.r⟩
    matchTemplate := fun _ _ => (⟨0x3ff0000000000000#64⟩, 0, 0) }

theorem whiteLibs_measured : whiteLibs.Measured :=
  ⟨fun _ => ⟨rfl, rfl⟩, fun _ _ _ _ => ⟨Nat.succ_pos _, Nat.succ_pos _⟩⟩

theorem white_found_inside :
    ∃ md p, (PredicateResult.mk true (some ⟨⟨-7, 3, 1, 1⟩, ⟨0x3ff0000000000000#64⟩⟩) 0).matchData =
        some md ∧ md.bbox.w = 1 ∧ md.bbox.h = 1 ∧
      (∀ x y, md.bbox.Contains x y → (Rect.mk (-9) 0 5 5).Contains x y ∧
        Frame.white.bounds.Contains x y) ∧
      Expr.resolveCenter (PredicateResult.mk true
        (some ⟨⟨-7, 3, 1, 1⟩, ⟨0x3ff0000000000000#64⟩⟩) 0) = .ok p ∧
      md.bbox.Contains p.x p.y ∧ Frame.white.bounds.Contains p.x p.y := by
  have hbytes : ((∅ : Assets).insert "a" whitePng)[assetKey "sha256:a"]? = some whitePng := by
    rw [show assetKey "sha256:a" = "a" by decide +kernel, Std.ExtTreeMap.getElem?_insert_self]
  have hret : (evalTemplate whiteLibs .white 0 ((∅ : Assets).insert "a" whitePng) "sha256:a"
      ⟨0x3fe0000000000000#64⟩ (.absolute ⟨-9, 0, 5, 5⟩)).Returns ()
      (.ok ⟨true, some ⟨⟨-7, 3, 1, 1⟩, ⟨0x3ff0000000000000#64⟩⟩, 0⟩) () := by
    rw [evalTemplate, hbytes]
    rfl
  exact template_found_inside whiteLibs_measured _ "sha256:a" whitePng hbytes rfl (le_refl 1)
    (le_refl 1) ⟨0x3fe0000000000000#64⟩ _ hret rfl

end Template

end Vcli

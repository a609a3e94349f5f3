import Mathlib.Algebra.Order.Ring.Abs
import Mathlib.Tactic.Linarith
import Mathlib.Tactic.Ring
import Vcli.Core.Codec
import Vcli.Input.KillSwitch
import Vcli.Lib.Response

/-! A drag and the button it holds down: when the button is let go of before the call returns. -/

namespace Vcli

open Procedure Sink CgEvents CGEventInputSink

def CGEvent.isPress : CGEvent → Bool
  | mouse type .. => type ∈ [.leftMouseDown, .rightMouseDown, .otherMouseDown]
  | keyboard .. => false

def Relieved (h : History) : Prop :=
  ∀ before e after, h = before ++ .acted (.post e) :: after → e.isPress = true →
    ∃ e', Posted after e' ∧ e'.Releases e

/-- A button is let go of before the call returns; a call that panics does not return, and only an
overflow in a debug build panics. -/
def LetsGo (r : Except Stop Unit × History) : Prop := r.1 ≠ .error .panic → Relieved r.2

section Timetable

/-- The differences of the coordinates and the square of the distance fit. -/
def Representable (current to_ : Point) : Prop :=
  InI32 (to_.x - current.x) ∧ InI32 (to_.y - current.y) ∧
    InI32 ((to_.x - current.x) * (to_.x - current.x)) ∧
    InI32 ((to_.y - current.y) * (to_.y - current.y)) ∧
    InI32 ((to_.x - current.x) * (to_.x - current.x) + (to_.y - current.y) * (to_.y - current.y))

instance (current to_ : Point) : Decidable (Representable current to_) :=
  inferInstanceAs (Decidable ((_ ∧ _) ∧ (_ ∧ _) ∧ (_ ∧ _) ∧ (_ ∧ _) ∧ (_ ∧ _)))

def movesOf (current to_ : Point) : Nat :=
  let dx := wrapI32 (to_.x - current.x)
  let dy := wrapI32 (to_.y - current.y)
  let square := wrapI32 (wrapI32 (dx * dx) + wrapI32 (dy * dy))
  (max ((square.toNat.sqrt : Int) / dragStepPx) 1).toNat

def stride (sleepEach : Nat) : Nat := 4 + if sleepEach = 0 then 0 else 1

/-- What comes up while the button is down. A move begins at its reading of the switch, the finish
at the first of its two attempts. -/
inductive Checkpoint
  | move (at_ : Nat)
  | tooLong
  | overflow
  | finish (at_ : Nat)
deriving DecidableEq, Repr

/-- The checkpoints of a drag that comes to all of them, the button being down from step `n` on. A
release build goes on with what is left of a distance that does not fit. -/
def checkpoints (build : Build) : Nat → Point → List DragSegment → List Checkpoint
  | n, _, [] => [.finish n]
  | n, current, seg :: segments =>
    if maxDragSegmentMs < seg.duration / 1000000 then [.tooLong]
    else if build = .release ∨ Representable current seg.to_ then
      let steps := movesOf current seg.to_
      let pace := stride (seg.duration / steps)
      (List.range steps).map (fun i => .move (n + i * pace)) ++
        checkpoints build (n + steps * pace) seg.to_ segments
    else [.overflow]

variable (w : World)

def Granted (n : Nat) : Prop := w.grants n = true ∧ w.grants (n + 1) = true

def Passes : Checkpoint → Prop
  | .move n => w.raised n = false ∧ Granted w (n + 1)
  | _ => False

/-- The first of the attempts at a release, for a drag that finds the switch engaged at step `n`:
a move comes before it, which may fail. -/
def bailsAt (n : Nat) : Nat :=
  if w.grants (n + 1) then if w.grants (n + 2) then n + 4 else n + 3 else n + 2

/-- The drag ends there with a release, or does not return. -/
def Relieves : Checkpoint → Prop
  | .move n => w.raised n = true ∧ Granted w (bailsAt w n)
  | .tooLong => False
  | .overflow => True
  | .finish n => Granted w n

def Gets : List Checkpoint → Prop → Prop
  | [], k => k
  | c :: cs, k => Relieves w c ∨ Passes w c ∧ Gets cs k

end Timetable

section Rules
variable {α β : Type} {w : World} {p : CGEvent} {n : Nat} {f : α → Sink β}

def Asks : Effect → Prop
  | .post e => e.isPress = true
  | .sleep _ => False

def Undoes : Effect → Effect → Prop
  | .post p, .post e => e.Releases p
  | _, _ => False

/-- From step `n` on the call lets go of what `p` pressed, or it panics. -/
def Frees (w : World) (p : CGEvent) (n : Nat) (x : Sink α) : Prop :=
  Comes w (Undoes (.post p)) (· = .error .panic) n x.run

theorem frees_isEngaged {f : Bool → Sink β} :
    Frees w p n (isEngaged >>= f) ↔ Frees w p (n + 1) (f (w.raised n)) := Iff.rfl

theorem frees_create {f : Bool → Sink β} :
    Frees w p n (create >>= f) ↔ Frees w p (n + 1) (f (w.grants n)) := Iff.rfl

theorem frees_fail_bind {e : InputError} : ¬ Frees w p n (fail e >>= f) := nofun

theorem frees_panic : Frees w p n (throw .panic >>= f) := rfl

theorem frees_createOr {detail : String} {f : Unit → Sink β} :
    Frees w p n (createOr detail >>= f) ↔ w.grants n = true ∧ Frees w p (n + 1) (f ()) := by
  rw [createOr, bind_assoc, frees_create]
  cases w.grants n with
  | true => simp
  | false => simp [frees_fail_bind]

theorem frees_post {e : CGEvent} {f : Unit → Sink β} :
    Frees w p n (post e >>= f) ↔ e.Releases p ∨ Frees w p (n + 1) (f ()) := Iff.rfl

theorem frees_sleep {nanos : Nat} {f : Unit → Sink β} :
    Frees w p n (sleep nanos >>= f) ↔ Frees w p (n + if nanos = 0 then 0 else 1) (f ()) := by
  unfold sleep
  split
  · simp
  · have hact : ¬ Undoes (.post p) (.sleep nanos) := id
    exact or_iff_right hact

theorem wrapI32_of_inI32 {i : Int} (hi : InI32 i) : wrapI32 i = i := by
  unfold InI32 at hi
  exact wrapI32_of_fits (by omega) (by omega)

theorem frees_wrap {i : Int} {f : Int → Sink β} :
    Frees w p n (arithI32 .release i >>= f) ↔ Frees w p n (f (wrapI32 i)) := Iff.rfl

theorem frees_arithI32 {build : Build} {i : Int} {f : Int → Sink β} (hi : InI32 i) :
    Frees w p n (arithI32 build i >>= f) ↔ Frees w p n (f i) := by
  cases build with
  | debug =>
    have hrange : -2147483648 ≤ i ∧ i ≤ 2147483647 := by
      unfold InI32 at hi
      omega
    rw [arithI32, if_pos hrange, pure_bind]
  | release => rw [frees_wrap, wrapI32_of_inI32 hi]

theorem frees_overflow {i : Int} {f : Int → Sink β} (hi : ¬ InI32 i) :
    Frees w p n (arithI32 .debug i >>= f) := by
  have hrange : ¬ (-2147483648 ≤ i ∧ i ≤ 2147483647) := by
    unfold InI32 at hi
    omega
  rw [arithI32, if_neg hrange]
  exact frees_panic

theorem frees_tryCatch_createOr {detail : String} {g : Unit → Sink Unit}
    {handle : Stop → Sink Unit} {f : Unit → Sink β} :
    Frees w p n (tryCatch (createOr detail >>= g) handle >>= f) ↔
      Frees w p (n + 1) (if w.grants n = true then tryCatch (g ()) handle >>= f
        else handle (.error (.backend detail)) >>= f) := by
  have hstep : Frees w p n (tryCatch (createOr detail >>= g) handle >>= f) ↔
      Frees w p (n + 1) (tryCatch ((if w.grants n = true then pure () else
        fail (.backend detail)) >>= g) handle >>= f) := Iff.rfl
  rw [hstep]
  cases w.grants n with
  | true => rfl
  | false => rfl

theorem frees_tryCatch_post {e : CGEvent} {handle : Stop → Sink Unit} {f : Unit → Sink β} :
    Frees w p n (tryCatch (post e) handle >>= f) ↔
      e.Releases p ∨ Frees w p (n + 1) (f ()) := Iff.rfl

end Rules

section Moves
variable {β : Type} {build : Build} {w : World} {n : Nat} {button : Button}

def pressOf (button : Button) (at_ : Point) : CGEvent :=
  .mouse (buttonTypes button).2.1 at_ (buttonTypes button).1 none none

def upOf (button : Button) (at_ : Point) : CGEvent :=
  .mouse (buttonTypes button).2.2 at_ (buttonTypes button).1 none none

theorem upOf_releases (button : Button) (at_ start : Point) :
    (upOf button at_).Releases (pressOf button start) :=
  ⟨(buttonTypes_begunBy button).1, rfl⟩

variable {start current : Point} {f : Unit → Sink β}

theorem frees_letGo :
    Frees w (pressOf button start) n (letGo current button >>= f) ↔ Granted w n := by
  rw [letGo, bind_assoc, frees_create, Granted]
  cases w.grants n with
  | false => simp [frees_fail_bind]
  | true =>
    simp only [if_true, bind_assoc, frees_create, true_and]
    cases w.grants (n + 1) with
    | false => simp [frees_fail_bind]
    | true =>
      simp only [if_true, bind_assoc]
      rw [frees_post]
      exact iff_of_true (.inl (upOf_releases button current start)) trivial

theorem drag_releases_nothing {type : CGEventType} {at_ : Point} {b : CGMouseButton}
    (h : type.begunBy = none) :
    ¬ (CGEvent.mouse type at_ b none none).Releases (pressOf button start) :=
  fun hreleases => nomatch h.symm.trans hreleases.1

theorem frees_bailOut :
    Frees w (pressOf button start) (n + 1) (bailOut current button >>= f) ↔
      Granted w (bailsAt w n) := by
  unfold bailOut postDragMove eventSource bailsAt
  rw [bind_assoc, frees_tryCatch_createOr]
  cases w.grants (n + 1) with
  | false => exact frees_letGo
  | true =>
    simp only [if_true]
    rw [frees_tryCatch_createOr]
    cases w.grants (n + 2) with
    | false => exact frees_letGo
    | true =>
      simp only [if_true]
      rw [frees_tryCatch_post, frees_letGo]
      apply or_iff_right
      cases button <;> exact drag_releases_nothing rfl

theorem frees_postDragMove {to_ : Point} :
    Frees w (pressOf button start) n (postDragMove to_ button >>= f) ↔
      Granted w n ∧ Frees w (pressOf button start) (n + 3) (f ()) := by
  unfold postDragMove eventSource
  rw [bind_assoc, frees_createOr, bind_assoc, frees_createOr, frees_post, Granted, and_assoc]
  apply and_congr_right'
  apply and_congr_right'
  apply or_iff_right
  cases button <;> exact drag_releases_nothing rfl

theorem tdiv_mem_of_nonneg {d i steps : Int} (hd : 0 ≤ d) (hi : 1 ≤ i) (hsteps : i ≤ steps) :
    0 ≤ (d * i).tdiv steps ∧ (d * i).tdiv steps ≤ d := by
  have hprod : 0 ≤ d * i := mul_nonneg hd (by omega)
  rw [Int.tdiv_eq_ediv_of_nonneg hprod]
  constructor
  · exact Int.ediv_nonneg hprod (by omega)
  · apply Int.ediv_le_of_le_mul (by omega)
    exact mul_le_mul_of_nonneg_left hsteps hd

theorem tdiv_mem {d i steps : Int} (hi : 1 ≤ i) (hsteps : i ≤ steps) :
    min d 0 ≤ (d * i).tdiv steps ∧ (d * i).tdiv steps ≤ max d 0 := by
  rcases le_total 0 d with hd | hd
  · have hpart := tdiv_mem_of_nonneg hd hi hsteps
    omega
  · have hpart := tdiv_mem_of_nonneg (neg_nonneg.mpr hd) hi hsteps
    rw [neg_mul, Int.neg_tdiv] at hpart
    omega

theorem between_fits {x to_ i steps : Int} (hx : InI32 x) (hto : InI32 to_) (hi : 1 ≤ i)
    (hsteps : i ≤ steps) : InI32 (x + ((to_ - x) * i).tdiv steps) := by
  have hpart := tdiv_mem (d := to_ - x) hi hsteps
  unfold InI32 at *
  omega

/-- The number of moves is small beside the distance, so the products fit. -/
theorem product_fits {d square i : Int} (hd : InI32 d) (hsquare : d * d ≤ square)
    (hmax : InI32 square) (hi : 1 ≤ i)
    (hsteps : i ≤ max ((square.toNat.sqrt : Int) / dragStepPx) 1) : InI32 (d * i) := by
  by_cases hone : i = 1
  · rwa [hone, mul_one]
  · have hroot : i ≤ square.toNat.sqrt := by
      rw [show dragStepPx = 8 from rfl] at hsteps
      omega
    have hself : (square.toNat.sqrt : Int) * square.toNat.sqrt ≤ square := by
      have hnonneg : 0 ≤ square := (mul_self_nonneg d).trans hsquare
      have hsqrt := Nat.sqrt_le square.toNat
      calc ((square.toNat.sqrt : Int)) * square.toNat.sqrt
          = ((square.toNat.sqrt * square.toNat.sqrt : Nat) : Int) := by push_cast; rfl
        _ ≤ (square.toNat : Int) := by exact_mod_cast hsqrt
        _ = square := Int.toNat_of_nonneg hnonneg
    have hsquares : (d * i) * (d * i) ≤ 2147483647 * 2147483647 := by
      unfold InI32 at hmax
      have hi2 : i * i ≤ square := (mul_self_le_mul_self (by omega) hroot).trans hself
      calc (d * i) * (d * i) = (d * d) * (i * i) := by ring
        _ ≤ square * square := mul_le_mul hsquare hi2 (mul_self_nonneg i) (by nlinarith)
        _ ≤ 2147483647 * 2147483647 := mul_self_le_mul_self (by nlinarith) (by omega)
    have habs := abs_le_of_sq_le_sq' (by simpa only [sq] using hsquares) (by decide)
    unfold InI32
    omega

theorem coe_movesOf_wrap (current to_ : Point) : ((movesOf current to_ : Nat) : Int) =
    max (((wrapI32 (wrapI32 (wrapI32 (to_.x - current.x) * wrapI32 (to_.x - current.x)) +
      wrapI32 (wrapI32 (to_.y - current.y) * wrapI32 (to_.y - current.y)))).toNat.sqrt : Int) /
        dragStepPx) 1 :=
  Int.toNat_of_nonneg (zero_le_one.trans (le_max_right ..))

theorem coe_movesOf {current to_ : Point} (hrep : Representable current to_) :
    ((movesOf current to_ : Nat) : Int) = max ((((to_.x - current.x) * (to_.x - current.x) +
      (to_.y - current.y) * (to_.y - current.y)).toNat.sqrt : Int) / dragStepPx) 1 := by
  obtain ⟨hdx, hdy, hxx, hyy, hsum⟩ := hrep
  rw [coe_movesOf_wrap, wrapI32_of_inI32 hdx, wrapI32_of_inI32 hdy, wrapI32_of_inI32 hxx,
    wrapI32_of_inI32 hyy, wrapI32_of_inI32 hsum]

def Computable (build : Build) (current : Point) (dx dy steps i : Int) : Prop :=
  build = .release ∨ InI32 (dx * i) ∧ InI32 (current.x + (dx * i).tdiv steps) ∧
    InI32 (dy * i) ∧ InI32 (current.y + (dy * i).tdiv steps)

theorem Representable.computable {to_ : Point} {i : Nat} (hcurrent : current.Fits)
    (hto : to_.Fits) (hrep : Representable current to_) (hi : i < movesOf current to_) :
    Computable build current (to_.x - current.x) (to_.y - current.y) (movesOf current to_)
      (i + 1) := by
  have hone : (1 : Int) ≤ (i : Int) + 1 := by omega
  have hlast : (i : Int) + 1 ≤ movesOf current to_ := by exact_mod_cast hi
  have hlast' := coe_movesOf hrep ▸ hlast
  obtain ⟨hdx, hdy, hxx, hyy, hsum⟩ := hrep
  have hpx := product_fits hdx (le_add_of_nonneg_right (mul_self_nonneg _)) hsum hone hlast'
  have hpy := product_fits hdy (le_add_of_nonneg_left (mul_self_nonneg _)) hsum hone hlast'
  have hnx := between_fits hcurrent.1 hto.1 hone hlast
  have hny := between_fits hcurrent.2 hto.2 hone hlast
  exact .inr ⟨hpx, hnx, hpy, hny⟩

theorem frees_dragStep {dx dy steps i : Int} {sleepEach : Nat}
    (hcomputable : Computable build current dx dy steps i) :
    Frees w (pressOf button start) n (dragStep build button current dx dy steps sleepEach i >>= f) ↔
      Relieves w (.move n) ∨ Passes w (.move n) ∧
        Frees w (pressOf button start) (n + stride sleepEach) (f ()) := by
  rw [dragStep, bind_assoc, frees_isEngaged, Relieves, Passes]
  cases w.raised n with
  | true =>
    simp only [if_true, true_and]
    rw [frees_bailOut]
    simp
  | false =>
    simp only [Bool.false_eq_true, if_false, bind_assoc]
    have hmove : ∀ to_ : Point, Frees w (pressOf button start) (n + 1)
        (postDragMove to_ button >>= fun _ => sleep sleepEach >>= f) ↔
        False ∨ (True ∧ Granted w (n + 1)) ∧
          Frees w (pressOf button start) (n + stride sleepEach) (f ()) := by
      intro to_
      rw [frees_postDragMove, frees_sleep]
      simp [stride, Nat.add_assoc]
    rcases hcomputable with rfl | ⟨hpx, hnx, hpy, hny⟩
    · rw [frees_wrap, frees_wrap, frees_wrap, frees_wrap, hmove]
      simp
    · rw [frees_arithI32 hpx, frees_arithI32 hnx, frees_arithI32 hpy, frees_arithI32 hny, hmove]
      simp

end Moves

section Segments
variable {build : Build} {w : World} {n : Nat} {button : Button} {start current : Point}

theorem frees_moves {β : Type} {step : Nat → Sink Unit} {f : Unit → Sink β} {pace : Nat}
    (l : List Nat)
    (hstep : ∀ n, ∀ i ∈ l, ∀ g : Unit → Sink β,
      Frees w (pressOf button start) n (step i >>= g) ↔ Relieves w (.move n) ∨
        Passes w (.move n) ∧ Frees w (pressOf button start) (n + pace) (g ())) :
    Frees w (pressOf button start) n (l.forM step >>= f) ↔
      Gets w ((List.range l.length).map fun i => .move (n + i * pace))
        (Frees w (pressOf button start) (n + l.length * pace) (f ())) := by
  induction l generalizing n with
  | nil => simp [Gets]
  | cons i l ih =>
    have hrest := ih (n := n + pace) fun n j hj => hstep n j (List.mem_cons_of_mem i hj)
    have htimes : ∀ j, n + pace + j * pace = n + (j + 1) * pace := by
      intro j
      ring
    have hcons : (i :: l).forM step = step i >>= fun _ => l.forM step := rfl
    rw [hcons, bind_assoc, hstep n i List.mem_cons_self, hrest, List.length_cons,
      List.range_succ_eq_map, List.map_cons, List.map_map, Gets, Nat.zero_mul, Nat.add_zero]
    simp only [htimes, Function.comp_def]

theorem gets_append (cs ds : List Checkpoint) (k : Prop) :
    Gets w (cs ++ ds) k ↔ Gets w cs (Gets w ds k) := by
  induction cs with
  | nil => rfl
  | cons c cs ih => simp only [List.cons_append, Gets, ih]

/-- The button is let go of where all checkpoints before have been passed. -/
theorem gets_iff (cs : List Checkpoint) : Gets w cs False ↔
    ∃ before c after, cs = before ++ c :: after ∧ (∀ b ∈ before, Passes w b) ∧ Relieves w c := by
  induction cs with
  | nil => simp [Gets]
  | cons c cs ih =>
    rw [Gets, ih]
    constructor
    · rintro (hc | ⟨hc, before, d, after, rfl, hbefore, hd⟩)
      · exact ⟨[], c, cs, rfl, nofun, hc⟩
      · exact ⟨c :: before, d, after, rfl, List.forall_mem_cons.mpr ⟨hc, hbefore⟩, hd⟩
    · rintro ⟨before, d, after, heq, hbefore, hd⟩
      rcases List.cons_eq_append_iff.mp heq with ⟨rfl, heq⟩ | ⟨before, rfl, heq⟩
      · obtain ⟨rfl, -⟩ := List.cons.inj heq
        exact .inl hd
      · obtain ⟨hc, hbefore⟩ := List.forall_mem_cons.mp hbefore
        exact .inr ⟨hc, before, d, after, (List.cons.inj heq).2, hbefore, hd⟩

theorem frees_unrepresentable {β : Type} {p : CGEvent} {seg : DragSegment} {f : Point → Sink β}
    (hshort : ¬ maxDragSegmentMs < seg.duration / 1000000)
    (hrep : ¬ Representable current seg.to_) :
    Frees w p n (dragSegment .debug button current seg >>= f) := by
  unfold dragSegment
  rw [if_neg hshort]
  simp only [bind_assoc]
  by_cases hdx : InI32 (seg.to_.x - current.x)
  · rw [frees_arithI32 hdx]
    by_cases hdy : InI32 (seg.to_.y - current.y)
    · rw [frees_arithI32 hdy]
      by_cases hxx : InI32 ((seg.to_.x - current.x) * (seg.to_.x - current.x))
      · rw [frees_arithI32 hxx]
        by_cases hyy : InI32 ((seg.to_.y - current.y) * (seg.to_.y - current.y))
        · rw [frees_arithI32 hyy]
          exact frees_overflow fun hsum => hrep ⟨hdx, hdy, hxx, hyy, hsum⟩
        · exact frees_overflow hyy
      · exact frees_overflow hxx
    · exact frees_overflow hdy
  · exact frees_overflow hdx

theorem frees_dragSegment {β : Type} {seg : DragSegment} {f : Point → Sink β}
    (hcurrent : current.Fits) (hto : seg.to_.Fits)
    (hshort : ¬ maxDragSegmentMs < seg.duration / 1000000)
    (hgoes : build = .release ∨ Representable current seg.to_) {steps pace : Nat}
    (hsteps : steps = movesOf current seg.to_) (hpace : pace = stride (seg.duration / steps)) :
    Frees w (pressOf button start) n (dragSegment build button current seg >>= f) ↔
      Gets w ((List.range steps).map fun i => .move (n + i * pace))
        (Frees w (pressOf button start) (n + steps * pace) (f seg.to_)) := by
  subst hsteps hpace
  unfold dragSegment
  rw [if_neg hshort]
  simp only [bind_assoc]
  rcases hgoes with rfl | hrep
  · simp only [frees_wrap, ← coe_movesOf_wrap, Int.toNat_natCast, pure_bind]
    rw [frees_moves (List.range (movesOf current seg.to_)) fun n i _ g =>
      frees_dragStep (.inl rfl), List.length_range]
  · obtain ⟨hdx, hdy, hxx, hyy, hsum⟩ := id hrep
    rw [frees_arithI32 hdx, frees_arithI32 hdy, frees_arithI32 hxx, frees_arithI32 hyy,
      frees_arithI32 hsum]
    simp only [← coe_movesOf hrep, Int.toNat_natCast, pure_bind]
    rw [frees_moves (List.range (movesOf current seg.to_)) fun n i hi g =>
      frees_dragStep (hrep.computable hcurrent hto (List.mem_range.mp hi)), List.length_range]

theorem frees_segments (segments : List DragSegment) (hcurrent : current.Fits)
    (hto : ∀ seg ∈ segments, seg.to_.Fits) :
    Frees w (pressOf button start) n (dragSegments build button current segments >>= fun at_ =>
      eventSource >>= fun _ => createOr "mouse_event up failed" >>= fun _ =>
        post (upOf button at_)) ↔ Gets w (checkpoints build n current segments) False := by
  induction segments generalizing n current with
  | nil =>
    have hpost : Frees w (pressOf button start) (n + 1 + 1) (post (upOf button current)) :=
      .inl (upOf_releases button current start)
    rw [dragSegments, pure_bind, eventSource, frees_createOr, frees_createOr]
    simp [checkpoints, Gets, Relieves, Passes, Granted, hpost]
  | cons seg segments ih =>
    obtain ⟨hseg, hto⟩ := List.forall_mem_cons.mp hto
    rw [dragSegments, bind_assoc, checkpoints]
    split
    · next hlong =>
      rw [dragSegment, if_pos hlong]
      exact iff_of_false frees_fail_bind (by simp [Gets, Relieves, Passes])
    · next hshort =>
      split
      · next hgoes =>
        rw [frees_dragSegment hcurrent hseg hshort hgoes rfl rfl, gets_append, ih hseg hto]
      · next hstops =>
        obtain ⟨hdebug, hrep⟩ := not_or.mp hstops
        cases build with
        | debug => exact iff_of_true (frees_unrepresentable hshort hrep) (.inl trivial)
        | release => exact absurd rfl hdebug

end Segments

section Quiet
variable {α β : Type} {build : Build} {button : Button}

abbrev Quiet (x : Sink α) : Prop := All (fun a => ¬ Asks a) x.run

theorem quiet_createOr (detail : String) : Quiet (createOr detail) := by
  intro b
  cases b <;> trivial

theorem quiet_post {e : CGEvent} (he : e.isPress = false) : Quiet (post e) :=
  ⟨fun hpress => Bool.false_ne_true (he.symm.trans hpress), trivial⟩

theorem quiet_sleep (nanos : Nat) : Quiet (sleep nanos) := by
  unfold sleep
  split
  · trivial
  · exact ⟨id, trivial⟩

theorem quiet_checked {f : Int → Sink β} (hf : ∀ r, Quiet (f r)) (i : Int) :
    Quiet (arithI32 build i >>= f) := by
  refine All.andThen ?_ hf
  cases build with
  | debug =>
    rw [arithI32]
    split
    · trivial
    · trivial
  | release => trivial

theorem quiet_postDragMove (to_ : Point) : Quiet (postDragMove to_ button) := by
  apply All.andThen (quiet_createOr _)
  intro _
  apply All.andThen (quiet_createOr _)
  intro _
  cases button <;> exact quiet_post rfl

theorem quiet_up (at_ : Point) : Quiet (post (upOf button at_)) := by
  cases button <;> exact quiet_post rfl

theorem quiet_letGo (current : Point) : Quiet (letGo current button) := by
  intro b
  cases b with
  | false => trivial
  | true =>
    intro b
    cases b with
    | false => trivial
    | true => exact All.andThen (quiet_up current) fun _ => trivial

theorem quiet_bailOut (current : Point) : Quiet (bailOut current button) := by
  unfold bailOut
  refine All.andThen ?_ fun _ => quiet_letGo current
  apply All.bind (quiet_postDragMove current)
  intro r
  rcases r with (_ | _) | _ <;> trivial

theorem quiet_dragStep (current : Point) (dx dy steps : Int) (sleepEach : Nat) (i : Int) :
    Quiet (dragStep build button current dx dy steps sleepEach i) := by
  intro b
  cases b with
  | true => exact quiet_bailOut current
  | false =>
    apply quiet_checked
    intro _
    apply quiet_checked
    intro _
    apply quiet_checked
    intro _
    apply quiet_checked
    intro _
    exact All.andThen (quiet_postDragMove _) fun _ => quiet_sleep _

theorem quiet_forM {step : Nat → Sink Unit} (hstep : ∀ i, Quiet (step i)) (l : List Nat) :
    Quiet (l.forM step) := by
  induction l with
  | nil => trivial
  | cons i l ih => exact All.andThen (hstep i) fun _ => ih

theorem quiet_dragSegment (current : Point) (seg : DragSegment) :
    Quiet (dragSegment build button current seg) := by
  unfold dragSegment
  split
  · trivial
  · apply quiet_checked
    intro _
    apply quiet_checked
    intro _
    apply quiet_checked
    intro _
    apply quiet_checked
    intro _
    apply quiet_checked
    intro _
    exact All.andThen (quiet_forM (fun _ => quiet_dragStep _ _ _ _ _ _) _) fun _ => trivial

theorem quiet_dragSegments (current : Point) (segments : List DragSegment) :
    Quiet (dragSegments build button current segments) := by
  induction segments generalizing current with
  | nil => trivial
  | cons seg segments ih => exact All.andThen (quiet_dragSegment current seg) ih

end Quiet

section Calls
variable {β : Type} {build : Build} {w : World} {n : Nat}

def Settles (w : World) (n : Nat) (x : Sink β) : Prop :=
  Answered w Asks Undoes (· = .error .panic) n x.run

theorem letsGo_iff_settles (x : Sink Unit) : LetsGo (x.run.run w 0) ↔ Settles w 0 x := by
  rw [Settles, answered_iff_run, LetsGo, Relieved]
  constructor
  · intro h before a after heq hasks
    by_cases hpanic : (x.run.run w 0).1 = .error .panic
    · exact .inl hpanic
    · cases a with
      | post e =>
        obtain ⟨e', he', hreleases⟩ := h hpanic before e after heq hasks
        exact .inr ⟨.post e', he', hreleases⟩
      | sleep _ => exact hasks.elim
  · intro h hpanic before e after heq hpress
    rcases h before (.post e) after heq hpress with hend | ⟨b, hb, hanswers⟩
    · exact absurd hend hpanic
    · cases b with
      | post e' => exact ⟨e', hb, hanswers⟩
      | sleep _ => exact hanswers.elim

theorem settles_createOr {detail : String} {f : Unit → Sink β} :
    Settles w n (createOr detail >>= f) ↔
      (w.grants n = true → Settles w (n + 1) (f ())) := by
  have hstep : Settles w n (createOr detail >>= f) ↔
      Settles w (n + 1) ((if w.grants n = true then pure () else fail (.backend detail)) >>= f) :=
    Iff.rfl
  rw [hstep]
  cases w.grants n with
  | true => simp
  | false => exact iff_of_true trivial nofun

theorem settles_post {e : CGEvent} {f : Unit → Sink β} : Settles w n (post e >>= f) ↔
    (e.isPress = true → Frees w e (n + 1) (f ())) ∧ Settles w (n + 1) (f ()) := Iff.rfl

theorem settles_guard {accessibility : PermissionStatus} {f : Unit → Sink β} :
    Settles w 0 (guard accessibility >>= f) ↔ (w.raised 0 = false →
      accessibility = .granted ∨ accessibility = .notDetermined → Settles w 1 (f ())) := by
  have hstep : Settles w 0 (guard accessibility >>= f) ↔
      Settles w 1 ((if w.raised 0 = true then fail .halted
        else if accessibility ≠ .granted ∧ accessibility ≠ .notDetermined then
          fail (.permissionDenied "Accessibility (TCC) not granted")
        else pure ()) >>= f) := Iff.rfl
  rw [hstep]
  cases w.raised 0 with
  | true => exact iff_of_true trivial nofun
  | false =>
    simp only [Bool.false_eq_true, if_false]
    split
    · next hdenied => exact iff_of_true trivial fun _ hallowed => by tauto
    · next hallowed => simp [show accessibility = .granted ∨ accessibility = .notDetermined by tauto]

theorem settles_press {start : Point} {segments : List DragSegment} {button : Button}
    (hstart : start.Fits) (hto : ∀ seg ∈ segments, seg.to_.Fits) :
    Settles w n (post (pressOf button start) >>= fun _ =>
      dragSegments build button start segments >>= fun at_ => eventSource >>= fun _ =>
        createOr "mouse_event up failed" >>= fun _ => post (upOf button at_)) ↔
      Gets w (checkpoints build (n + 1) start segments) False := by
  have hpress : (pressOf button start).isPress = true := by cases button <;> rfl
  rw [settles_post, frees_segments segments hstart hto]
  have hquiet : Quiet (dragSegments build button start segments >>= fun at_ => eventSource >>= fun _ =>
      createOr "mouse_event up failed" >>= fun _ => post (upOf button at_)) := by
    apply All.andThen (quiet_dragSegments start segments)
    intro at_
    apply All.andThen (quiet_createOr _)
    intro _
    exact All.andThen (quiet_createOr _) fun _ => quiet_up at_
  constructor
  · intro h
    exact h.1 hpress
  · intro h
    exact ⟨fun _ => h, hquiet.answered⟩

/-- Nothing is pressed: the call is refused at its start, there is nowhere to drag to, or one of
the events up to the press cannot be made. -/
def Unpressed (w : World) (accessibility : PermissionStatus) (segments : List DragSegment) : Prop :=
  w.raised 0 = true ∨ (accessibility ≠ .granted ∧ accessibility ≠ .notDetermined) ∨
    segments = [] ∨ ¬ (Granted w 1 ∧ Granted w 4)

/-- A drag lets go of the button exactly if nothing is pressed or, of all that comes up while the
button is down, the first that is not a move posted as planned is a move that finds the switch
engaged, with a release that can be made, or the finish of the last segment, with a release that
can be made. A segment longer than 5 s, an event that cannot be made on the way and a release that
cannot be made leave the button down; an overflow is a panic, and that in a debug build only. -/
theorem drag_lets_go_iff (build : Build) (accessibility : PermissionStatus) (w : World)
    (start : Point) (segments : List DragSegment) (button : Button) (hstart : start.Fits)
    (hto : ∀ seg ∈ segments, seg.to_.Fits) :
    LetsGo ((drag build accessibility start segments button).run.run w 0) ↔
      Unpressed w accessibility segments ∨
        ∃ before c after, checkpoints build 7 start segments = before ++ c :: after ∧
          (∀ b ∈ before, Passes w b) ∧ Relieves w c := by
  rw [letsGo_iff_settles, drag, settles_guard, ← gets_iff, Unpressed]
  by_cases hsegments : segments = []
  · rw [if_pos hsegments]
    exact iff_of_true (fun _ _ => trivial) (.inl (.inr (.inr (.inl hsegments))))
  rw [if_neg hsegments]
  unfold postMove
  rw [eventSource]
  simp only [bind_assoc]
  rw [settles_createOr, settles_createOr, settles_post, settles_createOr, settles_createOr]
  have hpressed := @settles_press build w 6 start segments button hstart hto
  unfold pressOf upOf eventSource at hpressed
  have hmoved : (CGEvent.mouse .mouseMoved start .left none none).isPress = false := rfl
  simp only [Nat.reduceAdd, hpressed, hmoved, Bool.false_eq_true, false_imp_iff, true_and,
    Granted, ← Bool.not_eq_true, hsegments, false_or]
  tauto

/-- A drag of a tenth of a second, with the button down on its one move and up at the end. -/
theorem short_drag_lets_go :
    LetsGo ((drag .release .granted ⟨0, 0⟩ [⟨⟨0, 0⟩, 100000000⟩] .left).run.run .quiet 0) := by
  apply (drag_lets_go_iff .release .granted .quiet ⟨0, 0⟩ [⟨⟨0, 0⟩, 100000000⟩] .left ?_ ?_).mpr
  · refine .inr ⟨[.move 7], .finish 12, [], by decide, ?_, rfl, rfl⟩
    intro b hb
    rw [List.mem_singleton.mp hb]
    exact ⟨rfl, rfl, rfl⟩
  · exact ⟨inI32_zero, inI32_zero⟩
  · intro seg hseg
    rw [List.mem_singleton.mp hseg]
    exact ⟨inI32_zero, inI32_zero⟩

/-- A segment of six seconds is refused with the button down, also after a distance that has
wrapped, and so ends a drag whose first move cannot be made. -/
theorem drag_holds_on :
    ¬ LetsGo ((drag .release .granted ⟨0, 0⟩ [⟨⟨0, 0⟩, 6000000000⟩] .left).run.run .quiet 0) ∧
    ¬ LetsGo ((drag .release .granted ⟨0, 0⟩ [⟨⟨0, 0⟩, 100000000⟩] .left).run.run
      ⟨fun _ => false, fun n => n ≠ 8⟩ 0) ∧
    ¬ LetsGo ((drag .release .granted ⟨0, 0⟩ [⟨⟨50000, 0⟩, 100000000⟩, ⟨⟨50000, 0⟩, 6000000000⟩]
      .left).run.run .quiet 0) := by
  refine ⟨?_, ?_, ?_⟩
  · intro h
    obtain ⟨e, he, -⟩ := h (by decide) [.asked false, .attempted true, .attempted true,
      .acted (.post (.mouse .mouseMoved ⟨0, 0⟩ .left none none)), .attempted true,
      .attempted true] (pressOf .left ⟨0, 0⟩) [] (by decide) rfl
    simp [Posted] at he
  · intro h
    obtain ⟨e, he, -⟩ := h (by decide) [.asked false, .attempted true, .attempted true,
      .acted (.post (.mouse .mouseMoved ⟨0, 0⟩ .left none none)), .attempted true,
      .attempted true] (pressOf .left ⟨0, 0⟩) [.asked false, .attempted false] (by decide) rfl
    simp [Posted] at he
  · intro h
    obtain ⟨e, he, hreleases⟩ := h (by decide) [.asked false, .attempted true, .attempted true,
      .acted (.post (.mouse .mouseMoved ⟨0, 0⟩ .left none none)), .attempted true,
      .attempted true] (pressOf .left ⟨0, 0⟩) [.asked false, .attempted true, .attempted true,
      .acted (.post (.mouse .leftMouseDragged ⟨50000, 0⟩ .left none none)),
      .acted (.sleep 100000000)] (by decide) rfl
    have hdrag : e = .mouse .leftMouseDragged ⟨50000, 0⟩ .left none none := by
      simpa [Posted] using he
    rw [hdrag] at hreleases
    cases hreleases.1

end Calls

end Vcli

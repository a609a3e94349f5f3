import Vcli.Core.Build
import Vcli.Input.Keymap
import Vcli.Lib.Procedure

/-! The input sink of macOS. A call is a procedure: it reads the kill switch, asks the system for
event sources and events, and posts them one by one. -/

namespace Vcli

inductive CGMouseButton
  | left
  | right
  | center
deriving DecidableEq, Repr

inductive CGEventType
  | mouseMoved
  | leftMouseDown
  | leftMouseUp
  | leftMouseDragged
  | rightMouseDown
  | rightMouseUp
  | rightMouseDragged
  | otherMouseDown
  | otherMouseUp
  | otherMouseDragged
deriving DecidableEq, Repr

structure CGEventFlags where
  command : Bool
  shift : Bool
  alternate : Bool
  control : Bool
deriving DecidableEq, Repr

inductive CGEvent
  | mouse (type : CGEventType) (at_ : Point) (button : CGMouseButton) (flags : Option CGEventFlags)
    (clickState : Option Int)
  | keyboard (keycode : UInt16) (down : Bool) (flags : Option CGEventFlags)
    (string : Option (List UInt16))
deriving DecidableEq, Repr

inductive Effect
  | post (e : CGEvent)
  | sleep (nanos : Nat)
deriving DecidableEq, Repr

inductive Stop
  | error (e : InputError)
  | panic
deriving DecidableEq, Repr

abbrev Sink (α : Type) := ExceptT Stop (Procedure Effect) α

namespace Sink

def fail {α : Type} (e : InputError) : Sink α := throw (.error e)

def post (e : CGEvent) : Sink Unit := ExceptT.mk (.act (.post e) (.done (.ok ())))

def sleep (nanos : Nat) : Sink Unit :=
  if nanos = 0 then pure () else ExceptT.mk (.act (.sleep nanos) (.done (.ok ())))

def isEngaged : Sink Bool := ExceptT.mk (.ask fun b => .done (.ok b))

def create : Sink Bool := ExceptT.mk (.attempt fun b => .done (.ok b))

def createOr (detail : String) : Sink Unit := do
  if ← create then pure () else fail (.backend detail)

def arithI32 (build : Build) (n : Int) : Sink Int :=
  match build with
  | .debug => if -2147483648 ≤ n ∧ n ≤ 2147483647 then pure n else throw .panic
  | .release => pure (wrapI32 n)

end Sink

open Sink

namespace CgEvents

def eventSource : Sink Unit := createOr "CGEventSource::new failed"

def flagsFromModifiers (modifiers : List Modifier) : CGEventFlags :=
  ⟨.cmd ∈ modifiers, .shift ∈ modifiers, .alt ∈ modifiers, .ctrl ∈ modifiers⟩

def buttonTypes : Button → CGMouseButton × CGEventType × CGEventType
  | .left => (.left, .leftMouseDown, .leftMouseUp)
  | .right => (.right, .rightMouseDown, .rightMouseUp)
  | .middle => (.center, .otherMouseDown, .otherMouseUp)

def postMove (to_ : Point) : Sink Unit := do
  eventSource
  createOr "CGEvent::new_mouse_event MouseMoved failed"
  post (.mouse .mouseMoved to_ .left none none)

def postClick (at_ : Point) (button : Button) (modifiers : List Modifier) (hold : Nat)
    (clickState : Int) : Sink Unit := do
  eventSource
  let (cgBtn, downTy, upTy) := buttonTypes button
  let flags := flagsFromModifiers modifiers
  createOr "mouse_event down failed"
  post (.mouse downTy at_ cgBtn (some flags) (some clickState))
  sleep hold
  createOr "mouse_event up failed"
  post (.mouse upTy at_ cgBtn (some flags) (some clickState))

def postDragMove (to_ : Point) (button : Button) : Sink Unit := do
  eventSource
  let dragTy := match button with
    | .left => CGEventType.leftMouseDragged
    | .right => .rightMouseDragged
    | .middle => .otherMouseDragged
  createOr "mouse_event drag failed"
  post (.mouse dragTy to_ (buttonTypes button).1 none none)

def postKey (keycode : UInt16) (keyDown : Bool) (modifiers : List Modifier) : Sink Unit := do
  eventSource
  createOr "CGEvent::new_keyboard_event failed"
  post (.keyboard keycode keyDown (some (flagsFromModifiers modifiers)) none)

end CgEvents

namespace CgTyping

def encodeUtf16 (c : Char) : List UInt16 :=
  let n := c.toNat
  if n < 0x10000 then [.ofNat n]
  else [.ofNat (0xd800 + (n - 0x10000) / 0x400), .ofNat (0xdc00 + (n - 0x10000) % 0x400)]

def postUnicodeChunk (chunk : Char) : Sink Unit := do
  createOr "CGEventSource::new failed"
  let utf16 := encodeUtf16 chunk
  createOr "keyboard_event down failed"
  post (.keyboard 0 true none (some utf16))
  createOr "keyboard_event up failed"
  post (.keyboard 0 false none (some utf16))

def typeText (text : String) : Sink Unit := text.toList.forM postUnicodeChunk

end CgTyping

structure DragSegment where
  to_ : Point
  duration : Nat
deriving DecidableEq, Repr

inductive PermissionStatus
  | granted
  | denied
  | notDetermined
  | notApplicable
deriving DecidableEq, Repr

namespace CGEventInputSink

open CgEvents CgTyping

def maxDragSegmentMs : Nat := 5000

def dragStepPx : Int := 8

def guard (accessibility : PermissionStatus) : Sink Unit := do
  if ← isEngaged then fail .halted
  else if accessibility ≠ .granted ∧ accessibility ≠ .notDetermined then
    fail (.permissionDenied "Accessibility (TCC) not granted")

/-- The release of a drag that ends early; a failure to make the event is not minded. -/
def letGo (current : Point) (button : Button) : Sink Unit := do
  if ← create then
    if ← create then
      post (.mouse (buttonTypes button).2.2 current (buttonTypes button).1 none none)
  fail .halted

/-- A drag that finds the switch engaged releases the button before it ends. -/
def bailOut (current : Point) (button : Button) : Sink Unit := do
  tryCatch (postDragMove current button) fun
    | .error _ => pure ()
    | .panic => throw .panic
  letGo current button

variable (build : Build)

/-- The `i`-th of the moves that a segment is interpolated with. -/
def dragStep (button : Button) (current : Point) (dx dy steps : Int) (sleepEach : Nat) (i : Int) :
    Sink Unit := do
  if ← isEngaged then bailOut current button
  else
    let nx ← arithI32 build (current.x + (← arithI32 build (dx * i)).tdiv steps)
    let ny ← arithI32 build (current.y + (← arithI32 build (dy * i)).tdiv steps)
    postDragMove ⟨nx, ny⟩ button
    sleep sleepEach

def dragSegment (button : Button) (current : Point) (seg : DragSegment) : Sink Point := do
  if maxDragSegmentMs < seg.duration / 1000000 then
    fail (.invalidArgument "drag segment longer than 5s")
  else
    let dx ← arithI32 build (seg.to_.x - current.x)
    let dy ← arithI32 build (seg.to_.y - current.y)
    let square ← arithI32 build ((← arithI32 build (dx * dx)) + (← arithI32 build (dy * dy)))
    -- the square root of an `i32` in binary64, truncated, is the integer one; that of a negative
    -- square, which a wrap can give, is no number and becomes 0
    let dist : Int := square.toNat.sqrt
    let steps := max (dist / dragStepPx) 1
    let sleepEach := seg.duration / steps.toNat
    (List.range steps.toNat).forM fun i => dragStep build button current dx dy steps sleepEach (i + 1)
    return seg.to_

def dragSegments (button : Button) : Point → List DragSegment → Sink Point
  | current, [] => pure current
  | current, seg :: segments => do
    let next ← dragSegment build button current seg
    dragSegments button next segments

section Calls
variable (accessibility : PermissionStatus)

def mouseMove (to_ : Point) : Sink Unit := do
  guard accessibility
  postMove to_

def click (at_ : Point) (button : Button) (modifiers : List Modifier) (holdMs : UInt32) :
    Sink Unit := do
  guard accessibility
  postMove at_
  postClick at_ button modifiers (holdMs.toNat * 1000000) 1

def drag (start : Point) (segments : List DragSegment) (button : Button) : Sink Unit := do
  guard accessibility
  if segments = [] then fail (.invalidArgument "drag segments must be non-empty")
  else
    postMove start
    let (cgBtn, downTy, upTy) := buttonTypes button
    eventSource
    createOr "mouse_event down failed"
    post (.mouse downTy start cgBtn none none)
    let current ← dragSegments build button start segments
    eventSource
    createOr "mouse_event up failed"
    post (.mouse upTy current cgBtn none none)

def typeText (text : String) : Sink Unit := do
  guard accessibility
  CgTyping.typeText text

def keyCombo (modifiers : List Modifier) (key : String) : Sink Unit := do
  guard accessibility
  match Keymap.parse key with
  | .error e => fail e
  | .ok parsed =>
    match Keymap.macosKeycode parsed with
    | none => fail (.unknownKey key)
    | some keycode => do
      postKey keycode true modifiers
      postKey keycode false modifiers

end Calls

end CGEventInputSink

end Vcli

import Vcli.Core.Basic

/-! The DSL document: predicates, steps, watches, triggers and the program itself. -/

namespace Vcli

inductive Anchor
  | match_
deriving DecidableEq, Repr

inductive Region
  | absolute (rect : Rect)
  | window (app : String) (titleContains : Option String) (windowIndex : Option UInt32)
  | relativeTo (predicate : String) (anchor : Anchor) (offset : Point) (size : Option Size)
deriving DecidableEq, Repr

structure Rgb where
  r : UInt8
  g : UInt8
  b : UInt8
deriving DecidableEq, Repr

inductive PredicateKind
  | template (image : String) (confidence : F64) (region : Region) (throttleMs : UInt32)
  | colorAt (point : Point) (rgb : Rgb) (tolerance : UInt16)
  | pixelDiff (region : Region) (baseline : String) (threshold : F64)
  | allOf (of : List String)
  | anyOf (of : List String)
  | not (of : String)
  | elapsedMsSinceTrue (predicate : String) (ms : UInt32)
deriving DecidableEq, Repr

abbrev Predicates := Std.ExtTreeMap String PredicateKind

/-- Asset bytes keyed by the hexadecimal digest of their content. -/
abbrev Assets := Std.ExtTreeMap String (List UInt8)

structure MatchData where
  bbox : Rect
  confidence : F64
deriving DecidableEq, Repr

structure PredicateResult where
  truthy : Bool
  matchData : Option MatchData
  at_ : UnixMs
deriving DecidableEq, Repr

inductive Button
  | left
  | right
  | middle
deriving DecidableEq, Repr

inductive Modifier
  | cmd
  | shift
  | alt
  | ctrl
deriving DecidableEq, Repr

inductive Target
  | absolute (p : Point)
  | expression (s : String)
deriving DecidableEq, Repr

inductive OnTimeout
  | fail
  | continue_
  | retry
deriving DecidableEq, Repr

inductive OnFail
  | fail
  | continue_
deriving DecidableEq, Repr

inductive Step
  | move (at_ : Target)
  | click (at_ : Target) (button : Button)
  | type (text : String)
  | key (key : String) (modifiers : List Modifier)
  | scroll (at_ : Target) (dx dy : Int)
  | waitFor (predicate : String) (timeoutMs : UInt32) (onTimeout : OnTimeout)
  | assert (predicate : String) (onFail : OnFail)
  | sleepMs (ms : UInt32)
deriving DecidableEq, Repr

inductive WatchWhen
  | byName (name : String)
  | inline (p : PredicateKind)
deriving DecidableEq, Repr

inductive Lifetime
  | oneShot
  | persistent
  | untilPredicate (name : String)
  | timeoutMs (ms : UInt32)
deriving DecidableEq, Repr

structure Watch where
  when_ : WatchWhen
  steps : List Step
  throttleMs : UInt32
  lifetime : Lifetime
deriving DecidableEq, Repr

inductive Trigger
  | onSubmit
  | onPredicate (name : String)
  | manual
deriving DecidableEq, Repr

structure Program where
  version : String
  name : String
  id : Option ProgramId
  trigger : Trigger
  predicates : Predicates
  watches : List Watch
  body : List Step
  onComplete : Option String
  onFail : Option String
  timeoutMs : Option UInt32
  labels : Std.ExtTreeMap String String
  priority : Int

def Program.blank (name : String) : Program where
  version := "0.1"
  name := name
  id := none
  trigger := .onSubmit
  predicates := ∅
  watches := []
  body := []
  onComplete := none
  onFail := none
  timeoutMs := none
  labels := ∅
  priority := 0

end Vcli

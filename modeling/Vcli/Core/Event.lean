import Vcli.Core.Program

/-! JSON values, the serialized form of a step, and the daemon-wide event taxonomy. -/

namespace Vcli

inductive JsonNumber
  | int (i : Int)
  | float (f : F64)
deriving DecidableEq, Repr

/-- `serde_json::Value` with `preserve_order`: objects keep their insertion order. -/
inductive Json
  | null
  | bool (b : Bool)
  | number (n : JsonNumber)
  | string (s : String)
  | array (items : List Json)
  | object (entries : List (String × Json))
deriving Repr

namespace Json

def int (i : Int) : Json := .number (.int i)

def nat (n : Nat) : Json := .number (.int n)

def float (f : F64) : Json := .number (.float f)

end Json

def Point.toValue (p : Point) : Json := .object [("x", .int p.x), ("y", .int p.y)]

def Target.toValue : Target → Json
  | absolute p => p.toValue
  | expression s => .string s

def Button.toValue : Button → Json
  | left => .string "left"
  | right => .string "right"
  | middle => .string "middle"

def Modifier.toValue : Modifier → Json
  | cmd => .string "cmd"
  | shift => .string "shift"
  | alt => .string "alt"
  | ctrl => .string "ctrl"

def OnTimeout.toValue : OnTimeout → Json
  | fail => .string "fail"
  | continue_ => .string "continue"
  | retry => .string "retry"

def OnFail.toValue : OnFail → Json
  | fail => .string "fail"
  | continue_ => .string "continue"

/-- `serde_json::to_value` of a step, with the fields serde skips at their default. -/
def Step.toValue : Step → Json
  | move at_ => .object [("kind", .string "move"), ("at", at_.toValue)]
  | click at_ button => .object ([("kind", .string "click"), ("at", at_.toValue)] ++
      if button = .left then [] else [("button", button.toValue)])
  | type text => .object [("kind", .string "type"), ("text", .string text)]
  | key name modifiers => .object ([("kind", .string "key"), ("key", .string name)] ++
      if modifiers = [] then [] else [("modifiers", .array (modifiers.map Modifier.toValue))])
  | scroll at_ dx dy => .object
      [("kind", .string "scroll"), ("at", at_.toValue), ("dx", .int dx), ("dy", .int dy)]
  | waitFor predicate timeoutMs onTimeout => .object [("kind", .string "wait_for"),
      ("predicate", .string predicate), ("timeout_ms", .nat timeoutMs.toNat),
      ("on_timeout", onTimeout.toValue)]
  | assert predicate onFail => .object [("kind", .string "assert"),
      ("predicate", .string predicate), ("on_fail", onFail.toValue)]
  | sleepMs ms => .object [("kind", .string "sleep_ms"), ("ms", .nat ms.toNat)]

inductive EventData
  | programSubmitted (programId : ProgramId) (name : String)
  | programStateChanged (programId : ProgramId) (from_ to_ : ProgramState) (reason : String)
  | programCompleted (programId : ProgramId) (emit : Option String)
  | programFailed (programId : ProgramId) (reason : String) (step emit : Option String)
  | programResumed (programId : ProgramId) (fromStep : Nat)
  | watchFired (programId : ProgramId) (watchIndex : Nat) (predicate : String)
  | actionDispatched (programId : ProgramId) (step : Json) (target : Option Point)
  | actionDeferred (programId : ProgramId) (step reason : Json)
  | tickFrameSkipped (reason : String)
  | daemonPressure (tickBudgetMs : UInt32)
  | streamDropped (count : UInt32) (since : UnixMs)
  | capturePermissionMissing (backend : String)
  | daemonStarted (version : String)
  | daemonStopped

structure Event where
  at_ : UnixMs
  data : EventData

/-- The program an event is about; `none` for daemon-scoped events. -/
def EventData.programIdOf : EventData → Option ProgramId
  | programSubmitted id _ | programStateChanged id _ _ _ | programCompleted id _
  | programFailed id _ _ _ | programResumed id _ | watchFired id _ _
  | actionDispatched id _ _ | actionDeferred id _ _ => some id
  | tickFrameSkipped _ | daemonPressure _ | streamDropped _ _ | capturePermissionMissing _
  | daemonStarted _ | daemonStopped => none

end Vcli

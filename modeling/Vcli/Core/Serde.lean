import Vcli.Core.Canonical

/-! The documents of the DSL as JSON values: what `to_value` makes of them, and what `from_value`
accepts. The parser of identifiers is a parameter. -/

namespace Vcli

section Encode

def F64.toValue (f : F64) : Json := if f.isFinite then .float f else .null

def Rect.toValue (r : Rect) : Json :=
  .object [("x", .int r.x), ("y", .int r.y), ("w", .int r.w), ("h", .int r.h)]

def Size.toValue (s : Size) : Json := .object [("w", .int s.w), ("h", .int s.h)]

def Anchor.toValue : Anchor → Json
  | match_ => .string "match"

def optional (name : String) (v : Option Json) : List (String × Json) := v.toList.map (name, ·)

def Region.toValue : Region → Json
  | absolute rect => .object [("kind", .string "absolute"), ("box", rect.toValue)]
  | window app titleContains windowIndex => .object ([("kind", .string "window"),
      ("app", .string app)] ++ optional "title_contains" (titleContains.map .string) ++
      optional "window_index" (windowIndex.map fun i => .nat i.toNat))
  | relativeTo predicate anchor offset size => .object ([("kind", .string "relative_to"),
      ("predicate", .string predicate), ("anchor", anchor.toValue), ("offset", offset.toValue)] ++
      optional "size" (size.map Size.toValue))

def Rgb.toValue (c : Rgb) : Json := .array [.nat c.r.toNat, .nat c.g.toNat, .nat c.b.toNat]

def PredicateKind.toValue : PredicateKind → Json
  | template image confidence region throttleMs => .object [("kind", .string "template"),
      ("image", .string image), ("confidence", confidence.toValue), ("region", region.toValue),
      ("throttle_ms", .nat throttleMs.toNat)]
  | colorAt point rgb tolerance => .object [("kind", .string "color_at"),
      ("point", point.toValue), ("rgb", rgb.toValue), ("tolerance", .nat tolerance.toNat)]
  | pixelDiff region baseline threshold => .object [("kind", .string "pixel_diff"),
      ("region", region.toValue), ("baseline", .string baseline),
      ("threshold", threshold.toValue)]
  | allOf of => .object [("kind", .string "all_of"), ("of", .array (of.map .string))]
  | anyOf of => .object [("kind", .string "any_of"), ("of", .array (of.map .string))]
  | not of => .object [("kind", .string "not"), ("of", .string of)]
  | elapsedMsSinceTrue predicate ms => .object [("kind", .string "elapsed_ms_since_true"),
      ("predicate", .string predicate), ("ms", .nat ms.toNat)]

def WatchWhen.toValue : WatchWhen → Json
  | byName name => .string name
  | inline p => p.toValue

def Lifetime.toValue : Lifetime → Json
  | oneShot => .object [("kind", .string "one_shot")]
  | persistent => .object [("kind", .string "persistent")]
  | untilPredicate name => .object [("kind", .string "until_predicate"), ("name", .string name)]
  | timeoutMs ms => .object [("kind", .string "timeout_ms"), ("ms", .nat ms.toNat)]

def Watch.toValue (w : Watch) : Json :=
  .object [("when", w.when_.toValue), ("do", .array (w.steps.map Step.toValue)),
    ("throttle_ms", .nat w.throttleMs.toNat), ("lifetime", w.lifetime.toValue)]

def Trigger.toValue : Trigger → Json
  | onSubmit => .object [("kind", .string "on_submit")]
  | onPredicate name => .object [("kind", .string "on_predicate"), ("name", .string name)]
  | manual => .object [("kind", .string "manual")]

def emitter (emit : String) : Json := .object [("emit", .string emit)]

def mapToValue {α : Type} (toValue : α → Json) (m : Std.ExtTreeMap String α) : Json :=
  .object (m.toList.map fun e => (e.1, toValue e.2))

def Program.toValue (p : Program) : Json :=
  .object ([("version", .string p.version), ("name", .string p.name)] ++
    optional "id" (p.id.map fun id => .string id.toString) ++
    [("trigger", p.trigger.toValue), ("predicates", mapToValue PredicateKind.toValue p.predicates)] ++
    (if p.watches = [] then [] else [("watches", .array (p.watches.map Watch.toValue))]) ++
    [("body", .array (p.body.map Step.toValue))] ++
    optional "on_complete" (p.onComplete.map emitter) ++
    optional "on_fail" (p.onFail.map emitter) ++
    optional "timeout_ms" (p.timeoutMs.map fun ms => .nat ms.toNat) ++
    (if p.labels.isEmpty then [] else [("labels", mapToValue .string p.labels)]) ++
    if p.priority = 0 then [] else [("priority", .int p.priority)])

end Encode

def F64.ofNat (n : Nat) : F64 :=
  if n = 0 then ⟨0#64⟩
  else
    let e := Nat.log2 n
    let significand :=
      if e ≤ 52 then n * 2 ^ (52 - e)
      else
        let q := n / 2 ^ (e - 52)
        let r := n % 2 ^ (e - 52)
        let half := 2 ^ (e - 53)
        if half < r ∨ r = half ∧ q % 2 = 1 then q + 1 else q
    ⟨BitVec.ofNat 64 ((e + 1022) * 2 ^ 52 + significand)⟩

def F64.ofInt (i : Int) : F64 :=
  if i < 0 then ⟨(F64.ofNat i.natAbs).bits ||| 0x8000000000000000#64⟩ else F64.ofNat i.natAbs

namespace Decode

def record (names : List String) : Json → Option (String → Option Json)
  | .object entries => some fun n => entries.lookup n
  | .array items =>
    if items.length ≤ names.length then some fun n => items[names.idxOf n]? else none
  | _ => none

def tagged : Json → Option (Json × Json)
  | .object entries => (entries.lookup "kind").map fun tag => (tag, .object entries)
  | .array (tag :: rest) => some (tag, .array rest)
  | _ => none

def variant (buffered : Bool) (names : List String) : Json → Option String
  | .string s => if s ∈ names then some s else none
  | .number (.int i) => if buffered ∧ 0 ≤ i then names[i.toNat]? else none
  | _ => none

/-- A variant without fields, in a value that serde has buffered: its name, or an object with
nothing under the name. -/
def unitVariant (names : List String) : Json → Option String
  | .string s => if s ∈ names then some s else none
  | .object [(s, .null)] => if s ∈ names then some s else none
  | .object [(s, .object [])] => if s ∈ names then some s else none
  | _ => none

def required {α : Type} (dec : Json → Option α) (v : Option Json) : Option α := v.bind dec

def defaulted {α : Type} (default : α) (dec : Json → Option α) : Option Json → Option α
  | none => some default
  | some v => dec v

def nullable {α : Type} (dec : Json → Option α) : Json → Option (Option α)
  | .null => some none
  | v => (dec v).map some

def string : Json → Option String
  | .string s => some s
  | _ => none

def int (lower upper : Int) : Json → Option Int
  | .number (.int i) => if lower ≤ i ∧ i < upper then some i else none
  | _ => none

def i32 : Json → Option Int := int (-2 ^ 31) (2 ^ 31)

def u32 (v : Json) : Option UInt32 := (int 0 (2 ^ 32) v).map fun i => .ofNat i.toNat

def u16 (v : Json) : Option UInt16 := (int 0 (2 ^ 16) v).map fun i => .ofNat i.toNat

def u8 (v : Json) : Option UInt8 := (int 0 (2 ^ 8) v).map fun i => .ofNat i.toNat

def f64 : Json → Option F64
  | .number (.int i) => some (.ofInt i)
  | .number (.float f) => some f
  | _ => none

def array {α : Type} (dec : Json → Option α) : Json → Option (List α)
  | .array items => items.mapM dec
  | _ => none

def map {α : Type} (dec : Json → Option α) : Json → Option (Std.ExtTreeMap String α)
  | .object entries => do
    let decoded ← entries.mapM fun e => (dec e.2).map (e.1, ·)
    return decoded.foldl (fun m e => m.insert e.1 e.2) ∅
  | _ => none

end Decode

open Decode

section Decoders

def Point.fromValue (v : Json) : Option Point := do
  let f ← record ["x", "y"] v
  return ⟨← required i32 (f "x"), ← required i32 (f "y")⟩

def Rect.fromValue (v : Json) : Option Rect := do
  let f ← record ["x", "y", "w", "h"] v
  return ⟨← required i32 (f "x"), ← required i32 (f "y"), ← required i32 (f "w"),
    ← required i32 (f "h")⟩

def Size.fromValue (v : Json) : Option Size := do
  let f ← record ["w", "h"] v
  return ⟨← required i32 (f "w"), ← required i32 (f "h")⟩

def Anchor.fromValue (v : Json) : Option Anchor := do
  match ← unitVariant ["match"] v with
  | "match" => return .match_
  | _ => none

def Region.fromValue (v : Json) : Option Region := do
  let (tag, body) ← tagged v
  match ← variant true ["absolute", "window", "relative_to"] tag with
  | "absolute" =>
    let f ← record ["box"] body
    return .absolute (← required Rect.fromValue (f "box"))
  | "window" =>
    let f ← record ["app", "title_contains", "window_index"] body
    return .window (← required string (f "app"))
      (← defaulted none (nullable string) (f "title_contains"))
      (← defaulted none (nullable u32) (f "window_index"))
  | "relative_to" =>
    let f ← record ["predicate", "anchor", "offset", "size"] body
    return .relativeTo (← required string (f "predicate"))
      (← defaulted .match_ Anchor.fromValue (f "anchor"))
      (← defaulted ⟨0, 0⟩ Point.fromValue (f "offset"))
      (← defaulted none (nullable Size.fromValue) (f "size"))
  | _ => none

def Rgb.fromValue : Json → Option Rgb
  | .array [r, g, b] => do return ⟨← u8 r, ← u8 g, ← u8 b⟩
  | _ => none

def PredicateKind.variants : List String :=
  ["template", "color_at", "pixel_diff", "all_of", "any_of", "not", "elapsed_ms_since_true"]

def PredicateKind.fromValue (buffered : Bool) (v : Json) : Option PredicateKind := do
  let (tag, body) ← tagged v
  match ← variant buffered variants tag with
  | "template" =>
    let f ← record ["image", "confidence", "region", "throttle_ms"] body
    return .template (← required string (f "image")) (← required f64 (f "confidence"))
      (← required Region.fromValue (f "region")) (← defaulted 200 u32 (f "throttle_ms"))
  | "color_at" =>
    let f ← record ["point", "rgb", "tolerance"] body
    return .colorAt (← required Point.fromValue (f "point")) (← required Rgb.fromValue (f "rgb"))
      (← required u16 (f "tolerance"))
  | "pixel_diff" =>
    let f ← record ["region", "baseline", "threshold"] body
    return .pixelDiff (← required Region.fromValue (f "region"))
      (← required string (f "baseline")) (← required f64 (f "threshold"))
  | "all_of" =>
    let f ← record ["of"] body
    return .allOf (← required (array string) (f "of"))
  | "any_of" =>
    let f ← record ["of"] body
    return .anyOf (← required (array string) (f "of"))
  | "not" =>
    let f ← record ["of"] body
    return .not (← required string (f "of"))
  | "elapsed_ms_since_true" =>
    let f ← record ["predicate", "ms"] body
    return .elapsedMsSinceTrue (← required string (f "predicate")) (← required u32 (f "ms"))
  | _ => none

def Button.fromValue (v : Json) : Option Button := do
  match ← unitVariant ["left", "right", "middle"] v with
  | "left" => return .left
  | "right" => return .right
  | "middle" => return .middle
  | _ => none

def Modifier.fromValue (v : Json) : Option Modifier := do
  match ← unitVariant ["cmd", "shift", "alt", "ctrl"] v with
  | "cmd" => return .cmd
  | "shift" => return .shift
  | "alt" => return .alt
  | "ctrl" => return .ctrl
  | _ => none

def OnTimeout.fromValue (v : Json) : Option OnTimeout := do
  match ← unitVariant ["fail", "continue", "retry"] v with
  | "fail" => return .fail
  | "continue" => return .continue_
  | "retry" => return .retry
  | _ => none

def OnFail.fromValue (v : Json) : Option OnFail := do
  match ← unitVariant ["fail", "continue"] v with
  | "fail" => return .fail
  | "continue" => return .continue_
  | _ => none

def Target.fromValue (v : Json) : Option Target :=
  match Point.fromValue v with
  | some p => some (.absolute p)
  | none => (string v).map .expression

def Step.variants : List String :=
  ["move", "click", "type", "key", "scroll", "wait_for", "assert", "sleep_ms"]

def Step.fromValue (v : Json) : Option Step := do
  let (tag, body) ← tagged v
  match ← variant false variants tag with
  | "move" =>
    let f ← record ["at"] body
    return .move (← required Target.fromValue (f "at"))
  | "click" =>
    let f ← record ["at", "button"] body
    return .click (← required Target.fromValue (f "at"))
      (← defaulted .left Button.fromValue (f "button"))
  | "type" =>
    let f ← record ["text"] body
    return .type (← required string (f "text"))
  | "key" =>
    let f ← record ["key", "modifiers"] body
    return .key (← required string (f "key"))
      (← defaulted [] (array Modifier.fromValue) (f "modifiers"))
  | "scroll" =>
    let f ← record ["at", "dx", "dy"] body
    return .scroll (← required Target.fromValue (f "at")) (← defaulted 0 i32 (f "dx"))
      (← defaulted 0 i32 (f "dy"))
  | "wait_for" =>
    let f ← record ["predicate", "timeout_ms", "on_timeout"] body
    return .waitFor (← required string (f "predicate")) (← required u32 (f "timeout_ms"))
      (← defaulted .fail OnTimeout.fromValue (f "on_timeout"))
  | "assert" =>
    let f ← record ["predicate", "on_fail"] body
    return .assert (← required string (f "predicate"))
      (← defaulted .fail OnFail.fromValue (f "on_fail"))
  | "sleep_ms" =>
    let f ← record ["ms"] body
    return .sleepMs (← required u32 (f "ms"))
  | _ => none

def WatchWhen.fromValue : Json → Option WatchWhen
  | .string name => some (.byName name)
  | v => (PredicateKind.fromValue true v).map .inline

def unitBody : Json → Option Unit
  | .array (_ :: _) => none
  | _ => some ()

def Lifetime.fromValue (v : Json) : Option Lifetime := do
  let (tag, body) ← tagged v
  match ← variant false ["one_shot", "persistent", "until_predicate", "timeout_ms"] tag with
  | "one_shot" => (unitBody body).map fun _ => .oneShot
  | "persistent" => (unitBody body).map fun _ => .persistent
  | "until_predicate" =>
    let f ← record ["name"] body
    return .untilPredicate (← required string (f "name"))
  | "timeout_ms" =>
    let f ← record ["ms"] body
    return .timeoutMs (← required u32 (f "ms"))
  | _ => none

def Watch.fromValue (v : Json) : Option Watch := do
  let f ← record ["when", "do", "throttle_ms", "lifetime"] v
  return ⟨← required WatchWhen.fromValue (f "when"), ← required (array Step.fromValue) (f "do"),
    ← defaulted 0 u32 (f "throttle_ms"), ← defaulted .persistent Lifetime.fromValue (f "lifetime")⟩

def Trigger.fromValue (v : Json) : Option Trigger := do
  let (tag, body) ← tagged v
  match ← variant false ["on_submit", "on_predicate", "manual"] tag with
  | "on_submit" => (unitBody body).map fun _ => .onSubmit
  | "on_predicate" =>
    let f ← record ["name"] body
    return .onPredicate (← required string (f "name"))
  | "manual" => (unitBody body).map fun _ => .manual
  | _ => none

def emitterFromValue (v : Json) : Option String := do
  let f ← record ["emit"] v
  required string (f "emit")

def Program.fromValue (parseId : String → Option ProgramId) (v : Json) : Option Program := do
  let f ← record ["version", "name", "id", "trigger", "predicates", "watches", "body",
    "on_complete", "on_fail", "timeout_ms", "labels", "priority"] v
  return {
    version := ← required string (f "version")
    name := ← required string (f "name")
    id := ← defaulted none (nullable fun v => (string v).bind parseId) (f "id")
    trigger := ← required Trigger.fromValue (f "trigger")
    predicates := ← defaulted ∅ (map (PredicateKind.fromValue false)) (f "predicates")
    watches := ← defaulted [] (array Watch.fromValue) (f "watches")
    body := ← defaulted [] (array Step.fromValue) (f "body")
    onComplete := ← defaulted none (nullable emitterFromValue) (f "on_complete")
    onFail := ← defaulted none (nullable emitterFromValue) (f "on_fail")
    timeoutMs := ← defaulted none (nullable u32) (f "timeout_ms")
    labels := ← defaulted ∅ (map string) (f "labels")
    priority := ← defaulted 0 i32 (f "priority") }

end Decoders

end Vcli

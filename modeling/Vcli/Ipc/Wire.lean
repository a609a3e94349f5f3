import Vcli.Core.Error
import Vcli.Core.EventCodec

/-! The messages of the socket as JSON values: the request with its operation and parameters, the
response, and the frames of a stream. -/

namespace Vcli

open Decode

namespace Ipc

/-- The correlation id of a request, a `Uuid` as well. -/
structure RequestId where
  uuid : BitVec 128
deriving DecidableEq

def RequestId.toString (id : RequestId) : String := (ProgramId.mk id.uuid).toString

inductive RequestOp
  | submit (program : Json) (baseDir : Option String)
  | list (state : Option String)
  | status (programId : ProgramId)
  | cancel (programId : ProgramId)
  | start (programId : ProgramId)
  | resume (programId : ProgramId) (fromStart : Bool)
  | logs (programId : ProgramId) (follow : Bool)
  | events (follow : Bool)
  | trace (programId : ProgramId)
  | health
  | gc
  | shutdown

structure Request where
  id : RequestId
  op : RequestOp

inductive ResponseBody
  | ok (result : Json)
  | err (error : ErrorPayload)

structure Response where
  id : RequestId
  body : ResponseBody

inductive StreamKind
  | events
  | trace
deriving DecidableEq

structure StreamFrame where
  id : RequestId
  stream : StreamKind
  end_ : Bool
  event : Option Event
  trace : Option Json

def StreamFrame.ofEvent (id : RequestId) (ev : Event) : StreamFrame :=
  ⟨id, .events, false, some ev, none⟩

def StreamFrame.endOfStream (id : RequestId) (kind : StreamKind) : StreamFrame :=
  ⟨id, kind, true, none, none⟩

section Encode

def RequestId.toValue (id : RequestId) : Json := .string id.toString

def RequestOp.toEntries : RequestOp → List (String × Json)
  | submit program baseDir => [("op", .string "submit"),
      ("params", .object (("program", program) :: optional "base_dir" (baseDir.map .string)))]
  | list state => [("op", .string "list"),
      ("params", .object (optional "state" (state.map .string)))]
  | status programId => [("op", .string "status"),
      ("params", .object [("program_id", .string programId.toString)])]
  | cancel programId => [("op", .string "cancel"),
      ("params", .object [("program_id", .string programId.toString)])]
  | start programId => [("op", .string "start"),
      ("params", .object [("program_id", .string programId.toString)])]
  | resume programId fromStart => [("op", .string "resume"),
      ("params", .object [("program_id", .string programId.toString),
        ("from_start", .bool fromStart)])]
  | logs programId follow => [("op", .string "logs"),
      ("params", .object [("program_id", .string programId.toString), ("follow", .bool follow)])]
  | events follow => [("op", .string "events"), ("params", .object [("follow", .bool follow)])]
  | trace programId => [("op", .string "trace"),
      ("params", .object [("program_id", .string programId.toString)])]
  | health => [("op", .string "health")]
  | gc => [("op", .string "gc")]
  | shutdown => [("op", .string "shutdown")]

def Request.toValue (r : Request) : Json := .object (("id", r.id.toValue) :: r.op.toEntries)

def ErrorCode.asStr : ErrorCode → String
  | invalidProgram => "invalid_program"
  | unknownProgram => "unknown_program"
  | badStateTransition => "bad_state_transition"
  | permissionDenied => "permission_denied"
  | captureFailed => "capture_failed"
  | daemonBusy => "daemon_busy"
  | notResumable => "not_resumable"
  | resumePreconditionFailed => "resume_precondition_failed"
  | internal => "internal"

def ErrorPayload.toValue (e : ErrorPayload) : Json :=
  .object ([("code", .string e.code.asStr), ("message", .string e.message)] ++
    optional "path" (e.path.map .string) ++ optional "line" (e.line.map .nat) ++
    optional "column" (e.column.map .nat) ++ optional "span_len" (e.spanLen.map .nat) ++
    optional "hint" (e.hint.map .string))

def ResponseBody.toEntries : ResponseBody → List (String × Json)
  | ok result => [("ok", .bool true), ("result", result)]
  | err error => [("ok", .bool false), ("error", error.toValue)]

def Response.toValue (r : Response) : Json := .object (("id", r.id.toValue) :: r.body.toEntries)

def StreamKind.toValue : StreamKind → Json
  | events => .string "events"
  | trace => .string "trace"

def StreamFrame.toValue (f : StreamFrame) : Json :=
  .object ([("id", f.id.toValue), ("stream", f.stream.toValue)] ++
    optional "end" (if f.end_ then some (.bool true) else none) ++
    optional "event" (f.event.map Event.toValue) ++ optional "trace" f.trace)

end Encode

section Decode
variable (parseId : String → Option ProgramId)

def RequestId.fromValue (v : Json) : Option RequestId :=
  (programId parseId v).map fun id => ⟨id.uuid⟩

/-- The params of a unit variant are left out or `null`. -/
def unitParams (op : RequestOp) : Option Json → Option RequestOp
  | none | some .null => some op
  | _ => none

def programParams (f : String → Option Json) : Option ProgramId := do
  let p ← record ["program_id"] (← f "params")
  required (programId parseId) (p "program_id")

def RequestOp.decoders : List (String × ((String → Option Json) → Option RequestOp)) :=
  [("submit", fun f => do
      let p ← record ["program", "base_dir"] (← f "params")
      return .submit (← required value (p "program"))
        (← defaulted none (nullable string) (p "base_dir"))),
    ("list", fun f => do
      let p ← record ["state"] (← f "params")
      return .list (← defaulted none (nullable string) (p "state"))),
    ("status", fun f => (programParams parseId f).map .status),
    ("cancel", fun f => (programParams parseId f).map .cancel),
    ("start", fun f => (programParams parseId f).map .start),
    ("resume", fun f => do
      let p ← record ["program_id", "from_start"] (← f "params")
      return .resume (← required (programId parseId) (p "program_id"))
        (← defaulted false bool (p "from_start"))),
    ("logs", fun f => do
      let p ← record ["program_id", "follow"] (← f "params")
      return .logs (← required (programId parseId) (p "program_id"))
        (← defaulted false bool (p "follow"))),
    ("events", fun f => do
      let p ← record ["follow"] (← f "params")
      return .events (← defaulted false bool (p "follow"))),
    ("trace", fun f => (programParams parseId f).map .trace),
    ("health", fun f => unitParams .health (f "params")),
    ("gc", fun f => unitParams .gc (f "params")),
    ("shutdown", fun f => unitParams .shutdown (f "params"))]

def RequestOp.fromFields (f : String → Option Json) : Option RequestOp :=
  byTag (decoders parseId) "op" f

def Request.fromValue (v : Json) : Option Request := do
  let f ← fields v
  return ⟨← required (RequestId.fromValue parseId) (f "id"),
    ← RequestOp.fromFields parseId (rest ["id"] f)⟩

def ErrorCode.all : List ErrorCode :=
  [.invalidProgram, .unknownProgram, .badStateTransition, .permissionDenied, .captureFailed,
    .daemonBusy, .notResumable, .resumePreconditionFailed, .internal]

def ErrorCode.fromValue (v : Json) : Option ErrorCode :=
  (unitVariant (all.map ErrorCode.asStr) v).bind fun name =>
    all.find? fun c => decide (c.asStr = name)

def ErrorPayload.fromValue (v : Json) : Option ErrorPayload := do
  let f ← record ["code", "message", "path", "line", "column", "span_len", "hint"] v
  return {
    code := ← required ErrorCode.fromValue (f "code")
    message := ← required string (f "message")
    path := ← defaulted none (nullable string) (f "path")
    line := ← defaulted none (nullable index) (f "line")
    column := ← defaulted none (nullable index) (f "column")
    spanLen := ← defaulted none (nullable index) (f "span_len")
    hint := ← defaulted none (nullable string) (f "hint") }

/-- `OkFlag` and `ErrFlag`: one of the two booleans only. -/
def flag (expected : Bool) : Json → Option Unit
  | .bool b => if b = expected then some () else none
  | _ => none

def ResponseBody.fromFields (f : String → Option Json) : Option ResponseBody :=
  (do
    let _ ← required (flag true) (f "ok")
    return .ok (← required value (f "result"))) <|>
  (do
    let _ ← required (flag false) (f "ok")
    return .err (← required ErrorPayload.fromValue (f "error")))

def Response.fromValue (v : Json) : Option Response := do
  let f ← fields v
  return ⟨← required (RequestId.fromValue parseId) (f "id"),
    ← ResponseBody.fromFields (rest ["id"] f)⟩

def StreamKind.fromValue : Json → Option StreamKind
  | .string "events" | .object [("events", .null)] => some .events
  | .string "trace" | .object [("trace", .null)] => some .trace
  | _ => none

def StreamFrame.fromValue (v : Json) : Option StreamFrame := do
  let f ← record ["id", "stream", "end", "event", "trace"] v
  return {
    id := ← required (RequestId.fromValue parseId) (f "id")
    stream := ← required StreamKind.fromValue (f "stream")
    end_ := ← defaulted false bool (f "end")
    event := ← defaulted none (nullable (Event.fromValue parseId)) (f "event")
    trace := ← defaulted none (nullable value) (f "trace") }

end Decode

end Ipc

end Vcli

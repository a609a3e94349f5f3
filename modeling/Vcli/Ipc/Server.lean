import Vcli.Ipc.Truncation
import Vcli.Ipc.WireRoundtrip
import Vcli.Lib.Channel

/-! One connection of the server. It reads a request, has it handled, writes what answers it and
reads on. A stream is produced by a task of its own, which hands its frames to the connection
through a bounded channel, so the two take turns in any order. -/

namespace Vcli.Ipc

open Transport

inductive Message
  | response (r : Response)
  | frame (f : StreamFrame)

namespace Message

def toValue : Message → Json
  | response r => r.toValue
  | frame f => f.toValue

def fromValue (parseId : String → Option ProgramId) (v : Json) : Option Message :=
  (Response.fromValue parseId v).map .response <|> (StreamFrame.fromValue parseId v).map .frame

def Fits : Message → Prop
  | response r => r.body.Fits
  | frame f => f.Fits

def ReadBack (ρ : F64 → F64) : Message → Prop
  | response r => ∀ v ∈ r.body.payloads, v.ReadBack ρ 1
  | frame f => (∀ ev ∈ f.event, ∀ v ∈ ev.data.payloads, v.ReadBack ρ 2) ∧
      ∀ v ∈ f.trace, v.ReadBack ρ 1 ∧ v ≠ .null

end Message

structure SerdeJson where
  ryu : F64 → List Char
  readF64 : List Char → Option F64
  parseId : String → Option ProgramId
  explain : List UInt8 → String

namespace SerdeJson

def codec {T : Type} (S : SerdeJson) (enc : T → Json)
    (dec : (String → Option ProgramId) → Json → Option T) : Codec T where
  toVec value := .ok ((enc value).encode S.ryu)
  fromSlice bytes :=
    match Json.decode S.readF64 (dec S.parseId) bytes with
    | some value => .ok value
    | none => .error (S.explain bytes)

def requests (S : SerdeJson) : Codec Request := S.codec Request.toValue Request.fromValue

def messages (S : SerdeJson) : Codec Message := S.codec Message.toValue Message.fromValue

/-- Floats are read back up to `ρ`, and ids as they are. -/
structure Sound (S : SerdeJson) (ρ : F64 → F64) : Prop where
  printed : Printed S.ryu S.readF64 ρ
  ids : ∀ id, S.parseId id.toString = some id

end SerdeJson

section Legible
variable {S : SerdeJson} {ρ : F64 → F64}

theorem ResponseBody.fromFields_none {f : String → Option Json} (hok : f "ok" = none) :
    ResponseBody.fromFields f = none := by
  simp [ResponseBody.fromFields, hok, Decode.required]

theorem Response.fromValue_frame (parseId : String → Option ProgramId) (f : StreamFrame) :
    Response.fromValue parseId (f.toValue.renumber ρ) = none := by
  rw [Response.fromValue, StreamFrame.toValue, (rendering_renumber ρ).fields f.nodup_keys]
  have hbody := ResponseBody.fromFields_none (f := Decode.rest ["id"] fun n =>
      ((([("id", f.id.toValue), ("stream", f.stream.toValue)] ++
        optional "end" (if f.end_ then some (.bool true) else none) ++
        optional "event" (f.event.map Event.toValue) ++ optional "trace" f.trace).lookup n).map
        (Json.renumber ρ)))
    (by simp [Decode.rest, List.lookup_cons, List.lookup_append])
  rw [Option.bind_eq_bind, Option.bind_some, hbody]
  exact Option.bind_fun_none _

theorem Request.inverts (hS : S.Sound ρ) {r : Request} (hfits : r.op.Fits)
    (hread : ∀ v ∈ r.op.payloads, v.ReadBack ρ 2) : S.requests.Inverts r := by
  intro bytes hbytes
  obtain rfl := Except.ok.inj hbytes
  have hdepth : r.toValue.depth ≤ 127 := Request.depth_le.mpr fun v hv => (hread v hv).depth
  have hsame : r.op.mapPayloads (Json.renumber ρ) = r.op :=
    RequestOp.mapPayloads_eq_iff.mpr fun v hv => (Json.readBack_iff.mp (hread v hv)).2
  have hdecode : Json.decode S.readF64 (Request.fromValue S.parseId) (r.toValue.encode S.ryu) =
      some r := by
    rw [decode_encode hS.printed _ (Request.wellFormed hfits), if_pos hdepth,
      Request.fromValue_render hS.ids, hsame]
  simp only [SerdeJson.requests, SerdeJson.codec, hdecode]

theorem Message.inverts (hS : S.Sound ρ) {m : Message} (hfits : m.Fits) (hread : m.ReadBack ρ) :
    S.messages.Inverts m := by
  intro bytes hbytes
  obtain rfl := Except.ok.inj hbytes
  have hdecode : Json.decode S.readF64 (Message.fromValue S.parseId) (m.toValue.encode S.ryu) =
      some m := by
    cases m with
    | response r =>
      have hdepth : r.toValue.depth ≤ 127 :=
        Response.depth_le.mpr fun v hv => (hread v hv).depth
      have hsame : r.body.mapPayloads (Json.renumber ρ) = r.body :=
        ResponseBody.mapPayloads_eq_iff.mpr fun v hv => (Json.readBack_iff.mp (hread v hv)).2
      rw [Message.toValue, decode_encode hS.printed _ (Response.wellFormed hfits), if_pos hdepth,
        Message.fromValue, Response.fromValue_render hS.ids ρ hfits, hsame]
      rfl
    | frame f =>
      have hdepth : f.toValue.depth ≤ 127 :=
        StreamFrame.depth_le.mpr ⟨fun ev hev v hv => (hread.1 ev hev v hv).depth,
          fun v hv => (hread.2 v hv).1.depth⟩
      have hsame : f.reread (Json.renumber ρ) = f :=
        StreamFrame.reread_eq_iff.mpr
          ⟨fun ev hev v hv => (Json.readBack_iff.mp (hread.1 ev hev v hv)).2,
            fun v hv => ⟨(Json.readBack_iff.mp (hread.2 v hv).1).2, (hread.2 v hv).2⟩⟩
      rw [Message.toValue, decode_encode hS.printed _ (StreamFrame.wellFormed hfits),
        if_pos hdepth, Message.fromValue, Response.fromValue_frame,
        StreamFrame.fromValue_render hS.ids ρ hfits, hsame]
      rfl
  simp only [SerdeJson.messages, SerdeJson.codec, hdecode]

end Legible

/-- `Display` of the errors that end a connection. -/
def IpcError.toString : IpcError → String
  | io message => "io: " ++ message
  | unexpectedEof got expected => "peer disconnected mid-frame (got " ++ ToString.toString got ++
      " of " ++ ToString.toString expected ++ " bytes)"
  | frameTooLarge len max => "frame too large: " ++ ToString.toString len ++ " bytes (max " ++
      ToString.toString max ++ ")"
  | invalidJson message => "invalid json frame: " ++ message

def Response.err (id : RequestId) (e : ErrorPayload) : Response := ⟨id, .err e⟩

def Response.internal (id : RequestId) (e : IpcError) : Response :=
  .err id { code := .internal, message := e.toString }

def isStreaming : RequestOp → Bool
  | .logs .. | .events .. | .trace .. => true
  | _ => false

def streamKind : RequestOp → StreamKind
  | .trace .. => .trace
  | _ => .events

inductive Poll (κ : Type)
  | pending
  | resumed (task : κ)
  | sending (f : StreamFrame) (task : κ)
  | returned (result : Except IpcError Unit)

/-- A handler in a world of type `ω`. What else it gets to see, it is told; `κ` is where a stream
task is. -/
structure Handler (ω ι κ : Type) where
  handle : ω → ι → RequestId → RequestOp → Except IpcError Response
  handleStream : RequestId → RequestOp → κ
  poll : ω → ι → κ → Poll κ

def streamCapacity : Nat := 64

/-- Where the loop of `handle_connection` is. A task that has returned, failed or panicked has
dropped its sender. -/
inductive Phase (κ : Type)
  | reading
  | handling (id : RequestId) (op : RequestOp)
  | streaming (id : RequestId) (kind : StreamKind) (task : Option κ)
      (rx : Channel StreamFrame streamCapacity)
  | closed (result : Except IpcError Unit)

def Phase.isClosed {κ : Type} : Phase κ → Bool
  | closed _ => true
  | _ => false

theorem Phase.isClosed_iff {κ : Type} {phase : Phase κ} :
    phase.isClosed = true ↔ ∃ result, phase = .closed result := by
  cases phase <;> simp [isClosed]

structure Connection (κ : Type) where
  input : Arrivals UInt8
  sink : Sink
  phase : Phase κ

/-- Whose turn it is. The id of a response to an unreadable frame is made up. With `fail` the
handler errs, and with `abort` the stream task does or panics, for whatever reason. -/
inductive Action (ι : Type)
  | read (fresh : RequestId)
  | answer (told : ι)
  | fail (e : IpcError)
  | poll (told : ι)
  | abort
  | write

namespace Connection

variable {ω ι κ : Type} (S : SerdeJson) (H : Handler ω ι κ)

def accept (input : Arrivals UInt8) : Connection κ := ⟨input, ⟨[], none⟩, .reading⟩

/-- `write_frame` and what comes after it, with the message it was given. -/
def write (c : Connection κ) (m : Message) (next : Phase κ) : Connection κ × List Message :=
  match writeFrame S.messages c.sink m with
  | (.ok (), sink) => ({ c with sink := sink, phase := next }, [m])
  | (.error e, sink) => ({ c with sink := sink, phase := .closed (.error e) }, [m])

def dispatch (c : Connection κ) (req : Request) : Connection κ :=
  { c with
    phase :=
      if isStreaming req.op then
        .streaming req.id (streamKind req.op) (some (H.handleStream req.id req.op)) .empty
      else .handling req.id req.op }

def reject (c : Connection κ) (fresh : RequestId) (e : IpcError) : Connection κ × List Message :=
  match e with
  | .unexpectedEof 0 4 => ({ c with phase := .closed (.ok ()) }, [])
  | .invalidJson _ | .frameTooLarge .. =>
    -- whether this one can be written makes no difference
    let m := .response (.internal fresh e)
    ({ c with sink := (writeFrame S.messages c.sink m).2, phase := .closed (.error e) }, [m])
  | _ => ({ c with phase := .closed (.error e) }, [])

/-- A step of the connection or of its stream task, with the message that it writes. An action
whose turn it is not, or that has to wait, leaves everything as it is. -/
def step (w : ω) (c : Connection κ) : Action ι → Connection κ × List Message
  | .read fresh =>
    match c.phase with
    | .reading =>
      match readFrame S.requests c.input with
      | (.ok req, input) => ({ c with input := input }.dispatch H req, [])
      | (.error e, input) => { c with input := input }.reject S fresh e
    | _ => (c, [])
  | .answer told =>
    match c.phase with
    | .handling id op =>
      match H.handle w told id op with
      | .ok r => c.write S (.response r) .reading
      | .error e => c.write S (.response (.internal id e)) .reading
    | _ => (c, [])
  | .fail e =>
    match c.phase with
    | .handling id _ => c.write S (.response (.internal id e)) .reading
    | _ => (c, [])
  | .poll told =>
    match c.phase with
    | .streaming id kind (some task) rx =>
      match H.poll w told task with
      | .pending => (c, [])
      | .resumed task => ({ c with phase := .streaming id kind (some task) rx }, [])
      | .sending f task =>
        match rx.send? f with
        | some rx => ({ c with phase := .streaming id kind (some task) rx }, [])
        | none => (c, [])
      | .returned _ => ({ c with phase := .streaming id kind none rx }, [])
    | _ => (c, [])
  | .abort =>
    match c.phase with
    | .streaming id kind (some _) rx => ({ c with phase := .streaming id kind none rx }, [])
    | _ => (c, [])
  | .write =>
    match c.phase with
    | .streaming id kind task rx =>
      match rx.recv? with
      | some (f, rx) => c.write S (.frame f) (.streaming id kind task rx)
      | none =>
        -- the channel ends when it is empty and its sender is gone
        match task with
        | some _ => (c, [])
        | none => c.write S (.frame (.endOfStream id kind)) .reading
    | _ => (c, [])

end Connection

end Vcli.Ipc

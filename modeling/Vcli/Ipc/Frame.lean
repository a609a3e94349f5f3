import Vcli.Lib.BigEndian
import Vcli.Lib.Transport

/-! Length-prefixed frames over a byte stream, and the loop that serves a connection. -/

namespace Vcli.Ipc

open Transport

inductive IpcError
  | io (message : String)
  | unexpectedEof (got expected : Nat)
  | frameTooLarge (len max : Nat)
  | invalidJson (message : String)
deriving DecidableEq, Repr

def maxFrameLen : Nat := 4 * 1024 * 1024

/-- `serde_json` for one type of message. -/
structure Codec (T : Type) where
  toVec : T → Except String (List UInt8)
  fromSlice : List UInt8 → Except String T

/-- The writing half of a transport: what has been sent, and how many more bytes go out before
it fails, if it does. -/
structure Sink where
  sent : List UInt8
  fault : Option (Nat × String)

def Sink.writeAll (w : Sink) (bytes : List UInt8) : Except IpcError Unit × Sink :=
  match w.fault with
  | none => (.ok (), { w with sent := w.sent ++ bytes })
  | some (room, message) =>
    if bytes.length ≤ room then
      (.ok (), ⟨w.sent ++ bytes, some (room - bytes.length, message)⟩)
    else (.error (.io message), ⟨w.sent ++ bytes.take room, some (0, message)⟩)

variable {T : Type} (C : Codec T)

def writeFrame (w : Sink) (value : T) : Except IpcError Unit × Sink :=
  match C.toVec value with
  | .error message => (.error (.invalidJson message), w)
  | .ok bytes =>
    if 2 ^ 32 ≤ bytes.length then (.error (.frameTooLarge (2 ^ 32 - 1) maxFrameLen), w)
    else if maxFrameLen < bytes.length then
      (.error (.frameTooLarge bytes.length maxFrameLen), w)
    else
      match w.writeAll (BigEndian.toBytes 4 bytes.length) with
      | (.error e, w) => (.error e, w)
      | (.ok (), w) => w.writeAll bytes

def readFrame (r : Arrivals UInt8) : Except IpcError T × Arrivals UInt8 :=
  match r.fill 4 [] with
  | (.failed message, r) => (.error (.io message), r)
  | (.ended got, r) => (.error (.unexpectedEof got 4), r)
  | (.done hdr, r) =>
    let len := BigEndian.ofBytes hdr
    if maxFrameLen < len then (.error (.frameTooLarge len maxFrameLen), r)
    else
      match r.fill len [] with
      | (.failed message, r) => (.error (.io message), r)
      | (.ended got, r) => (.error (.unexpectedEof got len), r)
      | (.done buf, r) =>
        match C.fromSlice buf with
        | .error message => (.error (.invalidJson message), r)
        | .ok value => (.ok value, r)

theorem readFrame_shrinks {r r' : Arrivals UInt8} {value : T}
    (h : readFrame C r = (.ok value, r')) : r'.contents.length < r.contents.length := by
  unfold readFrame at h
  split at h
  · exact nomatch congrArg Prod.fst h
  · exact nomatch congrArg Prod.fst h
  next hdr r₁ hhdr =>
    have hfirst := Arrivals.fill_contents hhdr
    dsimp only at h
    split at h
    · exact nomatch congrArg Prod.fst h
    split at h
    · exact nomatch congrArg Prod.fst h
    · exact nomatch congrArg Prod.fst h
    next buf r₂ hbuf =>
      have hsecond := Arrivals.fill_contents hbuf
      split at h
      · exact nomatch congrArg Prod.fst h
      obtain ⟨-, rfl⟩ := Prod.mk.inj h
      have hlen₁ := congrArg List.length hfirst.2
      have hlen₂ := congrArg List.length hsecond.2
      simp only [List.nil_append, List.length_append] at hlen₁ hlen₂
      omega

/-- `read_frame` until it fails: the messages, and the failure. -/
def readFrames (r : Arrivals UInt8) : List T × IpcError :=
  match _hread : readFrame C r with
  | (.error e, _) => ([], e)
  | (.ok value, r') =>
    let rest := readFrames r'
    (value :: rest.1, rest.2)
termination_by r.contents.length
decreasing_by exact readFrame_shrinks C ‹_›

def writeFrames (w : Sink) : List T → Except IpcError Unit × Sink
  | [] => (.ok (), w)
  | value :: values =>
    match writeFrame C w value with
    | (.error e, w) => (.error e, w)
    | (.ok (), w) => writeFrames w values

/-- The loop of `handle_connection`. `dispatch` stands for the handler with the frames it sends,
`report` for the response to a frame that cannot be read. -/
def handleConnection (dispatch : T → Sink → Except IpcError Unit × Sink)
    (report : IpcError → Sink → Sink) (w : Sink) (r : Arrivals UInt8) :
    Except IpcError Unit × Sink :=
  match _hread : readFrame C r with
  | (.ok req, r') =>
    match dispatch req w with
    | (.error e, w) => (.error e, w)
    | (.ok (), w) => handleConnection dispatch report w r'
  | (.error e, _) =>
    match e with
    | .unexpectedEof 0 4 => (.ok (), w)
    | .invalidJson _ => (.error e, report e w)
    | .frameTooLarge _ _ => (.error e, report e w)
    | _ => (.error e, w)
termination_by r.contents.length
decreasing_by exact readFrame_shrinks C ‹_›

end Vcli.Ipc

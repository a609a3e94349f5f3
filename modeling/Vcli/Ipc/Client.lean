import Vcli.Ipc.Protocol
import Vcli.Lib.Simulation

/-! A client on the other end of a connection. What one side writes is on its way to the other
until it is read, and the two take their turns in any order. -/

namespace Vcli.Ipc

open Transport Transducer

inductive ClientError
  | transport (e : IpcError)
  | socketSetup (message : String)

def SerdeJson.responses (S : SerdeJson) : Codec Response := S.codec Response.toValue Response.fromValue

def SerdeJson.frames (S : SerdeJson) : Codec StreamFrame :=
  S.codec StreamFrame.toValue StreamFrame.fromValue

/-- An `IpcClient` between two calls or within `request`, or the `ResponseStream` that has taken
its connection. After an error it is dropped. -/
inductive Client
  | idle
  | requested (id : RequestId)
  | streaming (id : RequestId) (done : Bool)
  | gone
deriving DecidableEq

namespace Client

/-- The first half of `request` and of `request_stream`: the bytes of the request. -/
def send (S : SerdeJson) (req : Request) : Except IpcError (List UInt8) :=
  match writeFrame S.requests ⟨[], none⟩ req with
  | (.ok (), sink) => .ok sink.sent
  | (.error e, _) => .error e

def accept (id : RequestId) (resp : Response) : Except ClientError Response :=
  if resp.id ≠ id then
    .error (.socketSetup
      ("response id mismatch: req=" ++ id.toString ++ " resp=" ++ resp.id.toString))
  else .ok resp

def nextFrame (id : RequestId) (f : StreamFrame) : Except ClientError (Option StreamFrame) :=
  if f.id ≠ id then
    .error (.socketSetup
      ("stream frame id mismatch: req=" ++ id.toString ++ " got=" ++ f.id.toString))
  else if f.end_ then .ok none
  else .ok (some f)

def hungUp : Client → Bool
  | streaming .. | gone => true
  | idle | requested _ => false

end Client

structure Session (κ : Type) where
  client : Client
  up : List UInt8
  server : Phase κ
  down : List UInt8

/-- A turn of the client or of the server. The numbers cut what is read into pieces; with the
response to a request, `buffered` more bytes may have been read that are dropped with the buffer. -/
inductive EndMove (ι : Type)
  | request (id : RequestId) (op : RequestOp)
  | response (cuts : List Nat) (buffered : Nat)
  | requestStream (id : RequestId) (op : RequestOp)
  | nextFrame (cuts : List Nat)
  | drop
  | serve (cuts : List Nat) (a : Action ι)

inductive Happening (ω ι : Type)
  | called (req : Request)
  | answered (w : ω) (r : Response)
  | returned (result : Except ClientError Response)
  | subscribed (req : Request)
  | polled (w : ω) (told : ι)
  | aborted
  | yielded (result : Except ClientError (Option StreamFrame))
  | dropped

def Happening.ofMessage {ω ι : Type} (w : ω) : Message → Option (Happening ω ι)
  | .response r => some (.answered w r)
  | .frame _ => none

namespace Session

variable {ω ι κ : Type} (S : SerdeJson) (H : Handler ω ι κ)

def connect : Session κ := ⟨.idle, [], .reading, []⟩

def Waits (open_ : Bool) : IpcError → Bool
  | .unexpectedEof .. => open_
  | _ => false

def request (s : Session κ) (id : RequestId) (op : RequestOp) :
    Session κ × List (Happening ω ι) :=
  match Client.send S ⟨id, op⟩ with
  | .ok bytes => ({ s with client := .requested id, up := s.up ++ bytes }, [.called ⟨id, op⟩])
  | .error e =>
    ({ s with client := .gone }, [.called ⟨id, op⟩, .returned (.error (.transport e))])

def response (s : Session κ) (id : RequestId) (cuts : List Nat) (buffered : Nat) :
    Session κ × List (Happening ω ι) :=
  match readFrame S.responses (.cut cuts s.down) with
  | (.error e, _) =>
    if Waits (!s.server.isClosed) e then (s, [])
    else ({ s with client := .gone }, [.returned (.error (.transport e))])
  | (.ok resp, rest) =>
    let s := { s with down := rest.contents.drop buffered }
    match Client.accept id resp with
    | .ok resp => ({ s with client := .idle }, [.returned (.ok resp)])
    | .error e => ({ s with client := .gone }, [.returned (.error e)])

def requestStream (s : Session κ) (id : RequestId) (op : RequestOp) :
    Session κ × List (Happening ω ι) :=
  match Client.send S ⟨id, op⟩ with
  | .ok bytes =>
    ({ s with client := .streaming id false, up := s.up ++ bytes }, [.subscribed ⟨id, op⟩])
  | .error e =>
    ({ s with client := .gone }, [.subscribed ⟨id, op⟩, .yielded (.error (.transport e))])

/-- `next_frame`. The buffer stays with the stream. -/
def nextFrame (s : Session κ) (id : RequestId) (done : Bool) (cuts : List Nat) :
    Session κ × List (Happening ω ι) :=
  if done then (s, [.yielded (.ok none)])
  else
    match readFrame S.frames (.cut cuts s.down) with
    | (.error e, _) =>
      if Waits (!s.server.isClosed) e then (s, [])
      else ({ s with client := .gone }, [.yielded (.error (.transport e))])
    | (.ok f, rest) =>
      let s := { s with down := rest.contents }
      match Client.nextFrame id f with
      | .ok none => ({ s with client := .streaming id true }, [.yielded (.ok none)])
      | .ok (some f) => (s, [.yielded (.ok (some f))])
      | .error e => ({ s with client := .gone }, [.yielded (.error e)])

def Blocked (s : Session κ) (cuts : List Nat) : Action ι → Bool
  | .read _ =>
    match s.server, readFrame S.requests (.cut cuts s.up) with
    | .reading, (.error e, _) => Waits (!s.client.hungUp) e
    | _, _ => false
  | _ => false

def happenings (w : ω) (s : Session κ) (a : Action ι) (out : List Message) :
    List (Happening ω ι) :=
  match s.server, a with
  | .streaming _ _ (some task) rx, .poll told =>
    match H.poll w told task with
    | .pending => []
    | .sending _ _ => if rx.queued.length < streamCapacity then [.polled w told] else []
    | .resumed _ | .returned _ => [.polled w told]
  | .streaming _ _ (some _) _, .abort => [.aborted]
  | _, _ => out.filterMap (Happening.ofMessage w)

def serve (w : ω) (s : Session κ) (cuts : List Nat) (a : Action ι) :
    Session κ × List (Happening ω ι) :=
  if s.Blocked S cuts a then (s, [])
  else
    let r := Connection.step S H w ⟨.cut cuts s.up, ⟨[], none⟩, s.server⟩ a
    ({ s with up := r.1.input.contents, server := r.1.phase, down := s.down ++ r.1.sink.sent },
      s.happenings H w a r.2)

/-- A turn in the world `w`. A turn that nobody can take leaves everything as it is. -/
def step (s : Session κ) (turn : ω × EndMove ι) : Session κ × List (Happening ω ι) :=
  match s.client, turn.2 with
  | .idle, .request id op => s.request S id op
  | .idle, .requestStream id op => s.requestStream S id op
  | .idle, .drop => ({ s with client := .gone }, [.dropped])
  | .requested id, .response cuts buffered => s.response S id cuts buffered
  | .streaming id done, .nextFrame cuts => s.nextFrame S id done cuts
  | _, .serve cuts a => s.serve S H turn.1 cuts a
  | _, _ => (s, [])

end Session

end Vcli.Ipc

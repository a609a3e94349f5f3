import Vcli.Daemon.EventHistory
import Vcli.Daemon.Mirror
import Vcli.Daemon.Publish
import Vcli.Ipc.Protocol
import Vcli.Runtime.Emission
import Vcli.Store.Assets

/-! The daemon's `Handler`: a response to every request that is no stream, and the task behind
every one that is. -/

namespace Vcli

open Ipc

def ProgramState.parse (s : String) : Option ProgramState :=
  [pending, waiting, running, blocked, completed, failed, cancelled].find? fun st => st.asStr == s

structure ProgramRow.Fits (row : ProgramRow) : Prop where
  submittedAt : InI64 row.submittedAt
  startedAt : ∀ t ∈ row.startedAt, InI64 t
  finishedAt : ∀ t ∈ row.finishedAt, InI64 t
  bodyCursor : row.bodyCursor < 2 ^ 32

structure GcReport.Fits (r : GcReport) : Prop where
  programsDeleted : r.programsDeleted < 2 ^ 32
  assetsDeleted : r.assetsDeleted < 2 ^ 32
  blobsDeleted : r.blobsDeleted < 2 ^ 32
  orphanBlobsDeleted : r.orphanBlobsDeleted < 2 ^ 32

namespace DaemonHandler

/-- What the store, the scheduler and the clock tell the handler. The outer error of a blocking
task is that it panicked, and `sent` whether a command went to the scheduler. -/
structure Told where
  nowMs : UnixMs
  uptimeMs : Nat
  submit : Json → Option String → Except ErrorPayload (ProgramId × String)
  listPrograms : Option ProgramState → Except String (List (ProgramId × ProgramRow))
  getProgram : ProgramId → Except String (Except StoreError ProgramRow)
  sent : Bool
  resume : ProgramId → Bool → Except String (Except ErrorPayload Nat)
  gcAll : Except String (Except StoreError GcReport)
  historyRead : Bool
  eventsClosed : Bool

structure Told.Fits (t : Told) : Prop where
  nowMs : InI64 t.nowMs
  uptimeMs : t.uptimeMs < 2 ^ 64
  submit : ∀ program baseDir e, t.submit program baseDir = .error e → e.Fits
  listPrograms : ∀ filter rows, t.listPrograms filter = .ok rows → ∀ r ∈ rows, r.2.Fits
  getProgram : ∀ id row, t.getProgram id = .ok (.ok row) → row.Fits
  resumeError : ∀ id fromStart e, t.resume id fromStart = .ok (.error e) → e.Fits
  resume : ∀ id fromStart step, t.resume id fromStart = .ok (.ok step) → step < 2 ^ 32
  gcAll : ∀ r, t.gcAll = .ok (.ok r) → r.Fits

theorem Told.Fits.sent {t : Told} (h : t.Fits) (sent : Bool) : { t with sent := sent }.Fits :=
  ⟨h.1, h.2, h.3, h.4, h.5, h.6, h.7, h.8⟩

theorem Told.Fits.historyRead {t : Told} (h : t.Fits) (read : Bool) :
    { t with historyRead := read }.Fits := ⟨h.1, h.2, h.3, h.4, h.5, h.6, h.7, h.8⟩

def simple (code : Ipc.ErrorCode) (message : String) : ResponseBody :=
  .err { code := code, message := message }

def stamp : Option UnixMs → Json
  | some t => .int t
  | none => .null

section Bodies
variable (told : Told)

def handleSubmit (program : Json) (baseDir : Option String) : ResponseBody :=
  match told.submit program baseDir with
  | .ok (pid, name) =>
    if told.sent then .ok (.object [("program_id", .string pid.toString), ("name", .string name)])
    else simple .daemonBusy "scheduler command queue full"
  | .error e => .err e

def handleList (state : Option String) : ResponseBody :=
  match told.listPrograms (state.bind ProgramState.parse) with
  | .ok rows =>
    .ok (.object [("items", .array (rows.map fun r => .object
      [("program_id", .string r.1.toString), ("name", .string r.2.name),
        ("state", .string r.2.state.asStr), ("submitted_at", .int r.2.submittedAt)]))])
  | .error text => simple .internal text

def handleStatus (pid : ProgramId) : ResponseBody :=
  match told.getProgram pid with
  | .ok (.ok r) =>
    .ok (.object [("id", .string pid.toString), ("name", .string r.name),
      ("state", .string r.state.asStr), ("body_cursor", .nat r.bodyCursor),
      ("submitted_at", .int r.submittedAt), ("started_at", stamp r.startedAt),
      ("finished_at", stamp r.finishedAt)])
  | .ok (.error (.unknownProgram _)) => simple .unknownProgram "not found"
  | .ok (.error e) => simple .internal e.toString
  | .error text => simple .internal text

def handleCommand (pid : ProgramId) : ResponseBody :=
  if told.sent then .ok (.object [("program_id", .string pid.toString)])
  else simple .daemonBusy "cmd queue full"

def handleResume (pid : ProgramId) (fromStart : Bool) : ResponseBody :=
  match told.resume pid fromStart with
  | .ok (.ok fromStep) =>
    .ok (.object [("program_id", .string pid.toString), ("from_step", .nat fromStep)])
  | .ok (.error e) => .err e
  | .error text => simple .internal text

def handleGc : ResponseBody :=
  match told.gcAll with
  | .ok (.ok r) =>
    .ok (.object [("programs_deleted", .nat r.programsDeleted),
      ("assets_deleted", .nat r.assetsDeleted), ("blobs_deleted", .nat r.blobsDeleted),
      ("orphan_blobs_deleted", .nat r.orphanBlobsDeleted)])
  | .ok (.error e) => simple .internal e.toString
  | .error text => simple .internal text

def handleHealth : ResponseBody :=
  .ok (.object [("version", .string "0.0.1"), ("uptime_ms", .nat told.uptimeMs),
    ("socket_origin", .string "resolved")])

def respond (debug : RequestOp → String) : RequestOp → ResponseBody
  | .health => handleHealth told
  | .shutdown => .ok (.object [("bye", .bool true)])
  | .submit program baseDir => handleSubmit told program baseDir
  | .list state => handleList told state
  | .status pid => handleStatus told pid
  | .cancel pid | .start pid => handleCommand told pid
  | .resume pid fromStart => handleResume told pid fromStart
  | .gc => handleGc told
  | other => simple .internal ("op not yet wired: " ++ debug other)

def Told.commands : RequestOp → Bool
  | .submit program baseDir => (told.submit program baseDir).isOk
  | .resume pid fromStart => match told.resume pid fromStart with
    | .ok (.ok _) => true
    | _ => false
  | .cancel _ | .start _ | .shutdown => true
  | _ => false

end Bodies

section Readable
variable {told : Told}

theorem stamp_wellFormed {t : Option UnixMs} (h : ∀ x ∈ t, InI64 x) : (stamp t).WellFormed := by
  cases t with
  | none => trivial
  | some x => exact wellFormed_int (h x rfl)

theorem stamp_readBack {ρ : F64 → F64} {around : Nat} (t : Option UnixMs) :
    (stamp t).ReadBack ρ around ↔ around ≤ 127 := by
  cases t <;> simp [stamp]

theorem simple_fits (code : Ipc.ErrorCode) (message : String) : (simple code message).Fits :=
  ⟨nofun, nofun, nofun⟩

theorem handleList_fits (h : told.Fits) (state : Option String) : (handleList told state).Fits := by
  unfold handleList
  split
  · next rows hrows =>
    refine wellFormed_object (by simp) (filled_cons (Json.each_array.mpr fun v hv => ?_) filled_nil)
    obtain ⟨r, hr, rfl⟩ := List.mem_map.mp hv
    have hat := wellFormed_int (h.listPrograms _ rows hrows r hr).submittedAt
    exact wellFormed_object (by simp) (filled_cons (wellFormed_string _) (filled_cons
      (wellFormed_string _) (filled_cons (wellFormed_string _) (filled_cons hat filled_nil))))
  · exact simple_fits _ _

theorem handleStatus_fits (h : told.Fits) (pid : ProgramId) : (handleStatus told pid).Fits := by
  unfold handleStatus
  split
  · next r hr =>
    have hrow := h.getProgram pid r hr
    exact wellFormed_object (by simp) (filled_cons (wellFormed_string _) (filled_cons
      (wellFormed_string _) (filled_cons (wellFormed_string _) (filled_cons
        (wellFormed_nat hrow.bodyCursor) (filled_cons (wellFormed_int hrow.submittedAt)
          (filled_cons (stamp_wellFormed hrow.startedAt) (filled_cons
            (stamp_wellFormed hrow.finishedAt) filled_nil)))))))
  · exact simple_fits _ _
  · exact simple_fits _ _
  · exact simple_fits _ _

theorem handleResume_fits (h : told.Fits) (pid : ProgramId) (fromStart : Bool) :
    (handleResume told pid fromStart).Fits := by
  unfold handleResume
  split
  · next fromStep hstep =>
    exact wellFormed_object (by simp) (filled_cons (wellFormed_string _) (filled_cons
      (wellFormed_nat (h.resume _ _ _ hstep)) filled_nil))
  · next e he => exact h.resumeError _ _ _ he
  · exact simple_fits _ _

theorem handleGc_fits (h : told.Fits) : (handleGc told).Fits := by
  unfold handleGc
  split
  · next r hr =>
    have hr := h.gcAll r hr
    exact wellFormed_object (by simp) (filled_cons (wellFormed_nat hr.programsDeleted) (filled_cons
      (wellFormed_nat hr.assetsDeleted) (filled_cons (wellFormed_nat hr.blobsDeleted) (filled_cons
        (wellFormed_nat hr.orphanBlobsDeleted) filled_nil))))
  · exact simple_fits _ _
  · exact simple_fits _ _

/-- Every answer is one that its types can hold. -/
theorem respond_fits (h : told.Fits) (debug : RequestOp → String) (op : RequestOp) :
    (respond told debug op).Fits := by
  cases op with
  | submit program baseDir =>
    rw [respond, handleSubmit]
    split
    · split_ifs
      · exact wellFormed_object (by simp) (filled_cons (wellFormed_string _) (filled_cons
          (wellFormed_string _) filled_nil))
      · exact simple_fits _ _
    · next e he => exact h.submit _ _ e he
  | list state => exact handleList_fits h state
  | status pid => exact handleStatus_fits h pid
  | cancel pid | start pid =>
    rw [respond, handleCommand]
    split_ifs
    · exact wellFormed_object (by simp) (filled_cons (wellFormed_string _) filled_nil)
    · exact simple_fits _ _
  | resume pid fromStart => exact handleResume_fits h pid fromStart
  | gc => exact handleGc_fits h
  | shutdown => exact wellFormed_object (by simp) (filled_cons trivial filled_nil)
  | health =>
    have huptime : (Json.nat told.uptimeMs).WellFormed := by
      have hlt := h.uptimeMs
      show (-2 ^ 63 : Int) ≤ told.uptimeMs ∧ (told.uptimeMs : Int) < 2 ^ 64
      omega
    exact wellFormed_object (by simp) (filled_cons (wellFormed_string _) (filled_cons huptime
      (filled_cons (wellFormed_string _) filled_nil)))
  | logs | events | trace => exact simple_fits _ _

theorem respond_readBack (debug : RequestOp → String) (op : RequestOp) (ρ : F64 → F64) :
    ∀ v ∈ (respond told debug op).payloads, v.ReadBack ρ 1 := by
  cases op with
  | submit =>
    rw [respond, handleSubmit]
    split
    · split_ifs <;> simp [ResponseBody.payloads, simple]
    · simp [ResponseBody.payloads]
  | list =>
    rw [respond, handleList]
    split
    · refine List.forall_mem_singleton.mpr ?_
      simp only [Json.readBack_object, List.forall_mem_singleton, Json.readBack_array,
        List.forall_mem_map]
      refine ⟨by decide, by decide, fun r _ => ?_⟩
      simp
    · simp [ResponseBody.payloads, simple]
  | status =>
    rw [respond, handleStatus]
    split <;> simp [ResponseBody.payloads, simple, stamp_readBack]
  | cancel | start =>
    rw [respond, handleCommand]
    split_ifs <;> simp [ResponseBody.payloads, simple]
  | resume =>
    rw [respond, handleResume]
    split <;> simp [ResponseBody.payloads, simple]
  | gc =>
    rw [respond, handleGc]
    split <;> simp [ResponseBody.payloads, simple]
  | health | shutdown => simp [respond, handleHealth, ResponseBody.payloads]
  | logs | events | trace => simp [respond, simple, ResponseBody.payloads]

end Readable

def broadcastCapacity : Nat := 1024

/-- Where the task of a stream is: at the start of `handle_stream`, with what is left of the
history, waiting for the next event, or waiting to send one. -/
inductive Stage
  | entered (op : RequestOp)
  | sending (frames : List StreamFrame)
  | following (filterProgram : Option ProgramId) (next : Nat)
  | offering (filterProgram : Option ProgramId) (next : Nat) (f : StreamFrame)

structure Task where
  id : RequestId
  stage : Stage

def dropped (id : RequestId) (nowMs : UnixMs) (n : Nat) : StreamFrame :=
  .ofEvent id ⟨nowMs, .streamDropped (UInt32.ofNat (min n (2 ^ 32 - 1))) nowMs⟩

section Stream
variable {σ τ α : Type} (S : SerdeJson) (w : Broadcasting σ τ α) (told : Told) (id : RequestId)

/-- The start of `stream_events`. A history that cannot be read is empty. -/
def streamEvents (filterProgram : Option ProgramId) (follow : Bool) : Stage :=
  if follow then .following filterProgram w.sent.length
  else .sending
    (if told.historyRead then streamHistory S.readF64 S.parseId id filterProgram
      (w.daemon.store.events.map (StoredEvent.row S.ryu)) else [])

def followEvents (filterProgram : Option ProgramId) (next : Nat) : Poll Task :=
  match Broadcast.recv broadcastCapacity w.sent next with
  | .entry ev next =>
    if filterProgram.all fun p => decide (ev.data.programIdOf = some p) then
      .resumed ⟨id, .offering filterProgram next (.ofEvent id ev)⟩
    else .resumed ⟨id, .following filterProgram next⟩
  | .lagged n next => .resumed ⟨id, .offering filterProgram next (dropped id told.nowMs n)⟩
  | .empty => if told.eventsClosed then .returned (.ok ()) else .pending

/-- The next turn of `handle_stream`. That a send fails is not seen here: the connection is
gone then, and nothing is left to be sent. -/
def pollStream (task : Task) : Poll Task :=
  match task.stage with
  | .entered (.events follow) => .resumed ⟨task.id, streamEvents S w told task.id none follow⟩
  | .entered (.logs pid follow) =>
    .resumed ⟨task.id, streamEvents S w told task.id (some pid) follow⟩
  | .entered (.trace _) => .returned (.ok ())
  | .entered _ => .resumed ⟨task.id, .sending [.endOfStream task.id .events]⟩
  | .sending [] => .returned (.ok ())
  | .sending (f :: frames) => .sending f ⟨task.id, .sending frames⟩
  | .following filterProgram next => followEvents w told task.id filterProgram next
  | .offering filterProgram next f => .sending f ⟨task.id, .following filterProgram next⟩

end Stream

def handler {σ τ α : Type} (S : SerdeJson) (debug : RequestOp → String) :
    Handler (Broadcasting σ τ α) Told Task where
  handle _ told id op := .ok ⟨id, respond told debug op⟩
  handleStream id op := ⟨id, .entered op⟩
  poll := pollStream S

end DaemonHandler

end Vcli

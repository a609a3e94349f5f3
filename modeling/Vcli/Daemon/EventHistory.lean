import Vcli.Ipc.WireRoundtrip
import Vcli.Lib.Selection
import Vcli.Store.Programs

/-! The history that `logs` and `events` stream when they do not follow: one page of the events
table, of which the rows of other programs are then dropped. -/

namespace Vcli

open Ipc

def EventData.typeTag : EventData → String
  | programSubmitted .. => "program.submitted"
  | programStateChanged .. => "program.state_changed"
  | programCompleted .. => "program.completed"
  | programFailed .. => "program.failed"
  | programResumed .. => "program.resumed"
  | watchFired .. => "watch.fired"
  | actionDispatched .. => "action.dispatched"
  | actionDeferred .. => "action.deferred"
  | tickFrameSkipped .. => "tick.frame_skipped"
  | daemonPressure .. => "daemon.pressure"
  | streamDropped .. => "stream.dropped"
  | capturePermissionMissing .. => "capture.permission_missing"
  | daemonStarted .. => "daemon.started"
  | daemonStopped => "daemon.stopped"

/-- A row of `events` as SQLite holds it, the text as its bytes. -/
structure EventRow where
  id : Int
  programId : ProgramId
  typeTag : String
  dataJson : List UInt8
  at_ : UnixMs
deriving DecidableEq

def StoredEvent.row (ryu : F64 → List Char) (e : StoredEvent) : EventRow :=
  ⟨e.id, e.programId, e.event.data.typeTag, e.event.toValue.encode ryu, e.event.at_⟩

def selectEvents (rows : List EventRow) (since : Int) (limit : Nat) : List EventRow :=
  ((rows.filter fun row => decide (since < row.id)).insertionSort fun a b => a.id ≤ b.id).take limit

namespace DaemonHandler

def historyLimit : Nat := 10000

/-- `DaemonHandler::stream_events` without `follow`. A row that cannot be read is passed over. -/
def streamHistory (readF64 : List Char → Option F64) (parseId : String → Option ProgramId)
    (id : RequestId) (filterProgram : Option ProgramId) (rows : List EventRow) :
    List StreamFrame :=
  (selectEvents rows 0 historyLimit).filterMap fun row =>
    if filterProgram.any fun p => decide (p ≠ row.programId) then none
    else (Json.decode readF64 (Event.fromValue parseId) row.dataJson).map (.ofEvent id)

end DaemonHandler

structure EventLog where
  rows : List StoredEvent
  positive : ∀ e ∈ rows, 0 < e.id
  distinct : (rows.map StoredEvent.id).Nodup
  fits : ∀ e ∈ rows, e.event.Fits

namespace EventLog

variable (log : EventLog)

def inOrder : List StoredEvent := log.rows.insertionSort fun a b => a.id ≤ b.id

theorem mem_inOrder {e : StoredEvent} : e ∈ log.inOrder ↔ e ∈ log.rows := List.mem_insertionSort _

def asked (filterProgram : Option ProgramId) : List StoredEvent :=
  log.inOrder.filter fun e => filterProgram.all fun p => decide (p = e.programId)

theorem selectEvents_rows (ryu : F64 → List Char) (limit : Nat) :
    selectEvents (log.rows.map (StoredEvent.row ryu)) 0 limit =
      (log.inOrder.take limit).map (StoredEvent.row ryu) := by
  have hall : (log.rows.map (StoredEvent.row ryu)).filter (fun row => decide (0 < row.id)) =
      log.rows.map (StoredEvent.row ryu) := by
    rw [List.filter_eq_self]
    intro row hrow
    obtain ⟨e, he, rfl⟩ := List.mem_map.mp hrow
    have hpos := log.positive e he
    exact decide_eq_true (show (0 : Int) < e.id by omega)
  have hsort := List.map_insertionSort (fun a b : StoredEvent => a.id ≤ b.id)
    (fun a b : EventRow => a.id ≤ b.id) (StoredEvent.row ryu) log.rows
    fun a _ b _ => Int.ofNat_le.symm
  rw [selectEvents, hall, ← hsort, List.map_take]
  rfl

theorem all_eq_not_any (filterProgram : Option ProgramId) (e : StoredEvent) :
    (filterProgram.all fun p => decide (p = e.programId)) =
      !filterProgram.any fun p => decide (p ≠ e.programId) := by
  cases filterProgram <;> simp

theorem streamHistory_eq (ryu : F64 → List Char) (readF64 : List Char → Option F64)
    (parseId : String → Option ProgramId) (id : RequestId) (filterProgram : Option ProgramId) :
    DaemonHandler.streamHistory readF64 parseId id filterProgram
        (log.rows.map (StoredEvent.row ryu)) =
      ((log.inOrder.take DaemonHandler.historyLimit).filter fun e =>
          filterProgram.all fun p => decide (p = e.programId)).filterMap fun e =>
        (Json.decode readF64 (Event.fromValue parseId) (e.row ryu).dataJson).map (.ofEvent id) := by
  rw [DaemonHandler.streamHistory, selectEvents_rows, List.filterMap_map, List.filterMap_filter]
  apply List.filterMap_congr
  intro e _
  rw [all_eq_not_any]
  show (if filterProgram.any fun p => decide (p ≠ e.programId) then none else _) = _
  cases filterProgram.any fun p => decide (p ≠ e.programId) <;> rfl

def frames (id : RequestId) (filterProgram : Option ProgramId) : List StreamFrame :=
  (log.asked filterProgram).map fun e => .ofEvent id e.event

section Complete
variable {ryu : F64 → List Char} {readF64 : List Char → Option F64} {ρ : F64 → F64}
  (h : Printed ryu readF64 ρ) {parseId : String → Option ProgramId}
  (hid : ∀ id, parseId id.toString = some id)

include h hid

omit log in
theorem decode_row_iff {e : StoredEvent} (he : e.event.Fits) (id : RequestId) :
    (Json.decode readF64 (Event.fromValue parseId) (e.row ryu).dataJson).map (.ofEvent id) =
        some (StreamFrame.ofEvent id e.event) ↔
      ∀ v ∈ e.event.data.payloads, v.ReadBack ρ 1 := by
  have hdepth : e.event.toValue.depth ≤ 127 ↔ ∀ v ∈ e.event.data.payloads, v.depth + 1 ≤ 127 := by
    rw [Event.toValue, depth_object_le, shallow_cons, EventData.shallow_iff]
    exact (and_iff_right (Nat.zero_le 126)).trans
      (forall₂_congr fun v _ => Nat.succ_le_succ_iff.symm)
  have hread : Json.decode readF64 (Event.fromValue parseId) (e.row ryu).dataJson =
      if e.event.toValue.depth ≤ 127 then some (e.event.mapPayloads (Json.renumber ρ)) else none := by
    rw [StoredEvent.row, decode_encode h _ (Event.wellFormed he),
      Event.fromValue_render (rendering_renumber ρ) hid he]
  have hframe : ∀ ev : Event, StreamFrame.ofEvent id ev = .ofEvent id e.event ↔ ev = e.event := by
    intro ev
    simp [StreamFrame.ofEvent]
  simp only [Json.readBack_iff]
  rw [hread, Option.map_eq_some_iff]
  simp only [Option.ite_none_right_eq_some, Option.some.injEq, hframe]
  rw [exists_eq_right, hdepth, Event.mapPayloads_eq_iff, ← forall₂_and]

theorem streamHistory_of_readBack (id : RequestId) (filterProgram : Option ProgramId)
    (hread : ∀ e ∈ log.rows, ∀ v ∈ e.event.data.payloads, v.ReadBack ρ 1) :
    DaemonHandler.streamHistory readF64 parseId id filterProgram
        (log.rows.map (StoredEvent.row ryu)) =
      ((log.inOrder.take DaemonHandler.historyLimit).filter fun e =>
          filterProgram.all fun p => decide (p = e.programId)).map fun e =>
        .ofEvent id e.event := by
  rw [streamHistory_eq, ← List.filterMap_eq_map]
  apply List.filterMap_congr
  intro e he
  have hrow := log.mem_inOrder.mp (List.mem_of_mem_take (List.mem_of_mem_filter he))
  exact (decode_row_iff h hid (log.fits e hrow) id).mpr (hread e hrow)

theorem streamHistory_eq_iff (id : RequestId) (filterProgram : Option ProgramId) :
    DaemonHandler.streamHistory readF64 parseId id filterProgram
        (log.rows.map (StoredEvent.row ryu)) = log.frames id filterProgram ↔
      (∀ e ∈ log.inOrder.drop DaemonHandler.historyLimit, filterProgram.any (· ≠ e.programId)) ∧
        ∀ e ∈ log.asked filterProgram, ∀ v ∈ e.event.data.payloads, v.ReadBack ρ 1 := by
  let page := log.inOrder.take DaemonHandler.historyLimit
  let beyond := log.inOrder.drop DaemonHandler.historyLimit
  let keep : StoredEvent → Bool := fun e => filterProgram.all fun p => decide (p = e.programId)
  have hasked : log.asked filterProgram = page.filter keep ++ beyond.filter keep := by
    rw [← List.filter_append, List.take_append_drop]
    rfl
  have hstream : DaemonHandler.streamHistory readF64 parseId id filterProgram
      (log.rows.map (StoredEvent.row ryu)) = (page.filter keep).filterMap fun e =>
        (Json.decode readF64 (Event.fromValue parseId) (e.row ryu).dataJson).map (.ofEvent id) :=
    log.streamHistory_eq ryu readF64 parseId id filterProgram
  have hbeyond : beyond.filter keep = [] ↔ ∀ e ∈ beyond, filterProgram.any (· ≠ e.programId) := by
    rw [List.filter_eq_nil_iff]
    simp [keep, all_eq_not_any]
  have hfits : ∀ e ∈ page.filter keep, e.event.Fits := by
    intro e he
    exact log.fits e (log.mem_inOrder.mp (List.mem_of_mem_take (List.mem_of_mem_filter he)))
  rw [hstream, frames, hasked, Selection.filterMap_eq_map_append_iff, hbeyond]
  -- once no row is beyond the page, the rows asked for are those of the page
  refine and_congr_right fun hnone => ?_
  rw [hbeyond.mpr hnone, List.append_nil]
  exact forall₂_congr fun e he => decode_row_iff h hid (hfits e he) id

/-- The history of a program is complete if none of its rows comes after the first
`historyLimit` rows of all programs, and that of all events if there are no more rows than that;
the payloads have to be read back as well. -/
theorem history_complete_iff (id : RequestId) :
    (∀ p, DaemonHandler.streamHistory readF64 parseId id (some p)
        (log.rows.map (StoredEvent.row ryu)) = log.frames id (some p) ↔
      (∀ e ∈ log.inOrder.drop DaemonHandler.historyLimit, e.programId ≠ p) ∧
        ∀ e ∈ log.rows, e.programId = p → ∀ v ∈ e.event.data.payloads, v.ReadBack ρ 1) ∧
    (DaemonHandler.streamHistory readF64 parseId id none
        (log.rows.map (StoredEvent.row ryu)) = log.frames id none ↔
      log.rows.length ≤ DaemonHandler.historyLimit ∧
        ∀ e ∈ log.rows, ∀ v ∈ e.event.data.payloads, v.ReadBack ρ 1) := by
  have hlength : log.inOrder.length = log.rows.length := List.length_insertionSort _ _
  constructor
  · intro p
    have hasked : ∀ e, e ∈ log.asked (some p) ↔ e ∈ log.rows ∧ e.programId = p := by
      intro e
      rw [asked, List.mem_filter, mem_inOrder]
      simp [@eq_comm _ p]
    have hany : ∀ e : StoredEvent,
        (some p).any (fun q => decide (q ≠ e.programId)) = true ↔ e.programId ≠ p := by
      intro e
      simp [@eq_comm _ p]
    rw [streamHistory_eq_iff log h hid]
    simp only [hasked, hany, and_imp]
  · rw [streamHistory_eq_iff log h hid]
    have hbeyond : (∀ e ∈ log.inOrder.drop DaemonHandler.historyLimit,
        (none : Option ProgramId).any (· ≠ e.programId)) ↔
          log.rows.length ≤ DaemonHandler.historyLimit := by
      rw [← hlength, ← List.drop_eq_nil_iff, List.eq_nil_iff_forall_not_mem]
      simp
    have hasked : ∀ e, e ∈ log.asked none ↔ e ∈ log.rows := by
      intro e
      simp [asked, mem_inOrder]
    simp only [hbeyond, hasked]

omit h hid log

/-- A row of `p` after `count` rows of another program. -/
def behind (p : ProgramId) (count : Nat) : List StoredEvent :=
  ((List.range count).map fun i => ⟨i + 1, ⟨0#128⟩, ⟨0, .programSubmitted ⟨0#128⟩ "a"⟩⟩) ++
    [⟨count + 1, p, ⟨0, .programSubmitted p "b"⟩⟩]

theorem ids_behind (p : ProgramId) (count : Nat) :
    (behind p count).map StoredEvent.id = (List.range (count + 1)).map (· + 1) := by
  rw [List.range_succ]
  simp [behind]

def ofBehind (p : ProgramId) (count : Nat) : EventLog where
  rows := behind p count
  positive := by
    intro e he
    rcases List.mem_append.mp he with he | he
    · obtain ⟨i, -, rfl⟩ := List.mem_map.mp he
      exact i.succ_pos
    · rw [List.mem_singleton.mp he]
      exact count.succ_pos
  distinct := by
    rw [ids_behind]
    exact List.nodup_range.map fun a b => Nat.succ.inj
  fits := by
    intro e he
    have hzero : InI64 0 := ⟨by decide, by decide⟩
    rcases List.mem_append.mp he with he | he
    · obtain ⟨i, -, rfl⟩ := List.mem_map.mp he
      exact ⟨hzero, trivial⟩
    · rw [List.mem_singleton.mp he]
      exact ⟨hzero, trivial⟩

theorem inOrder_ofBehind (p : ProgramId) (count : Nat) :
    (ofBehind p count).inOrder = behind p count := by
  have hsorted : ((List.range (count + 1)).map (· + 1)).Pairwise (· ≤ ·) := by
    rw [List.pairwise_map]
    exact List.pairwise_lt_range.imp fun hlt => Nat.succ_le_succ (Nat.le_of_lt hlt)
  rw [← ids_behind p, List.pairwise_map] at hsorted
  exact hsorted.insertionSort_eq

theorem payloads_behind {p : ProgramId} {count : Nat} {e : StoredEvent} (he : e ∈ behind p count) :
    e.event.data.payloads = [] := by
  rcases List.mem_append.mp he with he | he
  · obtain ⟨i, -, rfl⟩ := List.mem_map.mp he
    rfl
  · rw [List.mem_singleton.mp he]
    rfl

/-- Two programs with one event each. -/
theorem history_complete_two :
    DaemonHandler.streamHistory readBits readId sampleId (some ⟨1#128⟩)
        ((behind ⟨1#128⟩ 1).map (StoredEvent.row printBits)) =
      (ofBehind ⟨1#128⟩ 1).frames sampleId (some ⟨1#128⟩) ∧
    DaemonHandler.streamHistory readBits readId sampleId none
        ((behind ⟨1#128⟩ 1).map (StoredEvent.row printBits)) =
      (ofBehind ⟨1#128⟩ 1).frames sampleId none := by
  obtain ⟨hlogs, hevents⟩ := history_complete_iff (ofBehind ⟨1#128⟩ 1) shortest_printBits.printed
    readId_toString sampleId
  have hread : ∀ e ∈ (ofBehind ⟨1#128⟩ 1).rows, ∀ v ∈ e.event.data.payloads, v.ReadBack id 1 := by
    intro e he v hv
    rw [payloads_behind he] at hv
    exact absurd hv List.not_mem_nil
  have hbeyond : (ofBehind ⟨1#128⟩ 1).inOrder.drop DaemonHandler.historyLimit = [] := by
    rw [inOrder_ofBehind]
    exact List.drop_eq_nil_of_le (by decide)
  refine ⟨(hlogs ⟨1#128⟩).mpr ⟨?_, fun e he _ => hread e he⟩, hevents.mpr ⟨by decide, hread⟩⟩
  rw [hbeyond]
  nofun

/-- The rows of another program fill the page, and nothing of `p` is streamed. -/
theorem history_behind_lost :
    DaemonHandler.streamHistory readBits readId sampleId (some ⟨1#128⟩)
        ((behind ⟨1#128⟩ 10000).map (StoredEvent.row printBits)) = [] ∧
    (ofBehind ⟨1#128⟩ 10000).frames sampleId (some ⟨1#128⟩) =
      [.ofEvent sampleId ⟨0, .programSubmitted ⟨1#128⟩ "b"⟩] := by
  have hne : (⟨1#128⟩ : ProgramId) ≠ ⟨0#128⟩ := by decide
  constructor
  · have hpage : (behind ⟨1#128⟩ 10000).take DaemonHandler.historyLimit =
        (List.range 10000).map fun i => ⟨i + 1, ⟨0#128⟩, ⟨0, .programSubmitted ⟨0#128⟩ "a"⟩⟩ := by
      rw [behind, DaemonHandler.historyLimit]
      apply List.take_left'
      rw [List.length_map, List.length_range]
    have hselect := (ofBehind ⟨1#128⟩ 10000).selectEvents_rows printBits DaemonHandler.historyLimit
    rw [inOrder_ofBehind, hpage] at hselect
    rw [DaemonHandler.streamHistory]
    refine (congrArg (List.filterMap _) hselect).trans ?_
    rw [List.filterMap_eq_nil_iff]
    intro row hrow
    obtain ⟨e, he, rfl⟩ := List.mem_map.mp hrow
    obtain ⟨i, -, rfl⟩ := List.mem_map.mp he
    exact if_pos (decide_eq_true hne)
  · rw [frames, asked, inOrder_ofBehind, behind, List.filter_append, List.filter_eq_nil_iff.mpr]
    · rfl
    · intro e he
      obtain ⟨i, -, rfl⟩ := List.mem_map.mp he
      exact fun hsame => hne (of_decide_eq_true hsame)

end Complete

end EventLog

end Vcli

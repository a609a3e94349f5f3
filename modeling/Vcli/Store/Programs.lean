import Mathlib.Data.List.Sort
import Vcli.Core.Event
import Vcli.Lib.Table

/-! The store: the `programs` table with its links and event log, over an asset store of type
`α`. SQLite statements fail on constraints only. -/

namespace Vcli

/-- A row of `programs`, under its id. The cursor column only ever gets `u32` values. -/
structure ProgramRow where
  name : String
  sourceJson : String
  state : ProgramState
  submittedAt : UnixMs
  startedAt : Option UnixMs
  finishedAt : Option UnixMs
  lastErrorCode : Option String
  lastErrorMsg : Option String
  labelsJson : String
  bodyCursor : Nat
  bodyEnteredAt : Option UnixMs
deriving DecidableEq

/-- A row of `events`; the payload is the event itself. -/
structure StoredEvent where
  id : Nat
  programId : ProgramId
  event : Event

structure Store (α : Type) where
  programs : Table ProgramId ProgramRow
  programAssets : List (ProgramId × String)
  events : List StoredEvent
  nextEventId : Nat
  assets : α

inductive StoreError
  | constraint
  | unknownProgram (id : ProgramId)
  | notResumable (id : ProgramId) (state : ProgramState) (code : Option String)
deriving DecidableEq

structure NewProgram where
  id : ProgramId
  name : String
  sourceJson : String
  state : ProgramState
  submittedAt : UnixMs
  labelsJson : String

structure RecoveredProgram where
  id : ProgramId
  bodyCursor : Nat
deriving DecidableEq

structure ResumeOutcome where
  fromStep : Nat
deriving DecidableEq

namespace ProgramRow

def ofNew (n : NewProgram) : ProgramRow where
  name := n.name
  sourceJson := n.sourceJson
  state := n.state
  submittedAt := n.submittedAt
  startedAt := none
  finishedAt := none
  lastErrorCode := none
  lastErrorMsg := none
  labelsJson := n.labelsJson
  bodyCursor := 0
  bodyEnteredAt := none

def moved (newState : ProgramState) (nowMs : UnixMs) (row : ProgramRow) : ProgramRow :=
  { row with
    state := newState
    startedAt := row.startedAt.or (if newState = .running then some nowMs else none)
    finishedAt := if newState.isTerminal then some nowMs else row.finishedAt }

def recovered (row : ProgramRow) : ProgramRow :=
  if row.state = .running then
    { row with
      state := .failed
      lastErrorCode := some "daemon_restart"
      lastErrorMsg := some "daemon restarted during execution" }
  else row

def resumable (row : ProgramRow) : Bool :=
  decide (row.state = .failed) && decide (row.lastErrorCode = some "daemon_restart")

def resumed (newCursor : Nat) (nowMs : UnixMs) (row : ProgramRow) : ProgramRow :=
  { row with
    state := .running
    lastErrorCode := none
    lastErrorMsg := none
    bodyCursor := newCursor
    finishedAt := none
    startedAt := row.startedAt.or (some nowMs) }

def expired (olderThan : UnixMs) (row : ProgramRow) : Bool :=
  row.state.isTerminal && match row.finishedAt with
    | some f => decide (f < olderThan)
    | none => false

end ProgramRow

namespace Store

variable {α : Type}

/-- A data directory opened for the first time. -/
def fresh (assets : α) : Store α := ⟨.empty, [], [], 1, assets⟩

def row (s : Store α) (id : ProgramId) : Option ProgramRow := s.programs.get id

def insertProgram (s : Store α) (n : NewProgram) : Except StoreError (Store α) :=
  match s.programs.insert? n.id (.ofNew n) with
  | some programs => .ok { s with programs := programs }
  | none => .error .constraint

def getProgram (s : Store α) (id : ProgramId) : Except StoreError ProgramRow :=
  match s.row id with
  | some row => .ok row
  | none => .error (.unknownProgram id)

/-- An `UPDATE` of one row by id, and whether there was a row to update. -/
def updateRow (s : Store α) (id : ProgramId) (f : ProgramRow → ProgramRow) :
    Except StoreError (Store α) :=
  if (s.row id).isSome then .ok { s with programs := s.programs.update id f }
  else .error (.unknownProgram id)

def updateState (s : Store α) (id : ProgramId) (newState : ProgramState) (nowMs : UnixMs) :
    Except StoreError (Store α) :=
  s.updateRow id (.moved newState nowMs)

def setBodyCursor (s : Store α) (id : ProgramId) (cursor : Nat) : Except StoreError (Store α) :=
  s.updateRow id fun row => { row with bodyCursor := cursor }

/-- Unlike its siblings this one does not look at the number of rows it changed. -/
def setLastError (s : Store α) (id : ProgramId) (code msg : String) :
    Except StoreError (Store α) :=
  .ok { s with programs := s.programs.update id fun row =>
    { row with lastErrorCode := some code, lastErrorMsg := some msg } }

/-- The foreign key refuses an event of a program without a row. -/
def appendEvent (s : Store α) (id : ProgramId) (ev : Event) : Except StoreError (Store α) :=
  if (s.row id).isSome then
    .ok { s with
      events := s.events ++ [⟨s.nextEventId, id, ev⟩]
      nextEventId := s.nextEventId + 1 }
  else .error .constraint

def linkProgramAsset (s : Store α) (id : ProgramId) (hash : String) :
    Except StoreError (Store α) :=
  if (s.row id).isSome then
    .ok { s with programAssets :=
      if (id, hash) ∈ s.programAssets then s.programAssets else s.programAssets ++ [(id, hash)] }
  else .error .constraint

def listPrograms (s : Store α) (stateFilter : Option ProgramState) :
    List (ProgramId × ProgramRow) :=
  (s.programs.rows.filter fun e => match stateFilter with
    | some st => decide (e.2.state = st)
    | none => true).insertionSort fun a b => a.2.submittedAt ≤ b.2.submittedAt

def resumeProgram (s : Store α) (id : ProgramId) (fromStart : Bool) (nowMs : UnixMs) :
    Except StoreError (ResumeOutcome × Store α) :=
  match s.row id with
  | none => .error (.unknownProgram id)
  | some row =>
    if row.resumable then
      let newCursor := if fromStart then 0 else row.bodyCursor
      .ok (⟨newCursor⟩, { s with programs := s.programs.update id (.resumed newCursor nowMs) })
    else .error (.notResumable id row.state row.lastErrorCode)

def recoverRunningPrograms (s : Store α) : List RecoveredProgram × Store α :=
  ((s.programs.rows.filter fun e => decide (e.2.state = .running)).map fun e =>
      ⟨e.1, e.2.bodyCursor⟩,
    { s with programs := s.programs.mapRows fun _ row => row.recovered })

def gcPrograms (s : Store α) (olderThan : UnixMs) : Store α :=
  let kept := s.programs.deleteWhere fun _ row => row.expired olderThan
  { s with
    programs := kept
    programAssets := s.programAssets.filter fun l => (kept.get l.1).isSome
    events := s.events.filter fun e => (kept.get e.programId).isSome }

end Store

end Vcli

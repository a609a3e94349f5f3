import Vcli.Store.Programs

/-! The event pump's half of the persistence pipeline: what one event does to the store, and
to the row of the program it is about. -/

namespace Vcli

variable {α : Type}

def Store.attempt (s : Store α) : Except StoreError (Store α) → Store α
  | .ok s' => s'
  | .error _ => s

def persistProgramEvent (s : Store α) (pid : ProgramId) (ev : Event) : Store α :=
  let s := s.attempt (s.appendEvent pid ev)
  match ev.data with
  | .programStateChanged _ _ to_ _ => s.attempt (s.updateState pid to_ ev.at_)
  | .programCompleted .. => s.attempt (s.updateState pid .completed ev.at_)
  | .programFailed _ reason step _ =>
    let s := s.attempt (s.updateState pid .failed ev.at_)
    s.attempt (s.setLastError pid reason (step.getD reason))
  | .programResumed _ fromStep =>
    let s := s.attempt (s.updateState pid .running ev.at_)
    s.attempt (s.setBodyCursor pid fromStep)
  | _ => s

def pumpEvent (s : Store α) (ev : Event) : Store α :=
  match ev.data.programIdOf with
  | some pid => persistProgramEvent s pid ev
  | none => s

def ProgramRow.after (ev : Event) (row : ProgramRow) : ProgramRow :=
  match ev.data with
  | .programStateChanged _ _ to_ _ => row.moved to_ ev.at_
  | .programCompleted .. => row.moved .completed ev.at_
  | .programFailed _ reason step _ =>
    { row.moved .failed ev.at_ with
      lastErrorCode := some reason
      lastErrorMsg := some (step.getD reason) }
  | .programResumed _ fromStep => { row.moved .running ev.at_ with bodyCursor := fromStep }
  | _ => row

namespace Store

variable {s : Store α} {p q : ProgramId} {f : ProgramRow → ProgramRow}

theorem row_attempt_updateRow :
    (s.attempt (s.updateRow q f)).row p = if p = q then (s.row p).map f else s.row p := by
  have hupdate : (s.programs.update q f).get p =
      if p = q then (s.programs.get p).map f else s.programs.get p := by
    split_ifs with h
    · rw [h, Table.get_update_self]
    · exact Table.get_update_ne f h
  unfold updateRow
  by_cases hq : (s.row q).isSome
  · rw [if_pos hq]
    exact hupdate
  · have hnone : s.row q = none := Option.not_isSome_iff_eq_none.mp hq
    rw [if_neg hq, attempt]
    split_ifs with h
    · rw [h, hnone, Option.map_none]
    · rfl

theorem row_attempt_setLastError (code msg : String) :
    (s.attempt (s.setLastError q code msg)).row p = if p = q then
      (s.row p).map fun row => { row with lastErrorCode := some code, lastErrorMsg := some msg }
    else s.row p := by
  split_ifs with h
  · rw [h]
    exact Table.get_update_self _
  · exact Table.get_update_ne _ h

theorem row_attempt_appendEvent (ev : Event) :
    (s.attempt (s.appendEvent q ev)).row p = s.row p := by
  unfold appendEvent
  split_ifs <;> rfl

theorem row_pumpEvent (ev : Event) :
    (pumpEvent s ev).row p =
      if ev.data.programIdOf = some p then (s.row p).map (ProgramRow.after ev) else s.row p := by
  obtain ⟨at_, data⟩ := ev
  cases data with
  | programStateChanged pid _ to_ _ =>
    simp only [pumpEvent, EventData.programIdOf, persistProgramEvent, updateState,
      row_attempt_updateRow, row_attempt_appendEvent, Option.some.injEq, eq_comm (a := pid)]
    rfl
  | programCompleted pid _ =>
    simp only [pumpEvent, EventData.programIdOf, persistProgramEvent, updateState,
      row_attempt_updateRow, row_attempt_appendEvent, Option.some.injEq, eq_comm (a := pid)]
    rfl
  | programFailed pid reason step _ =>
    simp only [pumpEvent, EventData.programIdOf, persistProgramEvent, updateState,
      row_attempt_setLastError, row_attempt_updateRow, row_attempt_appendEvent,
      Option.some.injEq, eq_comm (a := pid)]
    split_ifs
    · rw [Option.map_map]
      rfl
    · rfl
  | programResumed pid fromStep =>
    simp only [pumpEvent, EventData.programIdOf, persistProgramEvent, updateState, setBodyCursor,
      row_attempt_updateRow, row_attempt_appendEvent, Option.some.injEq, eq_comm (a := pid)]
    split_ifs
    · rw [Option.map_map]
      rfl
    · rfl
  | programSubmitted pid | watchFired pid | actionDispatched pid | actionDeferred pid =>
    refine (row_attempt_appendEvent (q := pid) _).trans ?_
    split
    · exact Option.map_id'.symm
    · rfl
  | tickFrameSkipped | daemonPressure | streamDropped | capturePermissionMissing | daemonStarted
  | daemonStopped => rfl

def aside (s : Store α) : List (ProgramId × String) × α := (s.programAssets, s.assets)

theorem aside_attempt_updateRow : (s.attempt (s.updateRow q f)).aside = s.aside := by
  unfold updateRow
  split_ifs <;> rfl

theorem aside_attempt_appendEvent (ev : Event) :
    (s.attempt (s.appendEvent q ev)).aside = s.aside := by
  unfold appendEvent
  split_ifs <;> rfl

theorem aside_pumpEvent (s : Store α) (ev : Event) : (pumpEvent s ev).aside = s.aside := by
  have hlast : ∀ (t : Store α) (q : ProgramId) (code msg : String),
      (t.attempt (t.setLastError q code msg)).aside = t.aside := fun _ _ _ _ => rfl
  obtain ⟨at_, data⟩ := ev
  cases data <;>
    simp only [pumpEvent, EventData.programIdOf, persistProgramEvent, updateState, setBodyCursor,
      aside_attempt_updateRow, aside_attempt_appendEvent, hlast]

end Store

end Vcli

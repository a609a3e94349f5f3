import Vcli.Daemon.Startup
import Vcli.Daemon.Persist
import Vcli.Lib.History

/-! The time at which a row is said to have finished, which is all that garbage collection goes
by, against the time at which it did. -/

namespace Vcli

open Transducer

/-- The operations of the store that write a row of `programs`. The clock at which the store is
opened again is not told to it. -/
inductive RowOp
  | insertProgram (n : NewProgram)
  | updateState (id : ProgramId) (newState : ProgramState) (nowMs : UnixMs)
  | resumeProgram (id : ProgramId) (fromStart : Bool) (nowMs : UnixMs)
  | setLastError (id : ProgramId) (code msg : String)
  | setBodyCursor (id : ProgramId) (cursor : Nat)
  | reopen (nowMs : UnixMs)

namespace Store

variable {α : Type}

/-- A program is inserted as pending. An operation that errs changes nothing. -/
def apply (s : Store α) : RowOp → Store α
  | .insertProgram n => s.attempt (s.insertProgram { n with state := .pending })
  | .updateState id newState nowMs => s.attempt (s.updateState id newState nowMs)
  | .resumeProgram id fromStart nowMs =>
    s.attempt ((s.resumeProgram id fromStart nowMs).map Prod.snd)
  | .setLastError id code msg => s.attempt (s.setLastError id code msg)
  | .setBodyCursor id cursor => s.attempt (s.setBodyCursor id cursor)
  | .reopen _ => s.recoverRunningPrograms.2

def finishes (s : Store α) : RowOp → List (ProgramId × UnixMs)
  | .updateState id newState nowMs =>
    if (s.row id).isSome ∧ newState.isTerminal then [(id, nowMs)] else []
  | .reopen nowMs => s.recoverRunningPrograms.1.map fun r => (r.id, nowMs)
  | _ => []

def stepRow (s : Store α) (op : RowOp) : Store α × List (ProgramId × UnixMs) :=
  (s.apply op, s.finishes op)

def lastFinish (p : ProgramId) (history : List (ProgramId × UnixMs)) : Option UnixMs :=
  ((history.filter fun e => decide (e.1 = p)).getLast?).map Prod.snd

structure Stamped (s : Store α) (history : List (ProgramId × UnixMs)) : Prop where
  terminal_iff : ∀ p row, s.row p = some row →
    (row.state.isTerminal = true ↔ row.finishedAt.isSome)
  finishedAt : ∀ p row, s.row p = some row → row.state.isTerminal = true →
    row.finishedAt = lastFinish p history
  collected : ∀ p row, s.row p = some row → row.state = .failed → ∀ olderThan,
    (s.gcPrograms olderThan).row p = none ↔ ∃ t ∈ lastFinish p history, t < olderThan

end Store

def ProgramRow.under (p : ProgramId) (row : ProgramRow) : RowOp → ProgramRow
  | .updateState id newState nowMs => if p = id then row.moved newState nowMs else row
  | .resumeProgram id fromStart nowMs =>
    if p = id ∧ row.resumable then row.resumed (if fromStart then 0 else row.bodyCursor) nowMs
    else row
  | .setLastError id code msg =>
    if p = id then { row with lastErrorCode := some code, lastErrorMsg := some msg } else row
  | .setBodyCursor id cursor => if p = id then { row with bodyCursor := cursor } else row
  | .reopen _ => row.recovered
  | .insertProgram _ => row

/-- The operation neither takes a finished program out of its terminal state nor finds one
running when the store is opened. -/
def RowOp.Stamps {α : Type} (s : Store α) : RowOp → Prop
  | .updateState id newState _ => newState.isTerminal = false →
    ∀ row, s.row id = some row → row.state.isTerminal = false
  | .reopen _ => ∀ p row, s.row p = some row → row.state ≠ .running
  | _ => True

namespace Store

variable {α : Type} {s : Store α} {p : ProgramId} {history : List (ProgramId × UnixMs)}

section History

theorem lastFinish_append_ne {added : List (ProgramId × UnixMs)} (h : ∀ e ∈ added, e.1 ≠ p) :
    lastFinish p (history ++ added) = lastFinish p history := by
  have hnil : (added.filter fun e => decide (e.1 = p)) = [] := by
    rw [List.filter_eq_nil_iff]
    exact fun e he heq => h e he (of_decide_eq_true heq)
  rw [lastFinish, List.filter_append, hnil, List.append_nil, lastFinish]

theorem lastFinish_snoc (t : UnixMs) : lastFinish p (history ++ [(p, t)]) = some t := by
  rw [lastFinish, List.filter_append]
  simp

theorem lastFinish_append_at {added : List (ProgramId × UnixMs)} {t : UnixMs}
    (hmem : (p, t) ∈ added) (hall : ∀ e ∈ added, e.2 = t) :
    lastFinish p (history ++ added) = some t := by
  have hin : (p, t) ∈ added.filter fun e => decide (e.1 = p) :=
    List.mem_filter.mpr ⟨hmem, decide_eq_true rfl⟩
  have hne := List.ne_nil_of_mem hin
  rw [lastFinish, List.filter_append, List.getLast?_append_of_ne_nil _ hne,
    List.getLast?_eq_getLast_of_ne_nil hne, Option.map_some]
  have hlast := List.getLast_mem hne
  rw [hall _ (List.mem_of_mem_filter hlast)]

end History

theorem row_apply_resumeProgram (id : ProgramId) (fromStart : Bool) (nowMs : UnixMs) :
    (s.apply (.resumeProgram id fromStart nowMs)).row p =
      (s.row p).map fun row => row.under p (.resumeProgram id fromStart nowMs) := by
  have hsame : ∀ o : Option ProgramRow, o.map (fun row => row) = o := fun o => Option.map_id'
  simp only [apply, Store.resumeProgram, ProgramRow.under]
  by_cases hp : p = id
  · subst hp
    cases hrow : s.row p with
    | none => exact hrow
    | some row =>
      by_cases hres : row.resumable = true
      · simp only [hres, and_self, if_true, Option.map_some]
        refine (Table.get_update_self _).trans ?_
        rw [show s.programs.get p = some row from hrow, Option.map_some]
      · simp only [hres, Option.map_some]
        exact hrow
  · simp only [hp, false_and, if_false, hsame]
    cases s.row id with
    | none => rfl
    | some row' =>
      by_cases hres : row'.resumable = true
      · simp only [hres, if_true]
        exact Table.get_update_ne _ hp
      · simp only [hres]
        rfl

theorem row_apply (op : RowOp) (row : ProgramRow) (h : s.row p = some row) :
    (s.apply op).row p = some (row.under p op) := by
  cases op with
  | insertProgram n =>
    rw [apply, Store.insertProgram]
    cases hins : s.programs.insert? n.id (.ofNew { n with state := .pending }) with
    | none => exact h
    | some programs =>
      obtain ⟨hnone, -, hne⟩ := Table.insert?_eq_some hins
      refine (hne p fun heq => ?_).trans h
      rw [heq] at h
      exact nomatch h.symm.trans hnone
  | updateState id newState nowMs =>
    rw [apply, updateState, row_attempt_updateRow, h, ProgramRow.under]
    split_ifs <;> rfl
  | setLastError id code msg =>
    rw [apply, row_attempt_setLastError, h, ProgramRow.under]
    split_ifs <;> rfl
  | setBodyCursor id cursor =>
    rw [apply, setBodyCursor, row_attempt_updateRow, h, ProgramRow.under]
    split_ifs <;> rfl
  | reopen nowMs => exact row_recover.trans (congrArg _ h)
  | resumeProgram id fromStart nowMs => rw [row_apply_resumeProgram, h, Option.map_some]

theorem row_apply_new (op : RowOp) (h : s.row p = none) {row : ProgramRow}
    (hrow : (s.apply op).row p = some row) :
    row.state = .pending ∧ row.finishedAt = none := by
  cases op with
  | insertProgram n =>
    rw [apply, Store.insertProgram] at hrow
    cases hins : s.programs.insert? n.id (.ofNew { n with state := .pending }) with
    | none =>
      rw [hins] at hrow
      cases h.symm.trans hrow
    | some programs =>
      rw [hins] at hrow
      obtain ⟨-, hself, hne⟩ := Table.insert?_eq_some hins
      by_cases hp : p = n.id
      · subst hp
        cases Option.some.inj (hself.symm.trans hrow)
        exact ⟨rfl, rfl⟩
      · cases h.symm.trans ((hne p hp).symm.trans hrow)
  | updateState id newState nowMs =>
    -- without a row there is nothing to update
    rw [apply, updateState, row_attempt_updateRow, h, Option.map_none, ite_self] at hrow
    cases hrow
  | setLastError id code msg =>
    rw [apply, row_attempt_setLastError, h, Option.map_none, ite_self] at hrow
    cases hrow
  | setBodyCursor id cursor =>
    rw [apply, setBodyCursor, row_attempt_updateRow, h, Option.map_none, ite_self] at hrow
    cases hrow
  | reopen nowMs =>
    rw [apply, row_recover, h] at hrow
    cases hrow
  | resumeProgram id fromStart nowMs =>
    rw [row_apply_resumeProgram, h] at hrow
    cases hrow

theorem stamped_iff : Stamped s history ↔ ∀ p row, s.row p = some row →
    (row.state.isTerminal = true ↔ row.finishedAt.isSome) ∧
      (row.state.isTerminal = true → row.finishedAt = lastFinish p history) := by
  constructor
  · exact fun h p row hrow => ⟨h.terminal_iff p row hrow, h.finishedAt p row hrow⟩
  · intro h
    refine ⟨fun p row hrow => (h p row hrow).1, fun p row hrow => (h p row hrow).2, ?_⟩
    intro p row hrow hfailed olderThan
    have hterminal : row.state.isTerminal = true := by rw [hfailed]; rfl
    have hgc : (s.gcPrograms olderThan).row p = none ↔ row.expired olderThan = true := by
      have hrow' : s.programs.get p = some row := hrow
      show (s.programs.deleteWhere fun _ row => row.expired olderThan).get p = none ↔ _
      rw [Table.get_deleteWhere, hrow']
      by_cases hexp : row.expired olderThan = true <;> simp [hexp]
    rw [hgc, ← (h p row hrow).2 hterminal, ProgramRow.expired, hterminal, Bool.true_and]
    cases row.finishedAt <;> simp

theorem lastFinish_finishes (op : RowOp) {row : ProgramRow} (h : s.row p = some row) :
    lastFinish p (history ++ s.finishes op) = match op with
      | .updateState id newState nowMs =>
        if p = id ∧ newState.isTerminal then some nowMs else lastFinish p history
      | .reopen nowMs => if row.state = .running then some nowMs else lastFinish p history
      | _ => lastFinish p history := by
  cases op with
  | updateState id newState nowMs =>
    dsimp only
    rw [finishes]
    -- a finish is recorded for the row that the operation names, and for no other
    by_cases hp : p = id
    · subst hp
      by_cases hterminal : newState.isTerminal = true
      · rw [h, if_pos ⟨rfl, hterminal⟩, if_pos ⟨rfl, hterminal⟩, lastFinish_snoc]
      · rw [if_neg fun hand => hterminal hand.2, if_neg fun hand => hterminal hand.2,
          List.append_nil]
    · rw [if_neg fun hand : p = id ∧ newState.isTerminal = true => hp hand.1]
      refine lastFinish_append_ne fun e he heq => ?_
      split_ifs at he
      · rw [List.mem_singleton.mp he] at heq
        exact hp heq.symm
      · exact absurd he List.not_mem_nil
  | reopen nowMs =>
    dsimp only
    rw [finishes]
    split_ifs with hrun
    · refine lastFinish_append_at (List.mem_map.mpr ?_) fun e he => ?_
      · exact ⟨⟨p, row.bodyCursor⟩, mem_recovered.mpr ⟨row, h, hrun, rfl⟩, rfl⟩
      · obtain ⟨_, _, rfl⟩ := List.mem_map.mp he
        rfl
    · refine lastFinish_append_ne fun e he heq => hrun ?_
      obtain ⟨r, hr, rfl⟩ := List.mem_map.mp he
      obtain ⟨row', hrow', hrun', -⟩ := mem_recovered.mp hr
      have hid : r.id = p := heq
      rw [hid, h] at hrow'
      rw [Option.some.inj hrow']
      exact hrun'
  | insertProgram _ => exact congrArg _ (List.append_nil _)
  | resumeProgram _ _ _ => exact congrArg _ (List.append_nil _)
  | setLastError _ _ _ => exact congrArg _ (List.append_nil _)
  | setBodyCursor _ _ => exact congrArg _ (List.append_nil _)

theorem stamped_step (op : RowOp) (h : Stamped s history) :
    Stamped (stepRow s op).1 (history ++ (stepRow s op).2) ↔ op.Stamps s := by
  constructor
  · intro hafter
    -- an operation that breaks the rule leaves a row that shows it
    cases op with
    | updateState id newState nowMs =>
      intro hopen row hrow
      by_contra hterminal
      have hrow' := row_apply (.updateState id newState nowMs) row hrow
      simp only [ProgramRow.under, if_true] at hrow'
      have hiff := hafter.terminal_iff id _ hrow'
      have hsome := (h.terminal_iff id row hrow).mp (Bool.of_not_eq_false hterminal)
      simp only [ProgramRow.moved, hopen, Bool.false_eq_true, if_false, hsome] at hiff
      exact hiff.mpr trivial
    | reopen nowMs =>
      intro p row hrow hrun
      have hrow' := row_apply (.reopen nowMs) row hrow
      have hiff := hafter.terminal_iff p _ hrow'
      have hnone : ¬ row.finishedAt.isSome = true := by
        rw [← h.terminal_iff p row hrow, hrun]
        exact Bool.false_ne_true
      simp only [ProgramRow.under, ProgramRow.recovered, hrun, if_true] at hiff
      exact hnone (hiff.mp rfl)
    | insertProgram _ => trivial
    | resumeProgram _ _ _ => trivial
    | setLastError _ _ _ => trivial
    | setBodyCursor _ _ => trivial
  · intro hstamps
    refine stamped_iff.mpr fun p row' hrow' => ?_
    -- row by row, since an operation treats a row by itself
    cases hrow : s.row p with
    | none =>
      obtain ⟨hpending, hnone⟩ := row_apply_new op hrow hrow'
      rw [hpending, hnone]
      exact ⟨by decide, nofun⟩
    | some row =>
      have hold := stamped_iff.mp h p row hrow
      cases Option.some.inj ((row_apply op row hrow).symm.trans hrow')
      rw [show (stepRow s op).2 = s.finishes op from rfl, lastFinish_finishes op hrow]
      cases op with
      | insertProgram _ => exact hold
      | setLastError id code msg =>
        simp only [ProgramRow.under]
        split_ifs <;> exact hold
      | setBodyCursor id cursor =>
        simp only [ProgramRow.under]
        split_ifs <;> exact hold
      | resumeProgram id fromStart nowMs =>
        rw [ProgramRow.under]
        by_cases hres : p = id ∧ row.resumable = true
        · rw [if_pos hres]
          exact ⟨⟨nofun, nofun⟩, nofun⟩
        · rw [if_neg hres]
          exact hold
      | updateState id newState nowMs =>
        simp only [ProgramRow.under]
        by_cases hp : p = id
        · subst hp
          by_cases hterminal : newState.isTerminal = true
          · simp [ProgramRow.moved, hterminal]
          · have hkept := hstamps (Bool.of_not_eq_true hterminal) row hrow
            rw [hkept] at hold
            simpa [ProgramRow.moved, hterminal] using hold.1
        · simp only [hp, if_false, false_and]
          exact hold
      | reopen nowMs =>
        have hrun := hstamps p row hrow
        simp only [ProgramRow.under, ProgramRow.recovered, hrun, if_false]
        exact hold

theorem stamped_fresh (a : α) : Stamped (fresh a) [] := by
  refine stamped_iff.mpr fun p row hrow => ?_
  have hnone : (fresh a).row p = none := rfl
  exact nomatch hnone.symm.trans hrow

/-- In every sequence of operations from the first open on, the rows are stamped as their history
has it after every operation exactly when no operation takes a program out of a terminal state
without resuming it and the store is never opened with a program running. -/
theorem rows_stamped_iff (a : α) (ops : List RowOp) :
    (∀ done, done <+: ops →
        Stamped (run stepRow (fresh a) done).1 (run stepRow (fresh a) done).2) ↔
      ∀ x ∈ trail stepRow (fresh a) ops, x.2.Stamps x.1 := by
  have hprefix := prefix_history_iff (C := fun s op => RowOp.Stamps s op)
    (fun s history op (_ : op ∈ ops) h => stamped_step op h) (stamped_fresh a)
  simpa only [List.nil_append] using hprefix

/-- A program found running when the store is opened fails and is never stamped, and then never
collected. -/
theorem rows_stamped_not_reopened : ¬ Stamped
    (run stepRow (fresh ())
      [.insertProgram ⟨⟨7⟩, "p", "\x7b\x7d", .pending, 1, "\x7b\x7d"⟩,
        .updateState ⟨7⟩ .running 2, .reopen 3]).1
    (run stepRow (fresh ())
      [.insertProgram ⟨⟨7⟩, "p", "\x7b\x7d", .pending, 1, "\x7b\x7d"⟩,
        .updateState ⟨7⟩ .running 2, .reopen 3]).2 := by
  intro h
  have hadded : ((fresh ()).apply
      (.insertProgram ⟨⟨7⟩, "p", "\x7b\x7d", .pending, 1, "\x7b\x7d"⟩)).row ⟨7⟩ =
        some (.ofNew ⟨⟨7⟩, "p", "\x7b\x7d", .pending, 1, "\x7b\x7d"⟩) := rfl
  have hrow := row_apply (.reopen 3) _ (row_apply (.updateState ⟨7⟩ .running 2) _ hadded)
  exact Bool.false_ne_true ((h.terminal_iff ⟨7⟩ _ hrow).mp rfl)

end Store

end Vcli

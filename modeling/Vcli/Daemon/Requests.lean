import Vcli.Daemon.System

/-! The requests that write to the store, up to their answer. Each is a sequence of writes that
are committed one by one, and the steps between them may fail. -/

namespace Vcli

section Handlers
variable {α : Type} (L : Loader α) (s : Store α) (nowMs : UnixMs)

/-- `sent` tells whether the scheduler was still there to take the command. -/
def handleSubmit (programJson : Json) (baseDir : Option String) (freshId : ProgramId)
    (sent : Bool) : Except Ipc.ErrorPayload (ProgramId × String) × Store α :=
  match L.validateValue programJson with
  | .error e => (.error e, s)
  | .ok program =>
    let pid := program.id.getD freshId
    let r := submitLocked L s pid program baseDir nowMs
    match r.1 with
    | .error e => (.error e, r.2)
    | .ok _ =>
      (if sent then .ok (pid, program.name)
        else .error { code := .daemonBusy, message := "scheduler command queue full" }, r.2)

def handleResume (pid : ProgramId) (fromStart : Bool) (_sent : Bool) :
    Except Ipc.ErrorPayload (ProgramId × Nat) × Store α :=
  let r := resumeLocked L s pid fromStart nowMs
  match r.1 with
  | .error e => (.error e, r.2)
  | .ok (out, _) => (.ok (pid, out.fromStep), r.2)

theorem request_submit_store {σ τ : Type} (d : Daemon σ τ α) (programJson : Json)
    (baseDir : Option String) (freshId : ProgramId) (sent : Bool) :
    (d.request L nowMs freshId (.submit programJson baseDir)).1.store =
      (handleSubmit L d.store nowMs programJson baseDir freshId sent).2 := by
  rw [Daemon.request, handleSubmit]
  cases L.validateValue programJson with
  | error e => rfl
  | ok program =>
    dsimp only
    cases (submitLocked L d.store (program.id.getD freshId) program baseDir nowMs).1 <;> rfl

theorem request_resume_store {σ τ : Type} (d : Daemon σ τ α) (pid freshId : ProgramId)
    (fromStart sent : Bool) :
    (d.request L nowMs freshId (.resume pid fromStart)).1.store =
      (handleResume L d.store nowMs pid fromStart sent).2 := by
  rw [Daemon.request, handleResume]
  cases (resumeLocked L d.store pid fromStart nowMs).1 <;> rfl

def Insertable (pid : ProgramId) (program : Program) (baseDir : Option String) : Prop :=
  ∃ rewritten materialized canonical,
    (L.materialize s.assets program baseDir nowMs).1 = .ok (rewritten, materialized) ∧
      L.canonical rewritten = .ok canonical ∧ s.row pid = none

def Submittable (programJson : Json) (baseDir : Option String) (freshId : ProgramId) : Prop :=
  ∃ program, L.validateValue programJson = .ok program ∧
    Insertable L s nowMs (program.id.getD freshId) program baseDir

def Stranded (pid : ProgramId) : Prop :=
  ∃ row e, s.row pid = some row ∧ row.resumable = true ∧
    (loadSource L s.assets row.sourceJson nowMs).1 = .error e

end Handlers

section Tables
variable {α : Type} {L : Loader α} {s : Store α} {nowMs : UnixMs}

theorem submitLocked_tables (L : Loader α) (s : Store α) (nowMs : UnixMs) (pid : ProgramId)
    (program : Program) (baseDir : Option String) :
    ¬ Insertable L s nowMs pid program baseDir ∧
        (∃ e, (submitLocked L s pid program baseDir nowMs).1 = .error e) ∧
        (submitLocked L s pid program baseDir nowMs).2.programs = s.programs ∧
        (submitLocked L s pid program baseDir nowMs).2.programAssets = s.programAssets ∨
      Insertable L s nowMs pid program baseDir ∧
        (∃ x, (submitLocked L s pid program baseDir nowMs).1 = .ok x) ∧
        (submitLocked L s pid program baseDir nowMs).2.programs ≠ s.programs := by
  unfold submitLocked Insertable
  rcases L.materialize s.assets program baseDir nowMs with ⟨e | ⟨rewritten, materialized⟩, a⟩
  · exact .inl ⟨by simp, ⟨e, rfl⟩, rfl, rfl⟩
  dsimp only
  cases hcan : L.canonical rewritten with
  | error e =>
    refine .inl ⟨?_, ⟨e, rfl⟩, rfl, rfl⟩
    rintro ⟨_, _, canonical, ⟨⟩, hok, -⟩
    exact nomatch hcan.symm.trans hok
  | ok canonical =>
    dsimp only [Store.insertProgram]
    cases hrow : s.row pid with
    | some row =>
      rw [Table.insert?_none (by rw [show s.programs.get pid = some row from hrow]; rfl)]
      refine .inl ⟨?_, ⟨_, rfl⟩, rfl, rfl⟩
      rintro ⟨_, _, _, -, -, hnone⟩
      exact nomatch hnone
    | none =>
      obtain ⟨programs, hins, hself, -⟩ := Table.insert?_some (t := s.programs) (k := pid)
        (r := ProgramRow.ofNew ⟨pid, program.name, canonical, .pending, nowMs, "\x7b\x7d"⟩) hrow
      rw [hins]
      let written : Store α := { s with assets := a, programs := programs }
      have hwritten : (written.row pid).isSome := by
        rw [Store.row, hself]
        rfl
      have hok : (linkAssets pid materialized.hashes written).1 = .ok () :=
        linkAssets_ok _ hwritten
      refine .inr ⟨⟨_, _, canonical, rfl, hcan, rfl⟩, ⟨_, congrArg (Except.map _) hok⟩, ?_⟩
      -- a table that was written has the row, whatever is linked to it afterwards
      intro hsame
      have hlink := linkAssets_row (p := pid) pid materialized.hashes written
      have hgone : (linkAssets pid materialized.hashes written).2.row pid = none :=
        (congrArg (fun t => Table.get t pid) hsame).trans hrow
      rw [hgone] at hlink
      rw [← hlink] at hwritten
      exact absurd hwritten Bool.false_ne_true

theorem handleSubmit_restores_iff (programJson : Json) (baseDir : Option String)
    (freshId : ProgramId) (sent : Bool) :
    (∀ e, (handleSubmit L s nowMs programJson baseDir freshId sent).1 = .error e →
      (handleSubmit L s nowMs programJson baseDir freshId sent).2.programs = s.programs ∧
      (handleSubmit L s nowMs programJson baseDir freshId sent).2.programAssets =
        s.programAssets) ↔
      ¬ (sent = false ∧ Submittable L s nowMs programJson baseDir freshId) := by
  unfold handleSubmit Submittable
  cases hval : L.validateValue programJson with
  | error e => simp
  | ok program =>
    simp only [Except.ok.injEq, exists_eq_left']
    rcases submitLocked_tables L s nowMs (program.id.getD freshId) program baseDir with
      ⟨hnot, ⟨e, herr⟩, hkept⟩ | ⟨hall, ⟨x, hok⟩, hchanged⟩
    · simp only [herr]
      exact ⟨fun _ h => hnot h.2, fun _ _ _ => hkept⟩
    · simp only [hok]
      cases sent with
      | true => exact ⟨fun _ h => absurd h.1.symm Bool.false_ne_true, fun _ e he => (nomatch he)⟩
      | false => exact ⟨fun h => absurd (h _ rfl).1 hchanged, fun h => absurd ⟨rfl, hall⟩ h⟩

/-- A stored source that does not load leaves a row that says it is running. -/
theorem handleResume_restores_iff (pid : ProgramId) (fromStart sent : Bool) :
    (∀ e, (handleResume L s nowMs pid fromStart sent).1 = .error e →
      (handleResume L s nowMs pid fromStart sent).2.row pid = s.row pid) ↔
      ¬ Stranded L s nowMs pid := by
  have hstore : (handleResume L s nowMs pid fromStart sent).2 =
      (resumeLocked L s pid fromStart nowMs).2 := by
    rw [handleResume]
    cases (resumeLocked L s pid fromStart nowMs).1 <;> rfl
  rw [hstore]
  constructor
  · rintro h ⟨row, e, hrow, hres, hload⟩
    have heq := resumeLocked_resumable (L := L) fromStart nowMs hrow hres
    dsimp only at heq
    have herr : (handleResume L s nowMs pid fromStart sent).1 = .error e := by
      simp only [handleResume, heq, hload]
      rfl
    have hrewritten : (resumeLocked L s pid fromStart nowMs).2.row pid =
        some (row.resumed (if fromStart then 0 else row.bodyCursor) nowMs) := by
      rw [heq]
      refine (Table.get_update_self _).trans ?_
      rw [show s.programs.get pid = some row from hrow, Option.map_some]
    have hsame := hrewritten.symm.trans ((h e herr).trans hrow)
    -- the row would have had to be running, and those cannot be resumed
    have hrunning : ProgramState.running = row.state :=
      congrArg ProgramRow.state (Option.some.inj hsame)
    simp [ProgramRow.resumable, ← hrunning] at hres
  · intro h e herr
    rcases resumeLocked_cases (L := L) (s := s) pid fromStart nowMs with
      ⟨row, cursor, hrow, hres, -⟩ | ⟨-, hkept⟩
    · have heq := resumeLocked_resumable (L := L) fromStart nowMs hrow hres
      dsimp only at heq
      cases hload : (loadSource L s.assets row.sourceJson nowMs).1 with
      | error e' => exact absurd ⟨row, e', hrow, hres, hload⟩ h
      | ok loaded =>
        simp only [handleResume, heq, hload] at herr
        exact nomatch herr
    · exact hkept pid

/-- A failed resume leaves the row as it was if and only if the program may not be resumed or its
stored source loads; a failed submit leaves the tables as they were if and only if it does not fail
at the send alone. -/
theorem failed_requests_restore_iff (L : Loader α) (s : Store α) (nowMs : UnixMs) :
    (∀ pid fromStart sent,
      (∀ e, (handleResume L s nowMs pid fromStart sent).1 = .error e →
        (handleResume L s nowMs pid fromStart sent).2.row pid = s.row pid) ↔
          ¬ Stranded L s nowMs pid) ∧
    ∀ programJson baseDir freshId sent,
      (∀ e, (handleSubmit L s nowMs programJson baseDir freshId sent).1 = .error e →
        (handleSubmit L s nowMs programJson baseDir freshId sent).2.programs = s.programs ∧
        (handleSubmit L s nowMs programJson baseDir freshId sent).2.programAssets =
          s.programAssets) ↔
          ¬ (sent = false ∧ Submittable L s nowMs programJson baseDir freshId) :=
  ⟨handleResume_restores_iff, handleSubmit_restores_iff⟩

def Loader.refusing : Loader Unit :=
  { Loader.constant (Program.blank "demo") with
    validateValue := fun _ => .error { code := .invalidProgram, message := "refused" } }

def interrupted : Store Unit :=
  { Store.fresh () with
    programs := ⟨[(⟨1⟩, { ProgramRow.ofNew ⟨⟨1⟩, "demo", "\x7b\x7d", .failed, 0, "\x7b\x7d"⟩ with
      lastErrorCode := some "daemon_restart" })], List.nodup_singleton _⟩ }

/-- The source does not validate any more and the row says `running`; the scheduler is gone and
the row stays. -/
theorem failed_requests_not_restored :
    ¬ (∀ e, (handleResume .refusing interrupted 10 ⟨1⟩ false true).1 = .error e →
        (handleResume .refusing interrupted 10 ⟨1⟩ false true).2.row ⟨1⟩ = interrupted.row ⟨1⟩) ∧
    ¬ (∀ e, (handleSubmit (.constant (Program.blank "demo")) (Store.fresh ()) 10 .null none ⟨1⟩
          false).1 = .error e →
        (handleSubmit (.constant (Program.blank "demo")) (Store.fresh ()) 10 .null none ⟨1⟩
            false).2.programs = (Store.fresh ()).programs ∧
          (handleSubmit (.constant (Program.blank "demo")) (Store.fresh ()) 10 .null none ⟨1⟩
            false).2.programAssets = (Store.fresh ()).programAssets) := by
  constructor
  · intro h
    have hsame := congrArg (Option.map ProgramRow.state) (h _ rfl)
    exact absurd hsame (by decide)
  · intro h
    have hsame := congrArg (fun t => t.rows.length) (h _ rfl).1
    exact absurd hsame (by decide)

end Tables

end Vcli

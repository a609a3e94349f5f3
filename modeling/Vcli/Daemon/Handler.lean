import Vcli.Core.Error
import Vcli.Runtime.Scheduler
import Vcli.Store.Programs

/-! The store half of the requests: what a handler does while it holds the store lock, and
the command it then has for the scheduler. -/

namespace Vcli

structure MaterializedAssets where
  bytes : Assets
  hashes : List String

/-- What a handler takes from elsewhere at the moment it runs: the JSON reader, the DSL
validator, the canonical form of a program, and the asset store with the files around it. -/
structure Loader (α : Type) where
  fromStr : String → Except String Json
  validateValue : Json → Except Ipc.ErrorPayload Program
  canonical : Program → Except Ipc.ErrorPayload String
  materialize : α → Program → Option String → UnixMs →
    Except Ipc.ErrorPayload (Program × MaterializedAssets) × α
  collect : α → List String → α

def Loader.constant (program : Program) : Loader Unit where
  fromStr _ := .ok .null
  validateValue _ := .ok program
  canonical program := .ok program.name
  materialize _ program _ _ := (.ok (program, ⟨∅, []⟩), ())
  collect _ _ := ()

variable {α : Type} (L : Loader α)

def StoreError.toString : StoreError → String
  | .constraint => "sqlite: constraint failed"
  | .unknownProgram id => "unknown program: " ++ id.toString
  | .notResumable id state code => "not resumable: program " ++ id.toString ++ " state=" ++
      state.asStr ++ " code=" ++ (match code with | some c => "Some(" ++ c.quote ++ ")" | none => "None")

def StoreError.payload : StoreError → Ipc.ErrorPayload
  | .notResumable id state code =>
    { code := .notResumable, message := (StoreError.notResumable id state code).toString }
  | .unknownProgram _ => { code := .unknownProgram, message := "not found" }
  | e => { code := .internal, message := e.toString }

def linkAssets (pid : ProgramId) : List String → Store α → Except Ipc.ErrorPayload Unit × Store α
  | [], s => (.ok (), s)
  | h :: hs, s =>
    match s.linkProgramAsset pid h with
    | .error e => (.error { code := .internal, message := e.toString }, s)
    | .ok s' => linkAssets pid hs s'

def submitLocked (s : Store α) (pid : ProgramId) (program : Program) (baseDir : Option String)
    (submittedAt : UnixMs) : Except Ipc.ErrorPayload (Program × Assets) × Store α :=
  let r := L.materialize s.assets program baseDir submittedAt
  let s := { s with assets := r.2 }
  match r.1 with
  | .error e => (.error e, s)
  | .ok (rewritten, materialized) =>
    match L.canonical rewritten with
    | .error e => (.error e, s)
    | .ok canonical =>
      match s.insertProgram ⟨pid, program.name, canonical, .pending, submittedAt, "\x7b\x7d"⟩ with
      | .error e => (.error { code := .internal, message := e.toString }, s)
      | .ok s =>
        let r := linkAssets pid materialized.hashes s
        (r.1.map fun _ => (rewritten, materialized.bytes), r.2)

def loadSource (a : α) (sourceJson : String) (nowMs : UnixMs) :
    Except Ipc.ErrorPayload (Program × Assets) × α :=
  match L.fromStr sourceJson with
  | .error e => (.error { code := .internal, message := "stored program json: " ++ e }, a)
  | .ok value =>
    match L.validateValue value with
    | .error e => (.error e, a)
    | .ok program =>
      match L.materialize a program none nowMs with
      | (.error e, a) => (.error e, a)
      | (.ok (program, materialized), a) => (.ok (program, materialized.bytes), a)

/-- The locked part of `handle_resume`. The row is already rewritten when the source turns
out not to load. -/
def resumeLocked (s : Store α) (pid : ProgramId) (fromStart : Bool) (nowMs : UnixMs) :
    Except Ipc.ErrorPayload (ResumeOutcome × Program × Assets) × Store α :=
  match s.resumeProgram pid fromStart nowMs with
  | .error e => (.error e.payload, s)
  | .ok (outcome, s) =>
    match s.getProgram pid with
    | .error e => (.error e.payload, s)
    | .ok row =>
      let r := loadSource L s.assets row.sourceJson nowMs
      (r.1.map fun loaded => (outcome, loaded.1, loaded.2), { s with assets := r.2 })

def retentionDays : Int := 7

def gcLocked (s : Store α) (nowMs : UnixMs) : Store α :=
  let s := s.gcPrograms (nowMs - retentionDays * 24 * 60 * 60 * 1000)
  { s with assets := L.collect s.assets (s.programAssets.map Prod.snd) }

section Rows
variable {L} {s : Store α} {p pid : ProgramId} {nowMs : UnixMs}

theorem linkAssets_frame (pid : ProgramId) (hashes : List String) (s : Store α) :
    ∃ links, (linkAssets pid hashes s).2 = { s with programAssets := links } := by
  induction hashes generalizing s with
  | nil => exact ⟨s.programAssets, rfl⟩
  | cons h hs ih =>
    unfold linkAssets Store.linkProgramAsset
    by_cases hrow : (s.row pid).isSome
    · rw [if_pos hrow]
      exact ih _
    · rw [if_neg hrow]
      exact ⟨s.programAssets, rfl⟩

theorem linkAssets_row (pid : ProgramId) (hashes : List String) (s : Store α) :
    (linkAssets pid hashes s).2.row p = s.row p := by
  obtain ⟨links, hframe⟩ := linkAssets_frame pid hashes s
  rw [hframe]
  rfl

theorem linkAssets_ok (hashes : List String) (hrow : (s.row pid).isSome) :
    (linkAssets pid hashes s).1 = .ok () := by
  induction hashes generalizing s with
  | nil => rfl
  | cons h hs ih =>
    unfold linkAssets Store.linkProgramAsset
    rw [if_pos hrow]
    exact ih hrow

theorem submitLocked_cases (pid : ProgramId) (program : Program) (baseDir : Option String)
    (submittedAt : UnixMs) :
    (∃ row : ProgramRow, s.row pid = none ∧ row.state = .pending ∧ row.bodyCursor = 0 ∧
        row.lastErrorCode = none ∧
        (∃ x, (submitLocked L s pid program baseDir submittedAt).1 = .ok x) ∧
        (submitLocked L s pid program baseDir submittedAt).2.row pid = some row ∧
        ∀ p, p ≠ pid → (submitLocked L s pid program baseDir submittedAt).2.row p = s.row p) ∨
      (∃ e, (submitLocked L s pid program baseDir submittedAt).1 = .error e) ∧
        ∀ p, (submitLocked L s pid program baseDir submittedAt).2.row p = s.row p := by
  unfold submitLocked
  rcases L.materialize s.assets program baseDir submittedAt with ⟨_ | ⟨rewritten, materialized⟩, a⟩
  · exact .inr ⟨⟨_, rfl⟩, fun _ => rfl⟩
  dsimp only
  rcases L.canonical rewritten with _ | canonical
  · exact .inr ⟨⟨_, rfl⟩, fun _ => rfl⟩
  dsimp only [Store.insertProgram]
  cases hins : s.programs.insert? pid (.ofNew
      ⟨pid, program.name, canonical, .pending, submittedAt, "\x7b\x7d"⟩) with
  | none => exact .inr ⟨⟨_, rfl⟩, fun _ => rfl⟩
  | some programs =>
    obtain ⟨hnone, hself, hne⟩ := Table.insert?_eq_some hins
    have hlink := fun p => linkAssets_row (p := p) pid materialized.hashes
      { s with assets := a, programs := programs }
    have hok : (linkAssets pid materialized.hashes
        { s with assets := a, programs := programs }).1 = .ok () :=
      linkAssets_ok _ (by rw [Store.row, hself]; rfl)
    refine .inl ⟨_, hnone, rfl, rfl, rfl, ⟨_, congrArg (Except.map _) hok⟩, (hlink pid).trans hself, ?_⟩
    exact fun p hp => (hlink p).trans (hne p hp)

theorem resumeLocked_resumable {row : ProgramRow} (fromStart : Bool) (nowMs : UnixMs)
    (hrow : s.row pid = some row) (hres : row.resumable = true) :
    let cursor := if fromStart then 0 else row.bodyCursor
    let r := loadSource L s.assets row.sourceJson nowMs
    resumeLocked L s pid fromStart nowMs =
      (r.1.map fun loaded => (⟨cursor⟩, loaded.1, loaded.2),
        { s with programs := s.programs.update pid (.resumed cursor nowMs), assets := r.2 }) := by
  intro cursor r
  have hresume : s.resumeProgram pid fromStart nowMs =
      .ok (⟨cursor⟩, { s with programs := s.programs.update pid (.resumed cursor nowMs) }) := by
    simp only [Store.resumeProgram, hrow, hres, if_true]
    rfl
  have hget : Store.getProgram { s with programs := s.programs.update pid (.resumed cursor nowMs) }
      pid = .ok (row.resumed cursor nowMs) := by
    have hself := Table.get_update_self (t := s.programs) (k := pid) (.resumed cursor nowMs)
    rw [show s.programs.get pid = some row from hrow] at hself
    simp only [Store.getProgram, Store.row, hself, Option.map_some]
  simp only [resumeLocked, hresume, hget]
  rfl

theorem resumeLocked_refused (fromStart : Bool) (nowMs : UnixMs)
    (h : ∀ row, s.row pid = some row → ¬ row.resumable = true) :
    ∃ e, resumeLocked L s pid fromStart nowMs = (.error e, s) := by
  cases hrow : s.row pid with
  | none =>
    refine ⟨(StoreError.unknownProgram pid).payload, ?_⟩
    simp only [resumeLocked, Store.resumeProgram, hrow]
  | some row =>
    refine ⟨(StoreError.notResumable pid row.state row.lastErrorCode).payload, ?_⟩
    simp only [resumeLocked, Store.resumeProgram, hrow, if_neg (h row hrow)]

theorem resumeLocked_cases (pid : ProgramId) (fromStart : Bool) (nowMs : UnixMs) :
    (∃ row cursor, s.row pid = some row ∧ row.resumable = true ∧
        cursor = (if fromStart then 0 else row.bodyCursor) ∧
        (resumeLocked L s pid fromStart nowMs).2.row pid = some (row.resumed cursor nowMs) ∧
        (∀ p, p ≠ pid → (resumeLocked L s pid fromStart nowMs).2.row p = s.row p) ∧
        ∀ out, (resumeLocked L s pid fromStart nowMs).1 = .ok out → out.1 = ⟨cursor⟩) ∨
      (∃ e, (resumeLocked L s pid fromStart nowMs).1 = .error e) ∧
        ∀ p, (resumeLocked L s pid fromStart nowMs).2.row p = s.row p := by
  by_cases hany : ∃ row, s.row pid = some row ∧ row.resumable = true
  · obtain ⟨row, hrow, hres⟩ := hany
    have heq := resumeLocked_resumable (L := L) fromStart nowMs hrow hres
    dsimp only at heq
    rw [heq]
    refine .inl ⟨row, _, hrow, hres, rfl, ?_, fun p hp => Table.get_update_ne _ hp, ?_⟩
    · refine (Table.get_update_self _).trans ?_
      rw [show s.programs.get pid = some row from hrow, Option.map_some]
    · intro out hout
      dsimp only at hout
      cases hload : (loadSource L s.assets row.sourceJson nowMs).1 with
      | error e =>
        rw [hload] at hout
        exact nomatch hout
      | ok loaded =>
        rw [hload] at hout
        rw [← Except.ok.inj hout]
  · obtain ⟨e, heq⟩ := resumeLocked_refused (L := L) fromStart nowMs
      fun row hrow hres => hany ⟨row, hrow, hres⟩
    rw [heq]
    exact .inr ⟨⟨_, rfl⟩, fun _ => rfl⟩

theorem gcLocked_row :
    (gcLocked L s nowMs).row p = (s.row p).filter fun row =>
      !row.expired (nowMs - retentionDays * 24 * 60 * 60 * 1000) :=
  Table.get_deleteWhere _

end Rows

end Vcli

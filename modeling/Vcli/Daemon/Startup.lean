import Vcli.Daemon.Handler

/-! Start-up over whatever the last daemon left in the store: recovery, the events that
announce it, and the reload of the waiting programs. -/

namespace Vcli

/-- Two events for each program that recovery moved from `running` to `failed`. -/
def recoveryEvents (nowMs : UnixMs) (recovered : List RecoveredProgram) : List Event :=
  recovered.flatMap fun r =>
    [⟨nowMs, .programStateChanged r.id .running .failed "daemon_restart"⟩,
     ⟨nowMs, .programFailed r.id "daemon restarted during execution"
       (some ("body[" ++ toString r.bodyCursor ++ "]")) none⟩]

def daemonStarted (nowMs : UnixMs) : Event := ⟨nowMs, .daemonStarted "0.0.1"⟩

variable {α : Type} (L : Loader α) (nowMs : UnixMs)

/-- The waiting rows in turn; a row whose source does not load is passed over in silence. -/
def reload : List (ProgramId × ProgramRow) → α → List SchedulerCommand × α
  | [], a => ([], a)
  | (id, row) :: rest, a =>
    let loaded := loadSource L a row.sourceJson nowMs
    let r := reload rest loaded.2
    (match loaded.1 with
      | .ok (program, assets) => .submitValidated id program assets :: r.1
      | .error _ => r.1, r.2)

def reloadWaitingPrograms (s : Store α) : List SchedulerCommand × Store α :=
  let r := reload L nowMs (s.listPrograms (some .waiting)) s.assets
  (r.1, { s with assets := r.2 })

section Lemmas
variable {L nowMs} {s : Store α} {p : ProgramId} {row : ProgramRow}

theorem row_recover : s.recoverRunningPrograms.2.row p = (s.row p).map ProgramRow.recovered :=
  Table.get_mapRows _

theorem mem_recovered {r : RecoveredProgram} :
    r ∈ s.recoverRunningPrograms.1 ↔
      ∃ row, s.row r.id = some row ∧ row.state = .running ∧ row.bodyCursor = r.bodyCursor := by
  have hmem : ∀ id row, (id, row) ∈ s.programs.rows ↔ s.row id = some row :=
    fun id row => Table.mem_rows_iff
  simp only [Store.recoverRunningPrograms, List.mem_map, List.mem_filter, decide_eq_true_eq]
  constructor
  · rintro ⟨⟨id, row⟩, ⟨hrow, hrun⟩, rfl⟩
    exact ⟨row, (hmem id row).mp hrow, hrun, rfl⟩
  · rintro ⟨row, hrow, hrun, hcur⟩
    exact ⟨(r.id, row), ⟨(hmem r.id row).mpr hrow, hrun⟩, by rw [hcur]⟩

theorem mem_listPrograms {st : ProgramState} :
    (p, row) ∈ s.listPrograms (some st) ↔ s.row p = some row ∧ row.state = st := by
  rw [Store.listPrograms, List.mem_insertionSort, List.mem_filter, Table.mem_rows_iff,
    decide_eq_true_eq]
  rfl

theorem mem_reload {rows : List (ProgramId × ProgramRow)} {a : α} {c : SchedulerCommand}
    (h : c ∈ (reload L nowMs rows a).1) :
    ∃ id row program assets, (id, row) ∈ rows ∧ c = .submitValidated id program assets := by
  induction rows generalizing a with
  | nil => exact absurd h List.not_mem_nil
  | cons e rest ih =>
    obtain ⟨id, row⟩ := e
    rw [reload] at h
    have hrest : c ∈ (reload L nowMs rest (loadSource L a row.sourceJson nowMs).2).1 →
        ∃ id' row' program assets, (id', row') ∈ (id, row) :: rest ∧
          c = .submitValidated id' program assets := by
      intro hc
      obtain ⟨id', row', program, assets, hmem, hc⟩ := ih hc
      exact ⟨id', row', program, assets, List.mem_cons_of_mem _ hmem, hc⟩
    dsimp only at h
    split at h
    · rcases List.mem_cons.mp h with rfl | h
      · exact ⟨id, row, _, _, List.mem_cons_self, rfl⟩
      · exact hrest h
    · exact hrest h

end Lemmas

end Vcli

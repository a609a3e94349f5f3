import Vcli.Daemon.Mirror
import Vcli.Lib.History

/-! What becomes of an accepted program when the daemon dies. Recovery takes care of the
running rows and reload of the waiting ones; the rest is left where it is. -/

namespace Vcli

open Transducer

section Reload
variable {α : Type} {L : Loader α} {nowMs : UnixMs} {p : ProgramId}

end Reload

namespace Daemon

variable {σ τ α : Type} {B : Backends σ τ} {d d' : Daemon σ τ α} {p : ProgramId}

/-- Start-up under way: `loaded` is what it has to send and `row` what the crash left of `p`. -/
structure Booting (p : ProgramId) (row : ProgramRow) (loaded : List SchedulerCommand)
    (d : Daemon σ τ α) : Prop where
  sent : d.cmds ++ d.backlog = loaded
  room : d.cmds.length ≤ cmdCapacity
  state : ∃ row', d.store.row p = some row' ∧ row'.state = row.recovered.state
  events : ∀ ev ∈ d.events, ev.data.programIdOf = some p →
    row.state = .running ∧ ∀ st, ev.data.tells p st = .failed

theorem Booting.bootSend {row : ProgramRow} {loaded : List SchedulerCommand}
    (h : Booting p row loaded d) : Booting p row loaded d.bootSend := by
  unfold Daemon.bootSend
  cases hb : d.backlog with
  | nil => exact h
  | cons c rest =>
    dsimp only
    split_ifs with hroom
    · refine ⟨?_, ?_, h.state, h.events⟩
      · rw [← h.sent, hb, List.append_assoc, List.singleton_append]
      · rw [List.length_append, List.length_singleton]
        exact hroom
    · exact h

theorem Booting.pump {row : ProgramRow} {loaded : List SchedulerCommand}
    (h : Booting p row loaded d) : Booting p row loaded d.pump := by
  unfold Daemon.pump
  cases hev : d.events with
  | nil => exact h
  | cons ev rest =>
    have hrest : ∀ e ∈ rest, e ∈ d.events := fun e he => hev ▸ List.mem_cons_of_mem _ he
    refine ⟨h.sent, h.room, ?_, fun e he => h.events e (hrest e he)⟩
    obtain ⟨row', hrow', hstate⟩ := h.state
    dsimp only
    rw [Store.row_pumpEvent, hrow']
    split_ifs with hid
    · -- an event of `p` says once more what recovery has already written
      obtain ⟨hrun, hfails⟩ := h.events ev (hev ▸ List.mem_cons_self) hid
      refine ⟨row'.after ev, rfl, ?_⟩
      rw [ProgramRow.after_state hid, hfails, ProgramRow.recovered, if_pos hrun]
    · exact ⟨row', rfl, hstate⟩

theorem Effect.row_kept {who : ProgramId → Prop} {outs : List Notice}
    (he : Effect B d who d' outs) (h : (d.store.row p).isSome = true) :
    (d'.store.row p).isSome = true ∨ ∃ st, .collected p st ∈ outs ∧ st.isTerminal = true := by
  cases he with
  | restarted L nowMs env all =>
    refine .inl ?_
    have hrow : (startup L nowMs env d.store).store.row p = (d.store.row p).map .recovered :=
      row_recover
    rw [hrow, Option.isSome_map]
    exact h
  | scheduled | stopped | moved | dropped | posted => exact .inl h
  | pumped hev =>
    refine .inl ?_
    dsimp only
    rw [Store.row_pumpEvent]
    split_ifs
    · rw [Option.isSome_map]
      exact h
    · exact h
  | refused rows => exact .inl ((rows p).symm ▸ h)
  | @submitted store q row program assets asked absent present state cursor code rows =>
    refine .inl ?_
    by_cases hq : p = q
    · rw [hq]
      dsimp only
      rw [present]
      rfl
    · exact (rows p hq).symm ▸ h
  | @resumed store q row cursor nowMs _ cs asked resumable from_ present rows sends =>
    refine .inl ?_
    by_cases hq : p = q
    · rw [hq]
      dsimp only
      rw [present]
      rfl
    · exact (rows p hq).symm ▸ h
  | @collected store cutoff _ rows announced quiet =>
    obtain ⟨row, hrow⟩ := Option.isSome_iff_exists.mp h
    have hfilter := rows p
    rw [hrow] at hfilter
    -- rows go only where they have expired, and those are terminal by definition
    by_cases hexp : row.expired cutoff = true
    · refine .inr ⟨row.state, (announced p _).mpr ⟨row, hrow, rfl, ?_⟩, ?_⟩
      · rw [hfilter, Option.filter_some]
        simp [hexp]
      · exact (Bool.and_eq_true_iff.mp hexp).1
    · refine .inl ?_
      dsimp only
      rw [hfilter, Option.filter_some]
      simp [hexp]

def Submitting (p : ProgramId) (d : Daemon σ τ α) : Prop :=
  ∃ program assets, .submitValidated p program assets ∈ d.inflight

theorem not_accepts_error {e : Ipc.ErrorPayload} : ¬ Notice.Accepts p (.answered (.error e)) :=
  fun ⟨_, _, h⟩ => nomatch h

theorem Effect.accepted {who : ProgramId → Prop} {outs : List Notice}
    (he : Effect B d who d' outs) {o : Notice} (ho : o ∈ outs) (hacc : o.Accepts p) :
    d.Submitting p := by
  cases he with
  | restarted | stopped | pumped | posted | submitted => exact absurd ho List.not_mem_nil
  | scheduled =>
    obtain ⟨m, _, rfl⟩ := List.mem_map.mp ho
    obtain ⟨_, _, h⟩ := hacc
    exact nomatch h
  | moved same accepted kept quiet => exact accepted p o ho hacc
  | dropped gone refused quiet =>
    rw [List.mem_singleton.mp ho] at hacc
    exact absurd hacc (refused p)
  | refused rows =>
    rw [List.mem_singleton.mp ho] at hacc
    exact absurd hacc not_accepts_error
  | resumed cs asked resumable from_ present rows sends =>
    rcases sends with ⟨_, e, rfl⟩ | ⟨rfl, _⟩
    · rw [List.mem_singleton.mp ho] at hacc
      exact absurd hacc not_accepts_error
    · exact absurd ho List.not_mem_nil
  | collected rows announced quiet => exact absurd hacc ((quiet o ho).2 p)

theorem Effect.submitting {who : ProgramId → Prop} {outs : List Notice}
    (he : Effect B d who d' outs) (h : d'.Submitting p) :
    d.Submitting p ∨ (d'.store.row p).isSome = true := by
  obtain ⟨program, assets, hmem⟩ := h
  cases he with
  | restarted => exact absurd hmem List.not_mem_nil
  | scheduled | stopped | pumped | refused | collected => exact .inl ⟨program, assets, hmem⟩
  | moved same accepted kept quiet => exact .inl ⟨program, assets, kept _ hmem⟩
  | dropped gone refused quiet => exact .inl ⟨program, assets, List.mem_of_mem_eraseIdx hmem⟩
  | posted hc =>
    rcases List.mem_append.mp hmem with hmem | hmem
    · exact .inl ⟨program, assets, hmem⟩
    · rw [← List.mem_singleton.mp hmem] at hc
      exact absurd rfl (hc p)
  | submitted asked absent present state cursor code rows =>
    rcases List.mem_append.mp hmem with hmem | hmem
    · exact .inl ⟨program, assets, hmem⟩
    · obtain ⟨rfl, _⟩ := SchedulerCommand.submitValidated.inj (List.mem_singleton.mp hmem)
      refine .inr ?_
      dsimp only
      rw [present]
      rfl
  | resumed cs asked resumable from_ present rows sends =>
    rcases List.mem_append.mp hmem with hmem | hmem
    · exact .inl ⟨program, assets, hmem⟩
    · rcases sends with ⟨rfl, _⟩ | ⟨_, _, _, rfl⟩
      · exact absurd hmem List.not_mem_nil
      · exact nomatch List.mem_singleton.mp hmem

def Collected (p : ProgramId) (T : List Notice) : Prop :=
  ∃ st, .collected p st ∈ T ∧ st.isTerminal = true

def Recorded (p : ProgramId) (d : Daemon σ τ α) (T : List Notice) : Prop :=
  d.Submitting p ∨ (∃ o ∈ T, o.Accepts p) → (d.store.row p).isSome = true ∨ Collected p T

theorem Recorded.effect {T : List Notice} (h : Recorded p d T) {who : ProgramId → Prop}
    {outs : List Notice} (he : Effect B d who d' outs) : Recorded p d' (T ++ outs) := by
  have hkeep : (d.store.row p).isSome = true ∨ Collected p T →
      (d'.store.row p).isSome = true ∨ Collected p (T ++ outs) := by
    rintro (hrow | ⟨st, hcol, hst⟩)
    · exact (he.row_kept hrow).imp_right fun ⟨st, hcol, hst⟩ =>
        ⟨st, List.mem_append_right _ hcol, hst⟩
    · exact .inr ⟨st, List.mem_append_left _ hcol, hst⟩
  rintro (hsub | ⟨o, ho, hacc⟩)
  · rcases he.submitting hsub with hsub | hrow
    · exact hkeep (h (.inl hsub))
    · exact .inl hrow
  · rcases List.mem_append.mp ho with ho | ho
    · exact hkeep (h (.inr ⟨o, ho, hacc⟩))
    · exact hkeep (h (.inl (he.accepted ho hacc)))

end Daemon

end Vcli

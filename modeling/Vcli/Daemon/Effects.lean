import Mathlib.Data.List.Perm.Basic
import Vcli.Daemon.System

/-! What a single step of the daemon can do, said once for all its invariants. -/

namespace Vcli

open Transducer

def Notice.observation : Notice → Option (Moment ProgramMap)
  | observed m => some m
  | _ => none

def Notice.Accepts (p : ProgramId) (o : Notice) : Prop :=
  ∃ program assets, o = .answered (.ok (some (.submitValidated p program assets)))

def DaemonInput.Touches {σ τ α : Type} (p : ProgramId) : DaemonInput σ τ α → Prop
  | request L _ freshId (.submit programJson _) =>
    ∃ program, L.validateValue programJson = .ok program ∧ program.id.getD freshId = p
  | request _ _ _ (.cancel q) | request _ _ _ (.start q) | request _ _ _ (.resume q _) => q = p
  | restart .. => True
  | _ => False

namespace Daemon

variable {σ τ α : Type}

def pending (d : Daemon σ τ α) : List SchedulerCommand := d.cmds ++ (d.inflight ++ d.backlog)

def Awaited (p : ProgramId) (d : Daemon σ τ α) : Prop := ∃ c ∈ d.pending, c.inserts p

inductive Takes (d : Daemon σ τ α) : Input → List SchedulerCommand → Prop
  | tick (t : TickInput) : Takes d (.tick t) d.cmds
  | command {c : SchedulerCommand} {rest : List SchedulerCommand} (nowMs : UnixMs)
      (h : d.cmds = c :: rest) : Takes d (.command c nowMs) rest

/-- What a step that is about the programs `who` makes of the daemon. -/
inductive Effect (B : Backends σ τ) (d : Daemon σ τ α) (who : ProgramId → Prop) :
    Daemon σ τ α → List Notice → Prop
  | restarted (L : Loader α) (nowMs : UnixMs) (env : Env σ τ) (all : ∀ p, who p) :
      Effect B d who (startup L nowMs env d.store) []
  | scheduled {i : Input} {cmds : List SchedulerCommand} (stamps : Nat → UnixMs)
      (running : d.stopped = false) (h : d.Takes i cmds) :
      Effect B d who
        { d with
          cmds := cmds
          sched := (d.sched.step B i).1
          events := d.events ++ emitAll stamps (d.sched.step B i).2 }
        ((d.sched.step B i).2.map .observed)
  | stopped {rest : List SchedulerCommand} (h : d.cmds = .shutdown :: rest) :
      Effect B d who { d with cmds := rest, stopped := true } []
  | pumped {ev : Event} {rest : List Event} (h : d.events = ev :: rest) :
      Effect B d who { d with store := pumpEvent d.store ev, events := rest } []
  | moved {cmds inflight backlog : List SchedulerCommand} {outs : List Notice}
      (same : (cmds ++ (inflight ++ backlog)).Perm d.pending)
      (accepted : ∀ p, ∀ o ∈ outs, o.Accepts p →
        ∃ program assets, .submitValidated p program assets ∈ d.inflight)
      (kept : ∀ c ∈ inflight, c ∈ d.inflight)
      (quiet : ∀ o ∈ outs, o.observation = none) :
      Effect B d who { d with cmds := cmds, inflight := inflight, backlog := backlog } outs
  | dropped {i : Nat} {o : Notice} (gone : d.stopped = true) (refused : ∀ p, ¬ o.Accepts p)
      (quiet : o.observation = none) :
      Effect B d who { d with inflight := d.inflight.eraseIdx i } [o]
  | posted {c : SchedulerCommand} (h : ∀ p, ¬ c.inserts p) :
      Effect B d who (d.sending c) []
  | refused {store : Store α} {e : Ipc.ErrorPayload} (rows : ∀ p, store.row p = d.store.row p) :
      Effect B d who { d with store := store } [.answered (.error e)]
  | submitted {store : Store α} {p : ProgramId} {row : ProgramRow} {program : Program}
      {assets : Assets} (asked : who p) (absent : d.store.row p = none)
      (present : store.row p = some row) (state : row.state = .pending)
      (cursor : row.bodyCursor = 0) (code : row.lastErrorCode = none)
      (rows : ∀ q, q ≠ p → store.row q = d.store.row q) :
      Effect B d who
        { d with
          store := store
          inflight := d.inflight ++ [.submitValidated p program assets] } []
  | resumed {store : Store α} {p : ProgramId} {row : ProgramRow} {cursor : Nat} {nowMs : UnixMs}
      {outs : List Notice} (cs : List SchedulerCommand) (asked : who p)
      (resumable : d.store.row p = some row ∧ row.resumable = true)
      (from_ : cursor = 0 ∨ cursor = row.bodyCursor)
      (present : store.row p = some (row.resumed cursor nowMs))
      (rows : ∀ q, q ≠ p → store.row q = d.store.row q)
      (sends : (cs = [] ∧ ∃ e, outs = [.answered (.error e)]) ∨
        (outs = [] ∧ ∃ program assets, cs = [.resumeRunning p cursor program assets])) :
      Effect B d who { d with store := store, inflight := d.inflight ++ cs } outs
  | collected {store : Store α} {cutoff : UnixMs} {outs : List Notice}
      (rows : ∀ p, store.row p = (d.store.row p).filter fun row => !row.expired cutoff)
      (announced : ∀ p st, .collected p st ∈ outs ↔
        ∃ row, d.store.row p = some row ∧ row.state = st ∧ store.row p = none)
      (quiet : ∀ o ∈ outs, o.observation = none ∧ ∀ p, ¬ o.Accepts p) :
      Effect B d who { d with store := store } outs

variable {B : Backends σ τ} {d : Daemon σ τ α} {who : ProgramId → Prop}

theorem effect_idle : Effect B d who d [] :=
  .moved (.refl _) (fun _ _ h => absurd h List.not_mem_nil) (fun _ hc => hc)
    (fun _ h => absurd h List.not_mem_nil)

theorem request_effect (L : Loader α) (nowMs : UnixMs) (freshId : ProgramId) (r : Request) :
    Effect B d (fun p => (DaemonInput.request L nowMs freshId r : DaemonInput σ τ α).Touches p)
      (d.request L nowMs freshId r).1 (d.request L nowMs freshId r).2 := by
  cases r with
  | cancel p | start p | shutdown => exact .posted fun _ => nofun
  | submit programJson baseDir =>
    simp only [request]
    cases hprogram : L.validateValue programJson with
    | error e => exact .refused fun _ => rfl
    | ok program =>
      -- whatever `submitLocked` refuses, it refuses before the row is there
      dsimp only
      rcases submitLocked_cases (L := L) (s := d.store) (program.id.getD freshId) program
        baseDir nowMs with ⟨row, hnone, hstate, hcursor, hcode, ⟨x, hx⟩, hself, hne⟩ | ⟨⟨e, he⟩, hrows⟩
      · rw [hx]
        exact .submitted ⟨program, hprogram, rfl⟩ hnone hself hstate hcursor hcode hne
      · rw [he]
        exact .refused hrows
  | resume p fromStart =>
    simp only [request]
    rcases resumeLocked_cases (L := L) (s := d.store) p fromStart nowMs with
      ⟨row, cursor, hrow, hres, hcursor, hself, hne, hout⟩ | ⟨⟨e, he⟩, hrows⟩
    · have hfrom : cursor = 0 ∨ cursor = row.bodyCursor := by
        rw [hcursor]
        cases fromStart
        · exact .inr rfl
        · exact .inl rfl
      -- the row is written first, whether or not its program can be loaded then
      cases hr : (resumeLocked L d.store p fromStart nowMs).1 with
      | error e =>
        have heff : Effect B d (fun q => p = q)
            { d with
              store := (resumeLocked L d.store p fromStart nowMs).2
              inflight := d.inflight ++ [] } [.answered (.error e)] :=
          .resumed [] rfl ⟨hrow, hres⟩ hfrom hself hne (.inl ⟨rfl, e, rfl⟩)
        rwa [List.append_nil] at heff
      | ok x =>
        have hstep := hout x hr
        obtain ⟨out, program, assets⟩ := x
        obtain rfl := hstep
        exact .resumed _ rfl ⟨hrow, hres⟩ hfrom hself hne (.inr ⟨rfl, _, _, rfl⟩)
    · rw [he]
      exact .refused hrows
  | gc =>
    refine .collected (fun p => gcLocked_row) ?_ ?_
    · intro p st
      have hrows : ∀ row, (p, row) ∈ d.store.programs.rows ↔ d.store.row p = some row :=
        fun row => Table.mem_rows_iff
      simp only [request, List.mem_append, List.mem_map, List.mem_filter, List.mem_singleton,
        reduceCtorEq, or_false, Notice.collected.injEq, Option.isNone_iff_eq_none, Prod.exists]
      constructor
      · rintro ⟨q, row, ⟨hmem, hnone⟩, rfl, rfl⟩
        exact ⟨row, (hrows row).mp hmem, rfl, hnone⟩
      · rintro ⟨row, hrow, rfl, hnone⟩
        exact ⟨p, row, ⟨(hrows row).mpr hrow, hnone⟩, rfl, rfl⟩
    · intro o ho
      rcases List.mem_append.mp ho with ho | ho
      · obtain ⟨q, _, rfl⟩ := List.mem_map.mp ho
        exact ⟨rfl, fun _ ⟨_, _, h⟩ => nomatch h⟩
      · rw [List.mem_singleton.mp ho]
        exact ⟨rfl, fun _ ⟨_, _, h⟩ => nomatch h⟩

theorem deliver_effect (i : Nat) : Effect B d who (d.deliver i).1 (d.deliver i).2 := by
  unfold deliver
  cases hc : d.inflight[i]? with
  | none => exact effect_idle
  | some c =>
    dsimp only
    split_ifs with hstop hroom
    · refine .dropped hstop ?_ rfl
      rintro p ⟨program, assets, h⟩
      cases c <;> exact nomatch h
    · have hmem : c ∈ d.inflight := List.mem_of_getElem? hc
      refine .moved ?_ ?_ (fun c hc => List.mem_of_mem_eraseIdx hc) ?_
      · obtain ⟨hlt, rfl⟩ := List.getElem?_eq_some_iff.mp hc
        have hperm := List.getElem_cons_eraseIdx_perm hlt
        rw [List.append_assoc, List.singleton_append, ← List.cons_append]
        exact (hperm.append_right d.backlog).append_left d.cmds
      · rintro p o ho ⟨program, assets, rfl⟩
        obtain rfl := Option.some.inj (Except.ok.inj (Notice.answered.inj (List.mem_singleton.mp ho)))
        exact ⟨program, assets, hmem⟩
      · intro o ho
        rw [List.mem_singleton.mp ho]
        rfl
    · exact effect_idle

theorem bootSend_effect : Effect B d who d.bootSend [] := by
  unfold bootSend
  cases hb : d.backlog with
  | nil => exact effect_idle
  | cons c rest =>
    dsimp only
    split_ifs
    · refine .moved ?_ (fun _ _ h => absurd h List.not_mem_nil) (fun _ hc => hc)
        (fun _ h => absurd h List.not_mem_nil)
      rw [pending, hb, List.append_assoc, List.singleton_append]
      exact List.perm_middle.symm.append_left d.cmds
    · exact effect_idle

theorem drain_effect (nowMs : UnixMs) (stamps : Nat → UnixMs) (running : d.stopped = false) :
    Effect B d who (d.drain nowMs stamps).1 (d.drain nowMs stamps).2 := by
  unfold drain
  cases hc : d.cmds with
  | nil => exact effect_idle
  | cons c rest =>
    cases c with
    | shutdown => exact .stopped hc
    | submitValidated | cancel | start | resumeRunning =>
      exact .scheduled stamps running (.command nowMs hc)

/-- Every step has one of these effects. -/
theorem step_effect (i : DaemonInput σ τ α) :
    Effect B d (fun p => i.Touches p) (d.step B i).1 (d.step B i).2 := by
  cases i with
  | request L nowMs freshId r =>
    simp only [step]
    split_ifs
    · exact request_effect L nowMs freshId r
    · exact effect_idle
  | deliver i => exact deliver_effect i
  | bootSend => exact bootSend_effect
  | drain nowMs stamps =>
    simp only [step]
    split_ifs with h
    · exact drain_effect nowMs stamps (by simpa using (Bool.and_eq_true_iff.mp h).2)
    · exact effect_idle
  | tick t stamps =>
    simp only [step]
    split_ifs with h
    · exact .scheduled stamps (by simpa using (Bool.and_eq_true_iff.mp h).2) (.tick t)
    · exact effect_idle
  | pump =>
    simp only [step, pump]
    cases hev : d.events with
    | nil => exact effect_idle
    | cons ev rest => exact .pumped hev
  | restart L nowMs env => exact .restarted L nowMs env fun _ => trivial

theorem tick_cmds (d : Daemon σ τ α) (t : TickInput) (stamps : Nat → UnixMs) :
    (d.step B (.tick t stamps)).1.cmds = d.cmds := by
  rw [Daemon.step]
  split_ifs <;> rfl

theorem request_cmds (d : Daemon σ τ α) (L : Loader α) (nowMs : UnixMs) (freshId : ProgramId)
    (r : Request) : (d.step B (.request L nowMs freshId r)).1.cmds = d.cmds := by
  rw [step]
  split_ifs
  · cases r with
    | submit programJson baseDir =>
      simp only [request]
      cases L.validateValue programJson with
      | error e => rfl
      | ok program =>
        dsimp only
        split <;> rfl
    | resume pid fromStart =>
      simp only [request]
      split <;> rfl
    | cancel | start | gc | shutdown => rfl
  · rfl

theorem step_room (i : DaemonInput σ τ α) (h : d.cmds.length ≤ cmdCapacity) :
    (d.step B i).1.cmds.length ≤ cmdCapacity := by
  cases i with
  | request L nowMs freshId r =>
    rw [request_cmds]
    exact h
  | deliver i =>
    simp only [step, deliver]
    split
    · exact h
    · split_ifs
      · exact h
      · rw [List.length_append]
        assumption
      · exact h
  | bootSend =>
    simp only [step, bootSend]
    split
    · exact h
    · split_ifs
      · rw [List.length_append]
        assumption
      · exact h
  | drain nowMs stamps =>
    simp only [step]
    split_ifs
    · rw [drain]
      split
      · exact h
      · next rest hcmds =>
        rw [hcmds, List.length_cons] at h
        exact Nat.le_of_succ_le h
      · next c rest hcmds =>
        rw [hcmds, List.length_cons] at h
        exact Nat.le_of_succ_le h
    · exact h
  | tick t stamps =>
    rw [tick_cmds]
    exact h
  | pump =>
    simp only [step, pump]
    split <;> exact h
  | restart => exact Nat.zero_le _

end Daemon

end Vcli

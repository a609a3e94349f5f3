import Vcli.Daemon.System

/-! The pump between the store and the subscribers. It stores an event and then publishes it, and
it publishes the event whether or not the store has taken it. -/

namespace Vcli

open Transducer

section Log
variable {α : Type} {L : Loader α} {s : Store α} {nowMs : UnixMs}

def Store.Pruned (s s' : Store α) : Prop :=
  s'.nextEventId = s.nextEventId ∧
    ∃ keep : ProgramId → Bool, s'.events = s.events.filter fun e => keep e.programId

theorem Store.pruned_of_same {s' : Store α} (hnext : s'.nextEventId = s.nextEventId)
    (hevents : s'.events = s.events) : s.Pruned s' :=
  ⟨hnext, fun _ => true, by rw [hevents, List.filter_true]⟩

theorem linkAssets_log (pid : ProgramId) (hashes : List String) (s : Store α) :
    (linkAssets pid hashes s).2.nextEventId = s.nextEventId ∧
      (linkAssets pid hashes s).2.events = s.events := by
  obtain ⟨links, hframe⟩ := linkAssets_frame pid hashes s
  rw [hframe]
  exact ⟨rfl, rfl⟩

theorem submitLocked_log (L : Loader α) (s : Store α) (nowMs : UnixMs) (pid : ProgramId)
    (program : Program) (baseDir : Option String) :
    (submitLocked L s pid program baseDir nowMs).2.nextEventId = s.nextEventId ∧
      (submitLocked L s pid program baseDir nowMs).2.events = s.events := by
  unfold submitLocked
  rcases L.materialize s.assets program baseDir nowMs with ⟨e | ⟨rewritten, materialized⟩, a⟩
  · exact ⟨rfl, rfl⟩
  dsimp only
  rcases L.canonical rewritten with e | canonical
  · exact ⟨rfl, rfl⟩
  dsimp only [Store.insertProgram]
  cases s.programs.insert? pid (.ofNew
      ⟨pid, program.name, canonical, .pending, nowMs, "\x7b\x7d"⟩) with
  | none => exact ⟨rfl, rfl⟩
  | some programs => exact linkAssets_log pid materialized.hashes _

theorem resumeLocked_log (L : Loader α) (s : Store α) (nowMs : UnixMs) (pid : ProgramId)
    (fromStart : Bool) :
    (resumeLocked L s pid fromStart nowMs).2.nextEventId = s.nextEventId ∧
      (resumeLocked L s pid fromStart nowMs).2.events = s.events := by
  by_cases hany : ∃ row, s.row pid = some row ∧ row.resumable = true
  · obtain ⟨row, hrow, hres⟩ := hany
    rw [resumeLocked_resumable (L := L) fromStart nowMs hrow hres]
    exact ⟨rfl, rfl⟩
  · obtain ⟨e, heq⟩ := resumeLocked_refused (L := L) fromStart nowMs
      fun row hrow hres => hany ⟨row, hrow, hres⟩
    rw [heq]
    exact ⟨rfl, rfl⟩

theorem request_log {σ τ : Type} (d : Daemon σ τ α) (freshId : ProgramId) (r : Request) :
    d.store.Pruned (d.request L nowMs freshId r).1.store := by
  cases r with
  | submit programJson baseDir =>
    rw [Daemon.request]
    cases L.validateValue programJson with
    | error e => exact Store.pruned_of_same rfl rfl
    | ok program =>
      have hlog := submitLocked_log L d.store nowMs (program.id.getD freshId) program
        baseDir
      dsimp only
      cases (submitLocked L d.store (program.id.getD freshId) program baseDir nowMs).1 <;>
        exact Store.pruned_of_same hlog.1 hlog.2
  | resume pid fromStart =>
    have hlog := resumeLocked_log L d.store nowMs pid fromStart
    rw [Daemon.request]
    cases (resumeLocked L d.store pid fromStart nowMs).1 <;>
      exact Store.pruned_of_same hlog.1 hlog.2
  | gc => exact ⟨rfl, fun p => ((gcLocked L d.store nowMs).row p).isSome, rfl⟩
  | cancel | start | shutdown => exact Store.pruned_of_same rfl rfl

theorem attempt_updateRow_log (s : Store α) (pid : ProgramId) (f : ProgramRow → ProgramRow) :
    (s.attempt (s.updateRow pid f)).nextEventId = s.nextEventId ∧
      (s.attempt (s.updateRow pid f)).events = s.events := by
  unfold Store.updateRow
  split_ifs <;> exact ⟨rfl, rfl⟩

theorem persistProgramEvent_log (s : Store α) (pid : ProgramId) (ev : Event) :
    (persistProgramEvent s pid ev).nextEventId =
        (s.attempt (s.appendEvent pid ev)).nextEventId ∧
      (persistProgramEvent s pid ev).events = (s.attempt (s.appendEvent pid ev)).events := by
  unfold persistProgramEvent
  dsimp only
  split
  · exact attempt_updateRow_log _ _ _
  · exact attempt_updateRow_log _ _ _
  · exact attempt_updateRow_log _ _ _
  · have hfirst := attempt_updateRow_log (s.attempt (s.appendEvent pid ev)) pid
      (.moved .running ev.at_)
    have hsecond := attempt_updateRow_log ((s.attempt (s.appendEvent pid ev)).attempt
      ((s.attempt (s.appendEvent pid ev)).updateState pid .running ev.at_)) pid
    exact ⟨(hsecond _).1.trans hfirst.1, (hsecond _).2.trans hfirst.2⟩
  · exact ⟨rfl, rfl⟩

end Log

/-- The daemon with what its subscribers were sent since it came up. `since` is the number that the
first event row of this daemon gets. -/
structure Broadcasting (σ τ α : Type) where
  daemon : Daemon σ τ α
  sent : List Event
  since : Nat

namespace Broadcasting

variable {σ τ α : Type}

def start (L : Loader α) (nowMs : UnixMs) (env : Env σ τ) (image : Store α) :
    Broadcasting σ τ α :=
  ⟨.startup L nowMs env image, [], image.nextEventId⟩

def published (d : Daemon σ τ α) : DaemonInput σ τ α → List Event
  | .pump => d.events.head?.toList
  | _ => []

def step (B : Backends σ τ) (w : Broadcasting σ τ α) (i : DaemonInput σ τ α) :
    Broadcasting σ τ α × List Event :=
  match i with
  | .restart L nowMs env => (start L nowMs env w.daemon.store, [])
  | i =>
    (⟨(w.daemon.step B i).1, w.sent ++ published w.daemon i, w.since⟩, published w.daemon i)

def rowsOf (p : ProgramId) (w : Broadcasting σ τ α) : List StoredEvent :=
  w.daemon.store.events.filter fun e => decide (e.programId = p ∧ w.since ≤ e.id)

def sentOf (p : ProgramId) (w : Broadcasting σ τ α) : List Event :=
  w.sent.filter fun ev => decide (ev.data.programIdOf = some p)

def Orphaned (w : Broadcasting σ τ α) (i : DaemonInput σ τ α) : Prop :=
  ∃ ev ∈ published w.daemon i, ∃ p, ev.data.programIdOf = some p ∧ w.daemon.store.row p = none

instance (w : Broadcasting σ τ α) (i : DaemonInput σ τ α) : Decidable (w.Orphaned i) :=
  decidable_of_iff (∃ ev ∈ published w.daemon i,
      (ev.data.programIdOf.any fun p => (w.daemon.store.row p).isNone) = true) <| by
    simp only [Orphaned, Option.any_eq_true, Option.isNone_iff_eq_none]

def Recorded (B : Backends σ τ) (w : Broadcasting σ τ α) (i : DaemonInput σ τ α) : Prop :=
  ∀ ev ∈ published w.daemon i, ∀ p, ev.data.programIdOf = some p →
    (rowsOf p (step B w i).1).getLast?.map StoredEvent.event = some ev

/-- The rows are numbered in their order, and those of each program are the last events of it that
were published. -/
structure InOrder (w : Broadcasting σ τ α) : Prop where
  ids : (w.daemon.store.events.map StoredEvent.id).Pairwise (· < ·)
  order : ∀ p, (w.rowsOf p).map StoredEvent.event <:+ w.sentOf p

structure Numbered (w : Broadcasting σ τ α) : Prop extends InOrder w where
  bound : ∀ e ∈ w.daemon.store.events, e.id < w.daemon.store.nextEventId
  since_le : w.since ≤ w.daemon.store.nextEventId

variable {B : Backends σ τ} {w : Broadcasting σ τ α}

theorem Numbered.prune (h : w.Numbered) {d : Daemon σ τ α}
    (hp : w.daemon.store.Pruned d.store) : Numbered ⟨d, w.sent, w.since⟩ := by
  obtain ⟨hnext, keep, hevents⟩ := hp
  refine ⟨⟨?_, fun p => ?_⟩, ?_, ?_⟩
  · rw [hevents]
    exact h.ids.sublist (List.filter_sublist.map _)
  · have hrows : rowsOf p ⟨d, w.sent, w.since⟩ = if keep p then w.rowsOf p else [] := by
      simp only [rowsOf, hevents, List.filter_filter]
      split_ifs with hkeep
      · apply List.filter_congr
        intro e _
        by_cases he : e.programId = p
        · simp [he, hkeep]
        · simp [he]
      · rw [List.filter_eq_nil_iff]
        intro e _
        by_cases he : e.programId = p
        · simp [he, hkeep]
        · simp [he]
    rw [hrows]
    split_ifs
    · exact h.order p
    · exact List.nil_suffix
  · intro e he
    rw [hevents] at he
    rw [hnext]
    exact h.bound e (List.mem_of_mem_filter he)
  · rw [hnext]
    exact h.since_le

theorem step_eq (i : DaemonInput σ τ α) (h : ∀ L nowMs env, i ≠ .restart L nowMs env) :
    (step B w i).1 = ⟨(w.daemon.step B i).1, w.sent ++ published w.daemon i, w.since⟩ := by
  cases i with
  | restart L nowMs env => exact absurd rfl (h L nowMs env)
  | request | deliver | bootSend | drain | tick | pump => rfl

theorem step_pump : (step B w .pump).1 =
    ⟨w.daemon.pump, w.sent ++ w.daemon.events.head?.toList, w.since⟩ := rfl

theorem step_pruned (i : DaemonInput σ τ α) (h : published w.daemon i = []) :
    w.daemon.store.Pruned (w.daemon.step B i).1.store := by
  cases i with
  | request L nowMs freshId r =>
    rw [Daemon.step]
    split_ifs
    · exact request_log w.daemon freshId r
    · exact Store.pruned_of_same rfl rfl
  | deliver i =>
    rw [Daemon.step, Daemon.deliver]
    split
    · exact Store.pruned_of_same rfl rfl
    · split_ifs <;> exact Store.pruned_of_same rfl rfl
  | bootSend =>
    rw [Daemon.step, Daemon.bootSend]
    split
    · exact Store.pruned_of_same rfl rfl
    · split_ifs <;> exact Store.pruned_of_same rfl rfl
  | drain nowMs stamps =>
    rw [Daemon.step]
    split_ifs
    · unfold Daemon.drain
      split <;> exact Store.pruned_of_same rfl rfl
    · exact Store.pruned_of_same rfl rfl
  | tick t stamps =>
    rw [Daemon.step]
    split_ifs <;> exact Store.pruned_of_same rfl rfl
  | pump =>
    have hempty : w.daemon.events = [] := by
      cases hev : w.daemon.events with
      | nil => rfl
      | cons ev rest => simp [published, hev] at h
    rw [Daemon.step, Daemon.pump, hempty]
    exact Store.pruned_of_same rfl rfl
  | restart L nowMs env => exact Store.pruned_of_same rfl rfl

theorem start_numbered (L : Loader α) (nowMs : UnixMs) (env : Env σ τ) (h : w.Numbered) :
    (start L nowMs env w.daemon.store : Broadcasting σ τ α).Numbered := by
  refine ⟨⟨h.ids, fun p => ?_⟩, h.bound, Nat.le_refl _⟩
  have hnone : (start L nowMs env w.daemon.store : Broadcasting σ τ α).rowsOf p = [] := by
    rw [rowsOf, List.filter_eq_nil_iff]
    intro e he hnew
    have hold := h.bound e he
    have hsince : w.daemon.store.nextEventId ≤ e.id := (of_decide_eq_true hnew).2
    omega
  rw [hnone]
  exact List.nil_suffix

theorem pump_numbered {ev : Event} {rest : List Event} {p : ProgramId} (h : w.Numbered)
    (hev : w.daemon.events = ev :: rest) (hp : ev.data.programIdOf = some p)
    (hrow : (w.daemon.store.row p).isSome) :
    (step B w .pump).1.Numbered ∧
      (rowsOf p (step B w .pump).1).getLast?.map StoredEvent.event = some ev := by
  have hstore : (step B w .pump).1 = ⟨{ w.daemon with
      store := persistProgramEvent w.daemon.store p ev, events := rest }, w.sent ++ [ev],
      w.since⟩ := by
    rw [step_pump]
    simp only [Daemon.pump, hev, pumpEvent, hp, List.head?_cons, Option.toList_some]
  have hlog := persistProgramEvent_log w.daemon.store p ev
  have happend : w.daemon.store.attempt (w.daemon.store.appendEvent p ev) =
      { w.daemon.store with
        events := w.daemon.store.events ++ [⟨w.daemon.store.nextEventId, p, ev⟩]
        nextEventId := w.daemon.store.nextEventId + 1 } := by
    rw [Store.appendEvent, if_pos hrow]
    rfl
  rw [happend] at hlog
  rw [hstore]
  -- the log of one program grows by the event, and those of the others not at all
  have hrows : ∀ q, rowsOf q (⟨{ w.daemon with
      store := persistProgramEvent w.daemon.store p ev, events := rest }, w.sent ++ [ev],
      w.since⟩ : Broadcasting σ τ α) =
      w.rowsOf q ++ if p = q then [⟨w.daemon.store.nextEventId, p, ev⟩] else [] := by
    intro q
    simp only [rowsOf, hlog.2, List.filter_append]
    congr 1
    by_cases hq : p = q
    · simp [hq, h.since_le]
    · simp [hq]
  refine ⟨⟨⟨?_, fun q => ?_⟩, ?_, ?_⟩, ?_⟩
  · rw [hlog.2, List.map_append, List.pairwise_append]
    refine ⟨h.ids, List.pairwise_singleton _ _, ?_⟩
    intro a ha b hb
    obtain ⟨e, he, rfl⟩ := List.mem_map.mp ha
    rw [List.mem_singleton.mp hb]
    exact h.bound e he
  · rw [hrows]
    -- the pump stores an event and sends it in one step, so both lists end with it
    by_cases hq : p = q
    · obtain ⟨before, hbefore⟩ := h.order q
      refine ⟨before, ?_⟩
      rw [if_pos hq, List.map_append, ← List.append_assoc, hbefore]
      simp [sentOf, hp, hq]
    · have hsent : sentOf q (⟨{ w.daemon with
          store := persistProgramEvent w.daemon.store p ev, events := rest }, w.sent ++ [ev],
          w.since⟩ : Broadcasting σ τ α) = w.sentOf q := by
        simp [sentOf, hp, hq]
      rw [if_neg hq, List.append_nil, hsent]
      exact h.order q
  · intro e he
    rw [hlog.2] at he
    rw [hlog.1]
    rcases List.mem_append.mp he with he | he
    · exact Nat.lt_succ_of_lt (h.bound e he)
    · rw [List.mem_singleton.mp he]
      exact Nat.lt_succ_self _
  · rw [hlog.1]
    exact Nat.le_succ_of_le h.since_le
  · rw [hrows, if_pos rfl, List.getLast?_concat]
    rfl

theorem pump_unscoped {ev : Event} {rest : List Event} (h : w.Numbered)
    (hev : w.daemon.events = ev :: rest) (hp : ev.data.programIdOf = none) :
    (step B w .pump).1.Numbered := by
  have hstore : (step B w .pump).1 = ⟨{ w.daemon with events := rest }, w.sent ++ [ev],
      w.since⟩ := by
    rw [step_pump]
    simp only [Daemon.pump, hev, pumpEvent, hp, List.head?_cons, Option.toList_some]
  rw [hstore]
  refine ⟨⟨h.ids, fun q => ?_⟩, h.bound, h.since_le⟩
  have hsent : sentOf q (⟨{ w.daemon with events := rest }, w.sent ++ [ev], w.since⟩ :
      Broadcasting σ τ α) = w.sentOf q := by
    simp [sentOf, hp]
  rw [hsent]
  exact h.order q

theorem step_numbered (i : DaemonInput σ τ α) (h : w.Numbered) (hi : ¬ w.Orphaned i) :
    (step B w i).1.Numbered ∧ Recorded B w i := by
  cases hpub : published w.daemon i with
  | nil =>
    refine ⟨?_, fun ev hev => absurd (hpub ▸ hev) List.not_mem_nil⟩
    -- a step that publishes nothing writes no event either, save for a restart and its failures
    by_cases hrestart : ∃ L nowMs env, i = .restart L nowMs env
    · obtain ⟨L, nowMs, env, rfl⟩ := hrestart
      exact start_numbered L nowMs env h
    · have hsame : ∀ L nowMs env, i ≠ .restart L nowMs env :=
        fun L nowMs env hi => hrestart ⟨L, nowMs, env, hi⟩
      rw [step_eq i hsame, hpub, List.append_nil]
      exact h.prune (step_pruned i hpub)
  | cons ev more =>
    obtain ⟨rfl, rest, hev⟩ : i = .pump ∧ ∃ rest, w.daemon.events = ev :: rest := by
      cases i with
      | request | deliver | bootSend | drain | tick | restart => exact nomatch hpub
      | pump =>
        cases hevents : w.daemon.events with
        | nil => simp [published, hevents] at hpub
        | cons ev' rest =>
          simp only [published, hevents, List.head?_cons, Option.toList_some, List.cons.injEq] at hpub
          exact ⟨rfl, rest, by rw [hpub.1]⟩
    have honly : ∀ ev' ∈ published w.daemon .pump, ev' = ev := by
      intro ev' hev'
      simpa [published, hev] using hev'
    have hself : ev ∈ published w.daemon .pump := by simp [published, hev]
    cases hp : ev.data.programIdOf with
    | none =>
      refine ⟨pump_unscoped h hev hp, fun ev' hev' p hp' => ?_⟩
      rw [honly ev' hev', hp] at hp'
      exact nomatch hp'
    | some p =>
      have hrow : (w.daemon.store.row p).isSome := by
        rw [Option.isSome_iff_ne_none]
        exact fun hnone => hi ⟨ev, hself, p, hp, hnone⟩
      obtain ⟨hnumbered, hlast⟩ := pump_numbered (B := B) h hev hp hrow
      refine ⟨hnumbered, fun ev' hev' q hq => ?_⟩
      rw [honly ev' hev'] at hq ⊢
      rw [← Option.some.inj (hp.symm.trans hq)]
      exact hlast

theorem fresh_numbered (L : Loader α) (nowMs : UnixMs) (env : Env σ τ) (assets : α) :
    (start L nowMs env (.fresh assets) : Broadcasting σ τ α).Numbered :=
  ⟨⟨List.Pairwise.nil, fun _ => List.nil_suffix⟩, fun _ h => absurd h List.not_mem_nil,
    Nat.le_refl _⟩

/-- In every run from a fresh data directory whose pump steps find a row for the program of their
event, what is published is stored by then, and in the same order. -/
theorem stored_before_published (B : Backends σ τ) (L : Loader α) (nowMs : UnixMs) (env : Env σ τ)
    (assets : α) (is : List (DaemonInput σ τ α))
    (h : ∀ x ∈ trail (step B) (start L nowMs env (.fresh assets)) is, ¬ Orphaned x.1 x.2) :
    (∀ x ∈ trail (step B) (start L nowMs env (.fresh assets)) is, Recorded B x.1 x.2) ∧
      ∀ done, done <+: is → InOrder (run (step B) (start L nowMs env (.fresh assets)) done).1 := by
  have hall : ∀ x ∈ trail (step B) (start L nowMs env (.fresh assets)) is, x.1.Numbered :=
    trail_invariant (fresh_numbered L nowMs env assets)
      fun x hx hnum => (step_numbered x.2 hnum (h x hx)).1
  refine ⟨fun x hx => (step_numbered x.2 (hall x hx) (h x hx)).2, ?_⟩
  rintro done ⟨rest, rfl⟩
  rw [trail_append] at h
  have hdone : (run (step B) (start L nowMs env (.fresh assets)) done).1.Numbered :=
    run_trail_invariant (fresh_numbered L nowMs env assets)
      fun x hx hnum => (step_numbered x.2 hnum (h x (List.mem_append_left _ hx))).1
  exact hdone.toInOrder

def completing : List (DaemonInput Unit Unit Unit) :=
  let L := Loader.constant (Program.blank "demo")
  [.request L 5 ⟨1⟩ (.submit .null none), .deliver 0, .drain 6 fun _ => 7,
    .tick (.plain .dot 10) fun _ => 10, .pump, .pump, .pump, .pump, .pump, .pump]

theorem stored_before_published_completing :
    InOrder (run (step (Backends.constant (.ok ⟨true, none, 0⟩)))
      (start (Loader.constant (Program.blank "demo")) 0 ⟨(), ()⟩ (.fresh ())) completing).1 :=
  (stored_before_published (Backends.constant (.ok ⟨true, none, 0⟩))
    (Loader.constant (Program.blank "demo")) 0 ⟨(), ()⟩ () completing (by decide +kernel)).2
    completing List.prefix_rfl

def cancelledLate : List (DaemonInput Unit Unit Unit) :=
  let L := Loader.constant (Program.blank "demo")
  completing ++ [.request L 1000000000 ⟨2⟩ .gc, .request L 1000000001 ⟨2⟩ (.cancel ⟨1⟩),
    .deliver 0, .drain 1000000002 fun _ => 1000000003]

def collectedFirst : Broadcasting Unit Unit Unit :=
  (run (step (Backends.constant (.ok ⟨true, none, 0⟩)))
    (start (Loader.constant (Program.blank "demo")) 0 ⟨(), ()⟩ (.fresh ())) cancelledLate).1

theorem published_without_row :
    ¬ ∀ x ∈ trail (step (Backends.constant (.ok ⟨true, none, 0⟩)))
        (start (Loader.constant (Program.blank "demo")) 0 ⟨(), ()⟩ (.fresh ()))
        (cancelledLate ++ [.pump]),
      Recorded (Backends.constant (.ok ⟨true, none, 0⟩)) x.1 x.2 := by
  intro h
  have hlast : Recorded (Backends.constant (.ok ⟨true, none, 0⟩)) collectedFirst .pump :=
    h (collectedFirst, .pump) (mem_trail_iff.mpr ⟨cancelledLate, .pump, [], rfl, rfl⟩)
  have hpub : (published collectedFirst.daemon .pump).map
      (fun ev => ev.data.programIdOf) = [some ⟨1⟩] := by decide +kernel
  obtain ⟨ev, hev, hid⟩ := List.map_eq_singleton_iff.mp hpub
  have hrow := hlast ev (hev ▸ List.mem_singleton_self ev) ⟨1⟩ hid
  have hnone : (rowsOf ⟨1⟩ (step (Backends.constant (.ok ⟨true, none, 0⟩)) collectedFirst
      .pump).1).length = 0 := by decide +kernel
  rw [List.eq_nil_of_length_eq_zero hnone] at hrow
  exact nomatch hrow

end Broadcasting

end Vcli

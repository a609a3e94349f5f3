import Vcli.Daemon.Effects

/-! The store follows the scheduler: whatever the row of a program does not say yet is on the
event channel, in order. -/

namespace Vcli

open Transducer

def Event.Fails (p : ProgramId) (ev : Event) : Prop :=
  ∃ from_ reason, ev.data = .programStateChanged p from_ .failed reason

section Emitted
variable {stamps : Nat → UnixMs} {ms : List (Moment ProgramMap)}

theorem data_emitAll (stamps : Nat → UnixMs) (ms : List (Moment ProgramMap)) :
    (emitAll stamps ms).map Event.data = ms.filterMap Moment.emission := by
  apply List.ext_getElem
  · simp [emitAll]
  · intro i _ _
    simp [emitAll]

theorem mem_emitAll {ev : Event} (h : ev ∈ emitAll stamps ms) :
    ∃ m ∈ ms, m.obs = .emitted ev.data := by
  have hmem : ev.data ∈ ms.filterMap Moment.emission := by
    rw [← data_emitAll stamps]
    exact List.mem_map_of_mem h
  obtain ⟨m, hm, he⟩ := List.mem_filterMap.mp hmem
  refine ⟨m, hm, ?_⟩
  rw [Moment.emission] at he
  cases hobs : m.obs with
  | emitted data =>
    rw [hobs] at he
    exact congrArg Obs.emitted (Option.some.inj he)
  | _ =>
    rw [hobs] at he
    cases he

theorem ProgramRow.after_state {p : ProgramId} {ev : Event} {row : ProgramRow}
    (h : ev.data.programIdOf = some p) : (row.after ev).state = ev.data.tells p row.state := by
  obtain ⟨at_, data⟩ := ev
  cases data <;> exact (if_pos h).symm

/-- Only a failure rewrites the error code; any other event that leaves the row failed found
it so or is a bare change of state. -/
theorem ProgramRow.after_code {p : ProgramId} {ev : Event} (row : ProgramRow)
    (h : ev.data.programIdOf = some p) :
    ((row.after ev).lastErrorCode = row.lastErrorCode ∧
        ((row.after ev).state = .failed → row.state = .failed ∨ ev.Fails p)) ∨
      ∃ id reason step emit, ev.data = .programFailed id reason step emit ∧
        (row.after ev).lastErrorCode = some reason := by
  obtain ⟨at_, data⟩ := ev
  cases data with
  | programFailed id reason step emit => exact .inr ⟨id, reason, step, emit, rfl, rfl⟩
  | programStateChanged id from_ to_ reason =>
    refine .inl ⟨rfl, fun hto => .inr ⟨from_, reason, ?_⟩⟩
    rw [show id = p from Option.some.inj h, show to_ = .failed from hto]
  | programCompleted | programResumed => exact .inl ⟨rfl, nofun⟩
  | _ => exact .inl ⟨rfl, .inl⟩

end Emitted

namespace Daemon

variable {σ τ α : Type} {B : Backends σ τ} {d d' : Daemon σ τ α} {p : ProgramId}

structure Mirror (p : ProgramId) (d : Daemon σ τ α) : Prop where
  /-- The events on the channel lead from the row to the entry of the map. -/
  mirrored : d.stopped = false → ¬ d.Awaited p → ∀ rp row, d.sched.programs.lookup p = some rp →
    d.store.row p = some row → told p (d.events.map Event.data) row.state = rp.state
  /-- A row that is resumable, or is about to be, is none of the scheduler's. -/
  unclaimed : ∀ row, d.store.row p = some row → row.lastErrorCode = some "daemon_restart" →
    (row.state = .failed ∨ ∃ ev ∈ d.events, ev.Fails p) →
    d.sched.programs.lookup p = none ∧ ¬ d.Awaited p
  /-- No failure on the channel makes its program resumable. -/
  unmarked : ∀ ev ∈ d.events, ∀ id reason step emit,
    ev.data = .programFailed id reason step emit → reason ≠ "daemon_restart"

theorem recoveryEvents_data {nowMs : UnixMs} {recovered : List RecoveredProgram} {ev : Event}
    (h : ev ∈ recoveryEvents nowMs recovered ++ [daemonStarted nowMs]) :
    (∃ version, ev.data = .daemonStarted version) ∨ ∃ r ∈ recovered,
      ev.data = .programStateChanged r.id .running .failed "daemon_restart" ∨
        ∃ step, ev.data =
          .programFailed r.id "daemon restarted during execution" (some step) none := by
  rcases List.mem_append.mp h with h | h
  · obtain ⟨r, hr, hev⟩ := List.mem_flatMap.mp h
    refine .inr ⟨r, hr, ?_⟩
    rcases List.mem_cons.mp hev with rfl | hev
    · exact .inl rfl
    · rw [List.mem_singleton.mp hev]
      exact .inr ⟨_, rfl⟩
  · rw [List.mem_singleton.mp h]
    exact .inl ⟨_, rfl⟩

theorem startup_backlog {L : Loader α} {nowMs : UnixMs} {env : Env σ τ} {image : Store α} :
    (startup L nowMs env image).backlog =
      (reload L nowMs (image.recoverRunningPrograms.2.listPrograms (some .waiting))
        image.recoverRunningPrograms.2.assets).1 := rfl

theorem startup_awaited {L : Loader α} {nowMs : UnixMs} {env : Env σ τ} {image : Store α}
    (h : (startup L nowMs env image).Awaited p) :
    ∃ row, (startup L nowMs env image).store.row p = some row ∧ row.state = .waiting := by
  obtain ⟨c, hc, hins⟩ := h
  have hback : c ∈ (startup L nowMs env image).backlog := hc
  rw [startup_backlog] at hback
  obtain ⟨id, row, program, assets, hmem, rfl⟩ := mem_reload hback
  obtain rfl : id = p := hins
  exact ⟨row, mem_listPrograms.mp hmem⟩

theorem startup_mirror (L : Loader α) (nowMs : UnixMs) (env : Env σ τ) (image : Store α) :
    Mirror p (startup L nowMs env image) := by
  have hempty : (startup L nowMs env image).sched.programs.lookup p = none := AList.lookup_empty p
  refine ⟨?_, ?_, ?_⟩
  · intro _ _ rp row hrp
    exact nomatch hempty.symm.trans hrp
  · intro row hrow _ hfail
    refine ⟨hempty, fun hwait => ?_⟩
    obtain ⟨row', hrow', hstate⟩ := startup_awaited hwait
    obtain rfl := Option.some.inj (hrow.symm.trans hrow')
    -- a failure on the channel is of a row that recovery has just rewritten
    rcases hfail with hfail | ⟨ev, hev, from_, reason, hdata⟩
    · exact nomatch hstate.symm.trans hfail
    · rcases recoveryEvents_data hev with ⟨_, hd⟩ | ⟨r, hr, hd | ⟨_, hd⟩⟩
      · exact nomatch hdata.symm.trans hd
      · obtain ⟨hid, _⟩ := EventData.programStateChanged.inj (hdata.symm.trans hd)
        obtain ⟨row₀, hrow₀, hrun, _⟩ := mem_recovered.mp hr
        have hrec : (startup L nowMs env image).store.row p = some row₀.recovered := by
          refine row_recover.trans ?_
          rw [hid, hrow₀, Option.map_some]
        obtain rfl := Option.some.inj (hrow.symm.trans hrec)
        rw [ProgramRow.recovered, if_pos hrun] at hstate
        exact nomatch hstate
      · exact nomatch hdata.symm.trans hd
  · intro ev hev id reason step emit hdata
    rcases recoveryEvents_data hev with ⟨_, hd⟩ | ⟨r, hr, hd | ⟨_, hd⟩⟩
    · exact nomatch hdata.symm.trans hd
    · exact nomatch hdata.symm.trans hd
    · obtain ⟨_, rfl, _⟩ := EventData.programFailed.inj (hdata.symm.trans hd)
      decide

theorem Awaited.of_subset (hsub : ∀ c ∈ d'.pending, c.inserts p → c ∈ d.pending)
    (h : d'.Awaited p) : d.Awaited p := by
  obtain ⟨c, hc, hins⟩ := h
  exact ⟨c, hsub c hc hins, hins⟩

theorem Takes.cases {i : Input} {cmds : List SchedulerCommand} (h : d.Takes i cmds) :
    (¬ i.inserts p ∧ ∀ c, c.inserts p → (c ∈ cmds ↔ c ∈ d.cmds)) ∨
      (i.inserts p ∧ d.Awaited p ∧ ∀ c ∈ cmds, c ∈ d.cmds) := by
  cases h with
  | tick t => exact .inl ⟨id, fun _ _ => .rfl⟩
  | @command c rest nowMs hcmds =>
    by_cases hins : c.inserts p
    · refine .inr ⟨hins, ⟨c, ?_, hins⟩, fun x hx => hcmds ▸ List.mem_cons_of_mem _ hx⟩
      exact List.mem_append_left _ (hcmds ▸ List.mem_cons_self)
    · refine .inl ⟨hins, fun x hx => ?_⟩
      rw [hcmds, List.mem_cons]
      exact ⟨.inr, fun h => h.resolve_left fun he => hins (he ▸ hx)⟩

theorem Mirror.scheduled (h : Mirror p d) {i : Input} {cmds : List SchedulerCommand}
    (stamps : Nat → UnixMs) (running : d.stopped = false) (ht : d.Takes i cmds) :
    Mirror p { d with
      cmds := cmds
      sched := (d.sched.step B i).1
      events := d.events ++ emitAll stamps (d.sched.step B i).2 } := by
  have hplain : ∀ ev ∈ emitAll stamps (d.sched.step B i).2, ev.data.Plain := by
    intro ev hev
    obtain ⟨m, hm, hobs⟩ := mem_emitAll hev
    exact Scheduler.step_plain i hm hobs
  refine ⟨?_, ?_, ?_⟩
  · intro _ hnot rp row hrp hrow
    dsimp only
    rw [List.map_append, told_append, data_emitAll]
    -- an input that inserts the program makes its entry anew, and any other keeps them in step
    rcases ht.cases (p := p) with ⟨hins, hsame⟩ | ⟨hins, _, _⟩
    · have hnot' : ¬ d.Awaited p := by
        rintro ⟨c, hc, hcins⟩
        refine hnot ⟨c, ?_, hcins⟩
        rcases List.mem_append.mp hc with hc | hc
        · exact List.mem_append_left _ ((hsame c hcins).mpr hc)
        · exact List.mem_append_right _ hc
      refine Scheduler.step_told i ?_ hrp
      intro rp₀ hrp₀
      exact (h.mirrored running hnot' rp₀ row hrp₀ hrow).symm
    · exact Scheduler.step_told_inserts hins hrp
  · intro row hrow hcode hfail
    -- the scheduler fails no program on account of a restart, so the failure was there before
    have hfail' : row.state = .failed ∨ ∃ ev ∈ d.events, ev.Fails p := by
      rcases hfail with hfail | ⟨ev, hev, from_, reason, hdata⟩
      · exact .inl hfail
      · rcases List.mem_append.mp hev with hev | hev
        · exact .inr ⟨ev, hev, from_, reason, hdata⟩
        · have hp := hplain ev hev
          rw [hdata] at hp
          exact absurd rfl hp
    obtain ⟨hnone, hnot⟩ := h.unclaimed row hrow hcode hfail'
    rcases ht.cases (p := p) with ⟨hins, hsame⟩ | ⟨_, hwait, _⟩
    · refine ⟨(Scheduler.step_absent hnone hins).1, fun hwait => hnot (hwait.of_subset ?_)⟩
      intro c hc hcins
      rcases List.mem_append.mp hc with hc | hc
      · exact List.mem_append_left _ ((hsame c hcins).mp hc)
      · exact List.mem_append_right _ hc
    · exact absurd hwait hnot
  · intro ev hev id reason step emit hdata
    rcases List.mem_append.mp hev with hev | hev
    · exact h.unmarked ev hev id reason step emit hdata
    · have hp := hplain ev hev
      rw [hdata] at hp
      exact hp

theorem Mirror.pumped (h : Mirror p d) {ev : Event} {rest : List Event}
    (hev : d.events = ev :: rest) :
    Mirror p { d with store := pumpEvent d.store ev, events := rest } := by
  have hrest : ∀ e ∈ rest, e ∈ d.events := fun e he => hev ▸ List.mem_cons_of_mem _ he
  refine ⟨?_, ?_, fun e he => h.unmarked e (hrest e he)⟩
  · intro hstop hnot rp row hrp hrow
    dsimp only at hrow ⊢
    rw [Store.row_pumpEvent] at hrow
    split_ifs at hrow with hid
    · obtain ⟨row₀, hrow₀, rfl⟩ := Option.map_eq_some_iff.mp hrow
      have hold := h.mirrored hstop hnot rp row₀ hrp hrow₀
      rw [hev] at hold
      rw [ProgramRow.after_state hid]
      exact hold
    · have hold := h.mirrored hstop hnot rp row hrp hrow
      rw [hev, List.map_cons, told, List.foldl_cons, tells_ne hid] at hold
      exact hold
  · intro row hrow hcode hfail
    dsimp only at hrow hfail
    rw [Store.row_pumpEvent] at hrow
    split_ifs at hrow with hid
    · obtain ⟨row₀, hrow₀, rfl⟩ := Option.map_eq_some_iff.mp hrow
      have hhead : ev ∈ d.events := hev ▸ List.mem_cons_self
      rcases row₀.after_code hid with ⟨hc, hstate⟩ | ⟨id, reason, step, emit, hdata, hc⟩
      · refine h.unclaimed row₀ hrow₀ (hc.symm.trans hcode) ?_
        rcases hfail with hfail | ⟨e, he, hf⟩
        · exact (hstate hfail).imp_right fun hf => ⟨ev, hhead, hf⟩
        · exact .inr ⟨e, hrest e he, hf⟩
      · exact absurd (Option.some.inj (hc.symm.trans hcode)) (h.unmarked ev hhead _ _ _ _ hdata)
    · refine h.unclaimed row hrow hcode ?_
      rcases hfail with hfail | ⟨e, he, hf⟩
      · exact .inl hfail
      · exact .inr ⟨e, hrest e he, hf⟩

/-- Steps that touch neither the map nor the event channel keep the mirror, as long as they
bring no row of `p` and wait for an insertion of `p` exactly when they did before. -/
theorem Mirror.frame (h : Mirror p d) (hsched : d'.sched = d.sched) (hevents : d'.events = d.events)
    (hstop : d'.stopped = false → d.stopped = false)
    (hrows : ∀ row, d'.store.row p = some row → d.store.row p = some row)
    (hless : ∀ c ∈ d'.pending, c.inserts p → c ∈ d.pending)
    (hmore : d'.stopped = false → ∀ c ∈ d.pending, c.inserts p → c ∈ d'.pending) :
    Mirror p d' := by
  refine ⟨?_, ?_, ?_⟩
  · intro hrun hnot rp row hrp hrow
    rw [hsched] at hrp
    rw [hevents]
    refine h.mirrored (hstop hrun) ?_ rp row hrp (hrows row hrow)
    exact fun hwait => hnot (hwait.of_subset (hmore hrun))
  · intro row hrow hcode hfail
    rw [hevents] at hfail
    obtain ⟨hnone, hnot⟩ := h.unclaimed row (hrows row hrow) hcode hfail
    rw [hsched]
    exact ⟨hnone, fun hwait => hnot (hwait.of_subset hless)⟩
  · rw [hevents]
    exact h.unmarked

theorem mem_pending_append {x : SchedulerCommand} {store : Store α} {cs : List SchedulerCommand} :
    x ∈ ({ d with store := store, inflight := d.inflight ++ cs } : Daemon σ τ α).pending ↔
      x ∈ d.pending ∨ x ∈ cs := by
  simp only [pending, List.mem_append]
  tauto

theorem mem_pending_eraseIdx {x : SchedulerCommand} {i : Nat}
    (h : x ∈ ({ d with inflight := d.inflight.eraseIdx i } : Daemon σ τ α).pending) :
    x ∈ d.pending := by
  rcases List.mem_append.mp h with h | h
  · exact List.mem_append_left _ h
  · refine List.mem_append_right _ ?_
    rcases List.mem_append.mp h with h | h
    · exact List.mem_append_left _ (List.mem_of_mem_eraseIdx h)
    · exact List.mem_append_right _ h

theorem Mirror.effect (h : Mirror p d) {who : ProgramId → Prop} {outs : List Notice}
    (he : Effect B d who d' outs) : Mirror p d' := by
  cases he with
  | restarted L nowMs env all => exact startup_mirror L nowMs env d.store
  | scheduled stamps running ht => exact h.scheduled stamps running ht
  | pumped hev => exact h.pumped hev
  | @stopped rest hcmds =>
    refine h.frame rfl rfl (fun hrun => by cases hrun) (fun _ hrow => hrow) ?_ fun hrun => by cases hrun
    intro c hc _
    rw [pending, hcmds]
    exact List.mem_cons_of_mem _ hc
  | moved same accepted kept quiet =>
    refine h.frame rfl rfl (fun hrun => hrun) (fun _ hrow => hrow) ?_ ?_
    · exact fun c hc _ => same.mem_iff.mp hc
    · exact fun _ c hc _ => same.mem_iff.mpr hc
  | dropped gone refused quiet =>
    refine h.frame rfl rfl (fun hrun => hrun) (fun _ hrow => hrow) ?_ ?_
    · exact fun c hc _ => mem_pending_eraseIdx hc
    -- the command is lost because the scheduler is gone, which then owes the rows nothing
    · exact fun hrun => absurd (hrun.symm.trans gone) Bool.false_ne_true
  | posted hc =>
    refine h.frame rfl rfl (fun hrun => hrun) (fun _ hrow => hrow) ?_ ?_
    · intro x hx hins
      refine (mem_pending_append.mp hx).resolve_right fun he => hc p ?_
      rwa [← List.mem_singleton.mp he]
    · exact fun _ x hx _ => mem_pending_append.mpr (.inl hx)
  | refused rows =>
    refine h.frame rfl rfl (fun hrun => hrun) ?_ (fun _ hc _ => hc) (fun _ _ hc _ => hc)
    exact fun row hrow => (rows p).symm.trans hrow
  | collected rows announced quiet =>
    refine h.frame rfl rfl (fun hrun => hrun) ?_ (fun _ hc _ => hc) (fun _ _ hc _ => hc)
    exact fun row hrow => (Option.filter_eq_some_iff.mp ((rows p).symm.trans hrow)).1
  | @submitted store q row program assets asked absent present state cursor code rows =>
    by_cases hq : p = q
    · -- the new row waits for its own command, whatever the map holds under its id
      subst hq
      have hwait : Awaited p
          { d with store := store, inflight := d.inflight ++ [.submitValidated p program assets] } :=
        ⟨_, mem_pending_append.mpr (.inr List.mem_cons_self), rfl⟩
      refine ⟨fun _ hnot => absurd hwait hnot, ?_, h.unmarked⟩
      intro row' hrow' hcode
      obtain rfl := Option.some.inj (present.symm.trans hrow')
      cases code.symm.trans hcode
    · refine h.frame rfl rfl (fun hrun => hrun) ?_ ?_ ?_
      · intro row' hrow'
        rw [← rows p hq]
        exact hrow'
      · intro x hx hins
        refine (mem_pending_append.mp hx).resolve_right fun he => hq ?_
        rw [List.mem_singleton.mp he] at hins
        exact hins.symm
      · exact fun _ x hx _ => mem_pending_append.mpr (.inl hx)
  | @resumed store q row cursor nowMs _ cs asked resumable from_ present rows sends =>
    by_cases hq : p = q
    · subst hq
      obtain ⟨hrow, hres⟩ := resumable
      obtain ⟨hstate, hcode⟩ : row.state = .failed ∧ row.lastErrorCode = some "daemon_restart" := by
        simpa [ProgramRow.resumable] using hres
      -- a row that can be resumed has no program in the map
      obtain ⟨hnone, _⟩ := h.unclaimed row hrow hcode (.inl hstate)
      refine ⟨fun _ _ rp row' hrp => ?_, ?_, h.unmarked⟩
      · cases hnone.symm.trans hrp
      intro row' hrow' hcode'
      obtain rfl := Option.some.inj (present.symm.trans hrow')
      cases hcode'
    · refine h.frame rfl rfl (fun hrun => hrun) ?_ ?_ ?_
      · intro row' hrow'
        rw [← rows p hq]
        exact hrow'
      · intro x hx hins
        refine (mem_pending_append.mp hx).resolve_right fun he => hq ?_
        rcases sends with ⟨rfl, _⟩ | ⟨_, program, assets, rfl⟩
        · exact absurd he List.not_mem_nil
        · rw [List.mem_singleton.mp he] at hins
          exact hins.symm
      · exact fun _ x hx _ => mem_pending_append.mpr (.inl hx)

structure Quiet (d : Daemon σ τ α) : Prop where
  up : d.backlog = []
  idle : d.inflight = []
  cmds : d.cmds = []
  events : d.events = []

theorem quiet_mirrors (B : Backends σ τ) (L : Loader α) (nowMs : UnixMs)
    (env : Env σ τ) (image : Store α) (is : List (DaemonInput σ τ α)) :
    let d := (run (step B) (startup L nowMs env image) is).1
    d.Quiet → d.stopped = false → ∀ p rp row, d.sched.programs.lookup p = some rp →
      d.store.row p = some row → row.state = rp.state := by
  intro d hquiet hrun p rp row hrp hrow
  have hmirror : Mirror p d :=
    run_invariant (fun s i _ h => h.effect (step_effect i)) (startup_mirror L nowMs env image)
  have hnot : ¬ d.Awaited p := by
    rintro ⟨c, hc, _⟩
    rw [pending, hquiet.cmds, hquiet.idle, hquiet.up] at hc
    exact absurd hc List.not_mem_nil
  have htold := hmirror.mirrored hrun hnot rp row hrp hrow
  rw [hquiet.events] at htold
  exact htold

end Daemon

end Vcli

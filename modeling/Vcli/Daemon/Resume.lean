import Vcli.Daemon.Mirror

/-! Resuming after a crash. Recovery marks a row resumable, and the events that announce the
recovery take the mark away again. -/

namespace Vcli

open Transducer

def Event.Of (p : ProgramId) (ev : Event) : Bool := decide (ev.data.programIdOf = some p)

def Event.RestartFailure (p : ProgramId) (ev : Event) : Prop :=
  ∃ step emit, ev.data = .programFailed p "daemon restarted during execution" step emit

theorem Event.RestartFailure.of {p : ProgramId} {ev : Event} (h : ev.RestartFailure p) :
    ev.Of p = true := by
  obtain ⟨step, emit, h⟩ := h
  rw [Event.Of, h]
  exact decide_eq_true rfl

/-- The events of a recovered program end with its failure. -/
theorem recoveryEvents_last (p : ProgramId) (nowMs : UnixMs) (recovered : List RecoveredProgram) :
    ((recoveryEvents nowMs recovered).filter (Event.Of p) = [] ∧ ∀ r ∈ recovered, r.id ≠ p) ∨
      ∃ l ev, (recoveryEvents nowMs recovered).filter (Event.Of p) = l ++ [ev] ∧
        ev.RestartFailure p := by
  induction recovered with
  | nil => exact .inl ⟨rfl, fun _ h => absurd h List.not_mem_nil⟩
  | cons r rs ih =>
    have hcons : recoveryEvents nowMs (r :: rs) =
        recoveryEvents nowMs [r] ++ recoveryEvents nowMs rs := rfl
    rw [hcons, List.filter_append]
    rcases ih with ⟨hnil, hne⟩ | ⟨l, ev, hl, hev⟩
    · rw [hnil, List.append_nil]
      by_cases hr : r.id = p
      · subst hr
        refine .inr ⟨[⟨nowMs, .programStateChanged r.id .running .failed "daemon_restart"⟩],
          ⟨nowMs, .programFailed r.id "daemon restarted during execution"
            (some ("body[" ++ toString r.bodyCursor ++ "]")) none⟩, ?_, _, _, rfl⟩
        simp [recoveryEvents, Event.Of, EventData.programIdOf]
      · refine .inl ⟨?_, ?_⟩
        · simp [recoveryEvents, Event.Of, EventData.programIdOf, hr]
        · intro x hx
          rcases List.mem_cons.mp hx with rfl | hx
          · exact hr
          · exact hne x hx
    · exact .inr ⟨_, ev, by rw [hl, ← List.append_assoc], hev⟩

namespace Daemon

variable {σ τ α : Type} {B : Backends σ τ} {d d' : Daemon σ τ α} {p : ProgramId}

structure Orphaned (p : ProgramId) (d : Daemon σ τ α) : Prop where
  absent : d.sched.programs.lookup p = none
  unawaited : ¬ d.Awaited p
  /-- Its failure is still to come, or has left its own code in the row. -/
  announced : (∃ l ev, d.events.filter (Event.Of p) = l ++ [ev] ∧ ev.RestartFailure p) ∨
    (d.events.filter (Event.Of p) = [] ∧ ∀ row, d.store.row p = some row →
      row.lastErrorCode = some "daemon restarted during execution")

theorem startup_orphaned (L : Loader α) (nowMs : UnixMs) (env : Env σ τ) {image : Store α}
    {row : ProgramRow} (hrow : image.row p = some row) (hrun : row.state = .running) :
    Orphaned p (startup L nowMs env image) := by
  have hrec : (startup L nowMs env image).store.row p = some row.recovered := by
    refine row_recover.trans ?_
    rw [hrow, Option.map_some]
  refine ⟨AList.lookup_empty p, ?_, .inl ?_⟩
  · intro hwait
    obtain ⟨row', hrow', hstate⟩ := startup_awaited hwait
    obtain rfl := Option.some.inj (hrec.symm.trans hrow')
    rw [ProgramRow.recovered, if_pos hrun] at hstate
    cases hstate
  · have hstarted : [daemonStarted nowMs].filter (Event.Of p) = [] := rfl
    have hfilter : (startup L nowMs env image).events.filter (Event.Of p) =
        (recoveryEvents nowMs image.recoverRunningPrograms.1).filter (Event.Of p) := by
      rw [startup, List.filter_append, hstarted, List.append_nil]
    rw [hfilter]
    rcases recoveryEvents_last p nowMs image.recoverRunningPrograms.1 with ⟨_, hne⟩ | h
    · exact absurd rfl (hne ⟨p, row.bodyCursor⟩ (mem_recovered.mpr ⟨row, hrow, hrun, rfl⟩))
    · exact h

theorem Orphaned.frame (h : Orphaned p d) (hsched : d'.sched = d.sched)
    (hevents : d'.events = d.events)
    (hrows : ∀ row, d'.store.row p = some row → d.store.row p = some row)
    (hless : ∀ c ∈ d'.pending, c.inserts p → c ∈ d.pending) : Orphaned p d' := by
  refine ⟨hsched ▸ h.absent, fun hwait => h.unawaited (hwait.of_subset hless), ?_⟩
  rw [hevents]
  exact h.announced.imp_right fun ⟨hnil, hcode⟩ => ⟨hnil, fun row hrow => hcode row (hrows row hrow)⟩

theorem Orphaned.pumped (h : Orphaned p d) {ev : Event} {rest : List Event}
    (hev : d.events = ev :: rest) :
    Orphaned p { d with store := pumpEvent d.store ev, events := rest } := by
  refine ⟨h.absent, h.unawaited, ?_⟩
  have hann := h.announced
  rw [hev, List.filter_cons] at hann
  by_cases hof : ev.Of p = true
  · have hid : ev.data.programIdOf = some p := of_decide_eq_true hof
    rw [if_pos hof] at hann
    rcases hann with ⟨l, last, hl, hlast⟩ | ⟨hnil, _⟩
    · cases l with
      | nil =>
        -- the failure itself: its reason becomes the code of the row
        obtain ⟨rfl, hrest⟩ := List.cons_eq_cons.mp hl
        refine .inr ⟨hrest, ?_⟩
        intro row hrow
        dsimp only at hrow
        rw [Store.row_pumpEvent, if_pos hid] at hrow
        obtain ⟨row₀, _, rfl⟩ := Option.map_eq_some_iff.mp hrow
        obtain ⟨step, emit, hdata⟩ := hlast
        rw [ProgramRow.after, hdata]
      | cons e l => exact .inl ⟨l, last, (List.cons_eq_cons.mp hl).2, hlast⟩
    · exact nomatch hnil
  · have hid : ev.data.programIdOf ≠ some p := fun hid => hof (decide_eq_true hid)
    rw [if_neg hof] at hann
    refine hann.imp_right fun ⟨hnil, hcode⟩ => ⟨hnil, fun row hrow => hcode row ?_⟩
    dsimp only at hrow
    rw [Store.row_pumpEvent, if_neg hid] at hrow
    exact hrow

theorem Orphaned.scheduled (h : Orphaned p d) {i : Input} {cmds : List SchedulerCommand}
    (stamps : Nat → UnixMs) (ht : d.Takes i cmds) :
    Orphaned p { d with
      cmds := cmds
      sched := (d.sched.step B i).1
      events := d.events ++ emitAll stamps (d.sched.step B i).2 } := by
  rcases ht.cases (p := p) with ⟨hins, hsame⟩ | ⟨_, hwait, _⟩
  · obtain ⟨hnone, htrace⟩ := Scheduler.step_absent (B := B) h.absent hins
    have hquiet : (emitAll stamps (d.sched.step B i).2).filter (Event.Of p) = [] := by
      rw [List.filter_eq_nil_iff]
      intro ev hev hof
      obtain ⟨m, hm, hobs⟩ := mem_emitAll hev
      have hmem : Moment.of p m ∈ traceOf p (d.sched.step B i).2 :=
        mem_traceOf.mpr ⟨m, hm, by rw [hobs]; exact of_decide_eq_true hof, rfl⟩
      rw [htrace] at hmem
      exact absurd hmem List.not_mem_nil
    refine ⟨hnone, fun hwait => h.unawaited (hwait.of_subset ?_), ?_⟩
    · intro c hc hcins
      rcases List.mem_append.mp hc with hc | hc
      · exact List.mem_append_left _ ((hsame c hcins).mp hc)
      · exact List.mem_append_right _ hc
    · dsimp only
      rw [List.filter_append, hquiet, List.append_nil]
      exact h.announced
  · exact absurd hwait h.unawaited

theorem Orphaned.effect (h : Orphaned p d) {who : ProgramId → Prop} {outs : List Notice}
    (hwho : ¬ who p) (he : Effect B d who d' outs) : Orphaned p d' := by
  cases he with
  | restarted L nowMs env all => exact absurd (all p) hwho
  | scheduled stamps running ht => exact h.scheduled stamps ht
  | pumped hev => exact h.pumped hev
  | stopped hcmds =>
    refine h.frame rfl rfl (fun _ hrow => hrow) ?_
    intro c hc _
    rw [pending, hcmds]
    exact List.mem_cons_of_mem _ hc
  | moved same accepted kept quiet =>
    exact h.frame rfl rfl (fun _ hrow => hrow) fun c hc _ => same.mem_iff.mp hc
  | dropped gone refused quiet =>
    exact h.frame rfl rfl (fun _ hrow => hrow) fun c hc _ => mem_pending_eraseIdx hc
  | posted hc =>
    refine h.frame rfl rfl (fun _ hrow => hrow) ?_
    intro x hx hins
    refine (mem_pending_append.mp hx).resolve_right fun he => hc p ?_
    rwa [← List.mem_singleton.mp he]
  | refused rows =>
    exact h.frame rfl rfl (fun row hrow => (rows p).symm.trans hrow) fun _ hc _ => hc
  | collected rows announced quiet =>
    refine h.frame rfl rfl ?_ fun _ hc _ => hc
    exact fun row hrow => (Option.filter_eq_some_iff.mp ((rows p).symm.trans hrow)).1
  | @submitted store q row program assets asked absent present state cursor code rows =>
    have hq : p ≠ q := fun he => hwho (he ▸ asked)
    refine h.frame rfl rfl (fun row hrow => (rows p hq).symm.trans hrow) ?_
    intro x hx hins
    refine (mem_pending_append.mp hx).resolve_right fun he => hq ?_
    rw [List.mem_singleton.mp he] at hins
    exact hins.symm
  | @resumed store q row cursor nowMs _ cs asked resumable from_ present rows sends =>
    have hq : p ≠ q := fun he => hwho (he ▸ asked)
    refine h.frame rfl rfl (fun row hrow => (rows p hq).symm.trans hrow) ?_
    intro x hx hins
    refine (mem_pending_append.mp hx).resolve_right fun he => hq ?_
    rcases sends with ⟨rfl, _⟩ | ⟨_, program, assets, rfl⟩
    · exact absurd he List.not_mem_nil
    · rw [List.mem_singleton.mp he] at hins
      exact hins.symm

/-- No program that was running when the daemon died can be resumed once the events of its
recovery have been handled, whatever its cursor and whatever else the daemon has done. -/
theorem crashed_program_never_resumes (B : Backends σ τ) (L : Loader α) (nowMs : UnixMs)
    (env : Env σ τ) (image : Store α) (p : ProgramId) (row : ProgramRow)
    (hrow : image.row p = some row) (hrun : row.state = .running)
    (is : List (DaemonInput σ τ α)) (hforeign : ∀ i ∈ is, ¬ i.Touches p) :
    let d := (run (step B) (startup L nowMs env image) is).1
    (∀ ev ∈ d.events, ev.data.programIdOf ≠ some p) → ∀ fromStart atMs,
      ∃ e, d.store.resumeProgram p fromStart atMs = .error e := by
  intro d hpumped fromStart atMs
  have horphan : Orphaned p d :=
    run_invariant (fun s i hi h => h.effect (hforeign i hi) (step_effect i))
      (startup_orphaned L nowMs env hrow hrun)
  have hnil : d.events.filter (Event.Of p) = [] := by
    rw [List.filter_eq_nil_iff]
    exact fun ev hev hof => hpumped ev hev (of_decide_eq_true hof)
  have hcode : ∀ row, d.store.row p = some row →
      row.lastErrorCode = some "daemon restarted during execution" := by
    rcases horphan.announced with ⟨l, ev, hl, _⟩ | ⟨_, hcode⟩
    · rw [hnil] at hl
      exact absurd hl (by simp)
    · exact hcode
  unfold Store.resumeProgram
  cases hd : d.store.row p with
  | none => exact ⟨_, rfl⟩
  | some row' =>
    have hnot : ¬ row'.resumable = true := by
      simp [ProgramRow.resumable, hcode row' hd]
    dsimp only
    rw [if_neg hnot]
    exact ⟨_, rfl⟩

def runningAt (cursor : Nat) : Store Unit :=
  { Store.fresh () with programs := ⟨[(⟨1⟩, { ProgramRow.ofNew ⟨⟨1⟩, "demo", "demo", .running, 0, ""⟩ with
    bodyCursor := cursor })], List.nodup_singleton _⟩ }

def recoveredAt (cursor : Nat) : Daemon Unit Unit Unit :=
  (run (step (Backends.constant (.ok ⟨true, none, 0⟩)))
    (startup (Loader.constant (Program.blank "demo")) 10 ⟨(), ()⟩ (runningAt cursor))
    [.pump, .pump, .pump]).1

theorem crashed_program_never_resumes_at_two :
    ∃ e, (recoveredAt 2).store.resumeProgram ⟨1⟩ false 20 = .error e := by
  refine crashed_program_never_resumes _ _ _ _ (runningAt 2) ⟨1⟩ _ rfl rfl _ ?_ ?_ false 20
  · intro i hi
    simp only [List.mem_cons, List.not_mem_nil, or_false, or_self] at hi
    rw [hi]
    exact id
  · exact fun ev hev => absurd hev List.not_mem_nil

/-- Recovery keeps the cursor of a program that was at its third step, and the store refuses to
resume it. -/
theorem recovered_program_is_refused :
    ¬ ∃ store, (recoveredAt 2).store.resumeProgram ⟨1⟩ false 20 = .ok (⟨2⟩, store) := by
  rintro ⟨store, h⟩
  have hrefused : (recoveredAt 2).store.resumeProgram ⟨1⟩ false 20 =
      .error (.notResumable ⟨1⟩ .failed (some "daemon restarted during execution")) := rfl
  exact nomatch hrefused.symm.trans h

end Daemon

end Vcli

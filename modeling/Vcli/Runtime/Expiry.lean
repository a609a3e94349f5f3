import Vcli.Runtime.Completion

/-! Watches that time out. Their window is looked at after their condition, and a condition that
cannot be evaluated ends the look at the watch: it outlives its window by every such tick. -/

namespace Vcli

open Transducer

def RunningProgram.Expired (rp : RunningProgram) (nowMs : UnixMs) (idx : Nat) : Prop :=
  ∃ w ms since, rp.program.watches[idx]? = some w ∧ w.lifetime = .timeoutMs ms ∧
    rp.runningSinceMs = some since ∧ (ms.toNat : Int) ≤ nowMs - since

def Obs.WatchErr (p : ProgramId) (idx : Nat) (o : Obs) : Prop :=
  ∃ e, o = perceived p (.watch idx) (.error e)

section Watch
variable {tk : Tick} {p : ProgramId} {rp : RunningProgram} {idx : Nat}

theorem verdictOn_expired {w : Watch} {ms : UInt32} {since : UnixMs}
    (hl : w.lifetime = .timeoutMs ms) (hs : rp.runningSinceMs = some since)
    (hms : (ms.toNat : Int) ≤ tk.nowMs - since) (hr : (rp.watch idx).retired = false)
    (truthy : Bool) : verdictOn tk rp idx w truthy = .retire := by
  have hwindow : (ms.toNat : Int) ≤ UnixMs.saturatingSub tk.nowMs since :=
    (UnixMs.le_saturatingSub_iff _ _ _).mpr hms
  simp [verdictOn, decideWatch, hr, hl, hs, hwindow]

theorem WatchTick.expired {w : Watch} {wr : WatchRuntime} {V : List (RunningProgram × Obs)}
    (h : WatchTick tk p rp idx w wr V) (hw : rp.program.watches[idx]? = some w)
    (hexp : rp.Expired tk.nowMs idx) :
    wr.retired = true ↔ ∀ x ∈ V, ¬ x.2.WatchErr p idx := by
  obtain ⟨w', ms, since, hw', hl, hs, hms⟩ := hexp
  obtain rfl := Option.some.inj (hw.symm.trans hw')
  -- a watch with a timeout has no terminator that could be asked first
  have hpass : ∀ {pre : List Obs}, Passed p idx w.lifetime pre → pre = [] := by
    intro pre hpre
    rw [hl] at hpre
    cases hpre with
    | without => rfl
  have hquiet : ∀ {r : PredicateResult} {d : WatchDecision},
      ∀ x ∈ [Obs.perceived p (.watch idx) (.ok r), .decided p idx d].map fun o => (rp, o),
        ¬ x.2.WatchErr p idx := by
    intro r d x hx
    obtain ⟨o, ho, rfl⟩ := List.mem_map.mp hx
    rcases List.mem_cons.mp ho with rfl | ho
    · exact fun ⟨e, h⟩ => nomatch h
    · rw [List.mem_singleton.mp ho]
      exact fun ⟨e, h⟩ => nomatch h
  cases h with
  | settled hj =>
    cases hj with
    | retired hr => exact iff_of_true hr fun x hx => absurd hx List.not_mem_nil
    | terminated hr hl' => exact nomatch hl.symm.trans hl'
    | @erred pre e hr hp =>
      rw [hpass hp]
      have hkept : (WatchOutcome.inert.settle (rp.watch idx)).retired = false := hr
      rw [hkept]
      refine iff_of_false Bool.false_ne_true fun hnone => ?_
      exact hnone (rp, .perceived p (.watch idx) (.error e)) (List.mem_singleton.mpr rfl) ⟨e, rfl⟩
    | @judged pre r hr hp =>
      rw [hpass hp, verdictOn_expired hl hs hms hr]
      exact iff_of_true rfl hquiet
  | @fired t own hj =>
    generalize ho : WatchOutcome.judged idx t .fire = o at hj
    cases hj with
    | retired | terminated | erred => exact nomatch ho
    | judged hr hp =>
      rw [verdictOn_expired hl hs hms hr] at ho
      exact nomatch (WatchOutcome.judged.inj ho).2.2

end Watch

section Tick
variable {σ τ : Type} (B : Backends σ τ) (tk : Tick) (p : ProgramId) {rp : RunningProgram}

theorem runPart_expired {idx : Nat} (hexp : rp.Expired tk.nowMs idx) (sur : Surroundings σ τ)
    (loser : Option ProgramId) :
    ((runPart B tk p sur loser rp).1.watch idx).retired = true ↔
      ∀ x ∈ (runPart B tk p sur loser rp).2, ¬ x.2.WatchErr p idx := by
  have hwindow := hexp
  obtain ⟨w, -, -, hw, -⟩ := hwindow
  rw [(runPart_watch hw sur loser).expired hw hexp]
  constructor
  · rintro h x hx ⟨e, herr⟩
    refine h x (List.mem_filter.mpr ⟨hx, ?_⟩) ⟨e, herr⟩
    rw [herr]
    simp [Obs.about, Obs.watchOf]
  · exact fun h x hx => h x (List.mem_filter.mp hx).1

/-- Once all its watches have passed their windows, a program has nothing to fire. -/
theorem fires_expired (hexp : ∀ idx < rp.program.watches.length, rp.Expired tk.nowMs idx)
    (env : Env σ τ) : (evalProgram B tk p rp env).1.fires = [] := by
  rw [List.eq_nil_iff_forall_not_mem]
  intro f hf
  obtain ⟨idx, t, w, ho, hw, -⟩ := mem_firesOf.mp hf
  obtain ⟨w', ms, since, hw', hl, hs, hms⟩ := hexp idx (List.getElem?_eq_some_iff.mp hw).1
  obtain ⟨o, own, hiso⟩ := (evalProgram_judged B tk p rp env).isolate_watch hw'
  have heq := hiso.outcome.eq_of_mem ho rfl
  cases hiso.judged with
  | retired | terminated | erred => exact nomatch heq
  | judged hr hp =>
    rw [verdictOn_expired hl hs hms hr] at heq
    exact nomatch (WatchOutcome.judged.inj heq).2.2

theorem stepOnce_exhausted (hs : rp.Sane) (hex : rp.Exhausted) (c : Caller) (env : Env σ τ) :
    (stepOnce B tk c rp.program.body rp.cursor rp.bodyState env).1.1 = .bodyComplete := by
  have hmove := moves_stepOnce B tk c rp.program.body rp.bodyState hs.pending env
  have hnot : ¬ rp.cursor < rp.program.body.length := Nat.not_lt.mpr hex
  generalize stepOnce B tk c rp.program.body rp.cursor rp.bodyState env = r at hmove ⊢
  obtain ⟨⟨o, b⟩, env', os⟩ := r
  cases hmove with
  | ended => rfl
  | advanced hlt | stalled _ hlt | failed _ _ hlt => exact absurd hlt hnot

theorem runPart_completes (hs : rp.Sane) (hrun : rp.state = .running) (hex : rp.Exhausted)
    (hexp : ∀ idx < rp.program.watches.length, rp.Expired tk.nowMs idx) (sur : Surroundings σ τ)
    (loser : Option ProgramId)
    (hret : ∀ idx < rp.program.watches.length,
      ((runPart B tk p sur loser rp).1.watch idx).retired = true) :
    (runPart B tk p sur loser rp).1.state = .completed := by
  have hfire := firePart_nil B tk p sur.fire rp loser (fires_expired B tk p hexp sur.eval)
  obtain ⟨hprog, hcur, -⟩ := settled_body B tk p rp sur.fire loser (evalProgram B tk p rp sur.eval).1
  have hsane := settled_sane B tk p sur loser hs
  have hprogram : (settled B tk p sur loser rp).program = rp.program := hprog
  have hstate : (settled B tk p sur loser rp).state = .running := by
    rw [settled, Scheduler.settlePart_state, hfire, hrun]
  have hended : (settled B tk p sur loser rp).Exhausted := by
    rw [RunningProgram.Exhausted, RunningProgram.cursor, hprogram, settled, hcur]
    exact hex
  have hbody := bodyProgram_step B tk p hsane hstate sur.body
  have hlast := stepOnce_exhausted B tk hsane hended ((settled B tk p sur loser rp).caller p)
    sur.body
  rw [hlast] at hbody
  refine hbody.completes.mpr ⟨hbody.ends.mpr (.inl rfl), ?_⟩
  rw [RunningProgram.activeWatchCount_eq_zero]
  intro idx hidx
  have hlt := (hbody.sane hsane).keys idx hidx
  rw [hbody.program, hprogram] at hlt
  exact hret idx hlt

theorem triggerPart_not_watchErr {idx : Nat} (env : Env σ τ) :
    ∀ x ∈ (triggerPart B tk p env rp).2, ¬ x.2.WatchErr p idx := by
  have hsilent := silentAll_triggerPart B tk p rp env
  rintro x hx ⟨e, herr⟩
  have hnot := (hsilent x hx).not_about idx
  rw [herr] at hnot
  simp [Obs.about, Obs.watchOf] at hnot

end Tick

namespace Scheduler

variable {σ τ : Type} {B : Backends σ τ} {s : Scheduler σ τ} {t : TickInput} {p : ProgramId}
  {q : RunningProgram}

def RunningAs (B : Backends σ τ) (s : Scheduler σ τ) (t : TickInput) (p : ProgramId)
    (q : RunningProgram) : Prop :=
  ∃ frame, t.capture = some frame ∧ q.state = .running ∧
    (triggered B ⟨frame, t.nowMs⟩ (t.arrange s.programs.keys).1 s).1.programs.lookup p = some q

/-- A captured tick retires every watch of a running program that has passed its window; without
other watches, a program at the end of its body completes. -/
structure OnTime (B : Backends σ τ) (p : ProgramId) (s : Scheduler σ τ) (t : TickInput) :
    Prop where
  retires : ∀ q idx, RunningAs B s t p q → q.Expired t.nowMs idx →
    ∃ rp', (step B s (.tick t)).1.programs.lookup p = some rp' ∧ (rp'.watch idx).retired = true
  completes : ∀ q, RunningAs B s t p q → q.Exhausted →
    (∀ idx < q.program.watches.length, q.Expired t.nowMs idx) →
    stateIn (step B s (.tick t)).1.programs p = some .completed

def ExpiredEvaluated (B : Backends σ τ) (p : ProgramId) (s : Scheduler σ τ) (t : TickInput) :
    Prop :=
  ∀ q idx, RunningAs B s t p q → q.Expired t.nowMs idx →
    ∀ m ∈ (step B s (.tick t)).2, ¬ m.obs.WatchErr p idx

theorem RunningAs.project (h : RunningAs B s t p q) (hs : AllSane s.programs) :
    q.Sane ∧ q.state = .running ∧ ∃ frame sur loser,
      (step B s (.tick t)).1.programs.lookup p =
        some (runPart B ⟨frame, t.nowMs⟩ p sur loser q).1 ∧
      ∀ idx, (∃ m ∈ (step B s (.tick t)).2, m.obs.WatchErr p idx) ↔
        ∃ x ∈ (runPart B ⟨frame, t.nowMs⟩ p sur loser q).2, x.2.WatchErr p idx := by
  obtain ⟨frame, hc, hrun, hq⟩ := h
  have hperm := (t.arrange s.programs.keys).2
  cases hrp : s.programs.lookup p with
  | none =>
    have hnone := (triggered_none B ⟨frame, t.nowMs⟩ (t.arrange s.programs.keys).1 hrp).1
    exact nomatch hnone.symm.trans hq
  | some rp =>
    have hmem : p ∈ (t.arrange s.programs.keys).1 :=
      hperm.mem_iff.mpr (AList.mem_keys.mpr (AList.lookup_isSome.mp (by rw [hrp]; rfl)))
    obtain ⟨sur, hlook, htrace, htrig, -⟩ := capturedTick_project B ⟨frame, t.nowMs⟩
      (hperm.nodup_iff.mpr s.programs.keys_nodup) hmem hrp
    obtain rfl := Option.some.inj (htrig.symm.trans hq)
    refine ⟨triggerPart_sane B _ p sur.trigger (hs p rp hrp), hrun, frame, sur,
      verdict B ⟨frame, t.nowMs⟩ (t.arrange s.programs.keys).1 s p, ?_, ?_⟩
    · simp only [step, tickOnce, hc]
      rw [hlook, tickProgram]
      simp only [hrun, if_true]
    · intro idx
      have htrace' : traceOf p (step B s (.tick t)).2 = moments t.nowMs
          ((triggerPart B ⟨frame, t.nowMs⟩ p sur.trigger rp).2 ++
            (runPart B ⟨frame, t.nowMs⟩ p sur (verdict B ⟨frame, t.nowMs⟩
              (t.arrange s.programs.keys).1 s p)
              (triggerPart B ⟨frame, t.nowMs⟩ p sur.trigger rp).1).2) := by
        simp only [step, tickOnce, hc]
        rw [htrace, tickProgram]
        simp only [hrun, if_true]
      constructor
      · rintro ⟨m, hm, e, herr⟩
        have hsub : m.obs.subject = some p := by
          rw [herr]
          rfl
        obtain ⟨q, -, hx⟩ := mem_of_moments htrace' hm hsub
        -- the trigger stage looks at no watch, so the error is one of the running stages
        rcases List.mem_append.mp hx with hx | hx
        · exact absurd ⟨e, herr⟩ (triggerPart_not_watchErr B _ p sur.trigger _ hx)
        · exact ⟨(q, m.obs), hx, e, herr⟩
      · rintro ⟨⟨q, o⟩, hx, herr⟩
        obtain ⟨m, hm, -, hobs⟩ := moment_of_mem htrace' (List.mem_append_right _ hx)
        exact ⟨m, hm, hobs ▸ herr⟩

theorem onTime_iff (hs : AllSane s.programs) : OnTime B p s t ↔ ExpiredEvaluated B p s t := by
  have hretired : ∀ q idx, RunningAs B s t p q → q.Expired t.nowMs idx →
      ((∃ rp', (step B s (.tick t)).1.programs.lookup p = some rp' ∧
          (rp'.watch idx).retired = true) ↔
        ∀ m ∈ (step B s (.tick t)).2, ¬ m.obs.WatchErr p idx) := by
    -- a watch that has expired retires unless its evaluation erred
    intro q idx hq hexp
    obtain ⟨-, -, frame, sur, loser, hlook, herr⟩ := hq.project hs
    have hrun := runPart_expired B ⟨frame, t.nowMs⟩ p hexp sur loser
    have hnone : (∀ m ∈ (step B s (.tick t)).2, ¬ m.obs.WatchErr p idx) ↔
        ∀ x ∈ (runPart B ⟨frame, t.nowMs⟩ p sur loser q).2, ¬ x.2.WatchErr p idx := by
      simpa only [not_exists, not_and] using not_congr (herr idx)
    rw [hnone, ← hrun, hlook]
    constructor
    · rintro ⟨rp', hrp', hret⟩
      rwa [Option.some.inj hrp']
    · exact fun hret => ⟨_, rfl, hret⟩
  constructor
  · intro h q idx hq hexp
    exact (hretired q idx hq hexp).mp (h.retires q idx hq hexp)
  · intro h
    refine ⟨fun q idx hq hexp => (hretired q idx hq hexp).mpr (h q idx hq hexp), ?_⟩
    intro q hq hex hexp
    obtain ⟨hsane, hrun, frame, sur, loser, hlook, -⟩ := hq.project hs
    have hret : ∀ idx < q.program.watches.length,
        ((runPart B ⟨frame, t.nowMs⟩ p sur loser q).1.watch idx).retired = true := by
      intro idx hidx
      obtain ⟨rp', hrp', hret⟩ := (hretired q idx hq (hexp idx hidx)).mpr
        (h q idx hq (hexp idx hidx))
      obtain rfl := Option.some.inj (hlook.symm.trans hrp')
      exact hret
    rw [stateIn, hlook, Option.map_some,
      runPart_completes B ⟨frame, t.nowMs⟩ p hsane hrun hex hexp sur loser hret]

/-- In every run, watches are retired on time if and only if no condition of a watch that has
passed its window errs. -/
theorem timeouts_on_time_iff (B : Backends σ τ) (env : Env σ τ) (p : ProgramId)
    (is : List Input) :
    (∀ done t, done ++ [.tick t] <+: is → OnTime B p (run (step B) (new env) done).1 t) ↔
      ∀ done t, done ++ [.tick t] <+: is →
        ExpiredEvaluated B p (run (step B) (new env) done).1 t := by
  constructor
  · intro h done t ht
    exact (onTime_iff (run_sane env done)).mp (h done t ht)
  · intro h done t ht
    exact (onTime_iff (run_sane env done)).mpr (h done t ht)

def watchingBeyond : Program :=
  { Program.blank "demo" with
    trigger := .onSubmit
    predicates := (∅ : Predicates).insert "x" (.colorAt ⟨5, 5⟩ ⟨0, 0, 0⟩ 0)
    watches := [⟨.byName "x", [], 0, .timeoutMs 100⟩] }

/-- Long after the window, the watch is not retired. -/
theorem watch_outlives_window :
    ¬ ∀ done t, done ++ [.tick t] <+: [Input.command (.submitValidated ⟨1⟩ watchingBeyond ∅) 0,
        .tick (.plain .dot 10), .tick (.plain .dot 500)] →
      OnTime (Backends.constant (.error .regionOutOfBounds)) ⟨1⟩
        (run (step (Backends.constant (.error .regionOutOfBounds))) (new ⟨(), ()⟩) done).1 t := by
  intro h
  have hlast := h [_, _] (.plain .dot 500) (List.prefix_refl _)
  obtain ⟨rp', hlook, hret⟩ := hlast.retires _ 0 ⟨.dot, rfl, rfl, rfl⟩
    ⟨_, 100, 10, rfl, rfl, rfl, by decide⟩
  rw [← Option.some.inj hlook] at hret
  exact nomatch hret

end Scheduler

end Vcli

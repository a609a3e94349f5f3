import Vcli.Runtime.Judging
import Vcli.Runtime.Local

/-! From the decision to fire to the event: which observations of a tick concern a watch,
and what becomes of the firing the dispatch stages get to see. -/

namespace Vcli

open Transducer

def Obs.firedWatch : Obs → Option Nat
  | emitted (.watchFired _ idx _) => some idx
  | _ => none

def Obs.isDeferral : Obs → Bool
  | emitted (.actionDeferred ..) => true
  | _ => false

def Obs.Silent (o : Obs) : Prop :=
  o.watchOf = none ∧ o.firedWatch = none ∧ o.isDeferral = false

theorem Obs.In.silent {part : Part} {id : ProgramId} {o : Obs} (h : o.In part id)
    (hp : part ≠ .eval) : o.Silent := by
  match o, h with
  | perceived _ .trigger _, _ | perceived _ .body _, _ => exact ⟨rfl, rfl, rfl⟩
  | perceived _ (.until _) _, ⟨_, he⟩ | perceived _ (.watch _) _, ⟨_, he⟩ =>
    exact absurd he.symm hp
  | decided .., ⟨_, he⟩ => exact absurd he hp
  | called .., _ | emitted (.actionDispatched ..), _ => exact ⟨rfl, rfl, rfl⟩

abbrev SilentAll (os : List (RunningProgram × Obs)) : Prop := ∀ o ∈ os, o.2.Silent

section Stages
variable {σ τ : Type} (B : Backends σ τ) (tk : Tick) (id : ProgramId) (rp : RunningProgram)

theorem silentAll_append {l r : List (RunningProgram × Obs)} (hl : SilentAll l)
    (hr : SilentAll r) : SilentAll (l ++ r) :=
  fun o ho => (List.mem_append.mp ho).elim (hl o) (hr o)

theorem silentAll_singleton {o : RunningProgram × Obs} (h : o.2.Silent) : SilentAll [o] := by
  intro x hx
  rwa [List.mem_singleton.mp hx]

theorem silentAll_map {part : Part} {os : List Obs} (h : ∀ o ∈ os, o.In part id)
    (hp : part ≠ .eval) : SilentAll (os.map fun o => (rp, o)) := by
  intro o ho
  obtain ⟨x, hx, rfl⟩ := List.mem_map.mp ho
  exact (h x hx).silent hp

theorem silentAll_triggerPart (env : Env σ τ) : SilentAll (triggerPart B tk id env rp).2 := by
  have hmap := silentAll_map id rp (emits_triggerFires B tk id rp env) (by decide)
  unfold triggerPart
  split_ifs
  · dsimp only [triggerProgram]
    split
    · exact silentAll_append hmap (silentAll_singleton ⟨rfl, rfl, rfl⟩)
    · exact hmap
    · exact silentAll_append hmap (silentAll_singleton ⟨rfl, rfl, rfl⟩)
  · exact fun o ho => absurd ho List.not_mem_nil

theorem silentAll_completeProgram : SilentAll (completeProgram id rp).2 :=
  silentAll_append (l := [_]) (silentAll_singleton ⟨rfl, rfl, rfl⟩) (silentAll_singleton ⟨rfl, rfl, rfl⟩)

theorem silentAll_bodyProgram (env : Env σ τ) : SilentAll (bodyProgram B tk id rp env).2.2 := by
  have hstep := silentAll_map id rp
    (emits_stepOnce B tk (rp.caller id) rp.program.body rp.cursor rp.bodyState env) (by decide)
  have hseen : SilentAll (((stepOnce B tk (rp.caller id) rp.program.body rp.cursor
      rp.bodyState env).2.2 ++ [Obs.stepped id rp.cursor (stepOnce B tk (rp.caller id)
      rp.program.body rp.cursor rp.bodyState env).1.1]).map fun o => (rp, o)) := by
    rw [List.map_append]
    exact silentAll_append hstep (silentAll_singleton ⟨rfl, rfl, rfl⟩)
  have hbody := bodyProgram_run B tk id rp env
  generalize bodyProgram B tk id rp env = x at hbody ⊢
  cases hbody with
  | inert => exact fun o ho => absurd ho List.not_mem_nil
  | kept => exact hseen
  | completed => exact silentAll_append hseen (silentAll_completeProgram id _)
  | failed => exact silentAll_append hseen (silentAll_singleton ⟨rfl, rfl, rfl⟩)

theorem firePart_record (env : Env σ τ) (loser : Option ProgramId) (e : ProgEval) :
    ((firePart B tk id env loser e rp).2.2 = none ∧
        SilentAll (firePart B tk id env loser e rp).2.1) ∨
      (∃ step reason, (firePart B tk id env loser e rp).1 = rp ∧
        (firePart B tk id env loser e rp).2.2 = none ∧
        (firePart B tk id env loser e rp).2.1 =
          [(rp, .emitted (.actionDeferred id step reason))]) ∨
      ∃ f fs pre, e.fires = f :: fs ∧ SilentAll pre ∧
        (firePart B tk id env loser e rp).1 = rp ∧
        (firePart B tk id env loser e rp).2.2 = some f.watch ∧
        (firePart B tk id env loser e rp).2.1 =
          pre ++ [(rp, .emitted (.watchFired id f.watch "watch"))] := by
  have hmap := fun f : WatchFire => silentAll_map id rp
    (emits_dispatchSteps B tk (rp.caller id) f.steps env) (by decide)
  have h := firePart_dispatched B tk id env rp loser e
  generalize firePart B tk id env loser e rp = r at h ⊢
  cases h with
  | idle => exact .inl ⟨rfl, fun o ho => absurd ho List.not_mem_nil⟩
  | direct f fs hf =>
    exact .inr (.inr ⟨f, fs, [], hf, fun o ho => absurd ho List.not_mem_nil, rfl, rfl, rfl⟩)
  | deferred => exact .inr (.inl ⟨_, _, rfl, rfl, rfl⟩)
  | failed f =>
    exact .inl ⟨rfl, silentAll_append (hmap f) (silentAll_singleton ⟨rfl, rfl, rfl⟩)⟩
  | done f fs hf => exact .inr (.inr ⟨f, fs, _, hf, hmap f, rfl, rfl, rfl⟩)

theorem firePart_watchOf (env : Env σ τ) (loser : Option ProgramId) (e : ProgEval) :
    ∀ o ∈ (firePart B tk id env loser e rp).2.1, o.2.watchOf = none := by
  intro o ho
  rcases firePart_record B tk id rp env loser e with
    ⟨_, hs⟩ | ⟨_, _, _, _, heq⟩ | ⟨f, fs, pre, _, hs, _, _, heq⟩
  · exact (hs o ho).1
  · rw [heq] at ho
    rw [List.mem_singleton.mp ho]
    rfl
  · rw [heq] at ho
    rcases List.mem_append.mp ho with ho | ho
    · exact (hs o ho).1
    · rw [List.mem_singleton.mp ho]
      rfl

def Accounts (id : ProgramId) (watch : Nat) (steps : List Step) (o : Obs) : Prop :=
  (∃ predicate, o = .emitted (.watchFired id watch predicate)) ∨
    (∃ reason, o = .emitted (.actionDeferred id (.array (steps.map Step.toValue)) reason)) ∨
    ∃ reason step emit, o = .emitted (.programFailed id reason step emit)

/-- The first firing of a program is dispatched, deferred or fatal. -/
theorem firePart_accounts (env : Env σ τ) (loser : Option ProgramId) {e : ProgEval}
    {f : WatchFire} {fs : List WatchFire} (hf : e.fires = f :: fs) :
    ∃ o ∈ (firePart B tk id env loser e rp).2.1, Accounts id f.watch f.steps o.2 := by
  have h := firePart_dispatched B tk id env rp loser e
  generalize firePart B tk id env loser e rp = r at h ⊢
  cases h with
  | idle hnil => exact nomatch hnil.symm.trans hf
  | direct g gs hg =>
    obtain ⟨rfl, rfl⟩ := List.cons.inj (hg.symm.trans hf)
    exact ⟨_, List.mem_cons_self, .inl ⟨_, rfl⟩⟩
  | deferred g gs _ hg =>
    obtain ⟨rfl, rfl⟩ := List.cons.inj (hg.symm.trans hf)
    exact ⟨_, List.mem_cons_self, .inr (.inl ⟨_, rfl⟩)⟩
  | failed => exact ⟨_, List.mem_append_right _ List.mem_cons_self, .inr (.inr ⟨_, _, _, rfl⟩)⟩
  | done g gs hg =>
    obtain ⟨rfl, rfl⟩ := List.cons.inj (hg.symm.trans hf)
    exact ⟨_, List.mem_append_right _ List.mem_cons_self, .inl ⟨_, rfl⟩⟩

theorem evalProgram_judged (env : Env σ τ) :
    JudgedAll tk id rp rp.program.watches.zipIdx (evalProgram B tk id rp env).1.outcomes
      ((evalProgram B tk id rp env).1.seen.map Prod.snd) := by
  have hseen : (evalProgram B tk id rp env).1.seen.map Prod.snd =
      (evalWatches B tk id rp rp.program.watches.zipIdx env).2.2 := by
    simp only [evalProgram, List.map_map]
    exact List.map_id'' (fun _ => rfl) _
  rw [hseen]
  exact evalWatches_judged B tk id rp _ env

theorem seen_fst {env : Env σ τ} {x : RunningProgram × Obs}
    (hx : x ∈ (evalProgram B tk id rp env).1.seen) : x.1 = rp := by
  obtain ⟨o, _, rfl⟩ := List.mem_map.mp hx
  rfl

theorem mem_seen_of_watchOf {sur : Surroundings σ τ} {loser : Option ProgramId}
    {x : RunningProgram × Obs} (hx : x ∈ (tickProgram B tk id sur loser rp).2)
    (hw : x.2.watchOf ≠ none) :
    (triggerPart B tk id sur.trigger rp).1.state = .running ∧
      x ∈ (evalProgram B tk id (triggerPart B tk id sur.trigger rp).1 sur.eval).1.seen := by
  have htrig := silentAll_triggerPart B tk id rp sur.trigger
  unfold tickProgram at hx
  dsimp only at hx
  split_ifs at hx with hrun
  · refine ⟨hrun, ?_⟩
    rcases List.mem_append.mp hx with hx | hx
    · exact absurd (htrig x hx).1 hw
    rcases List.mem_append.mp hx with hx | hx
    · exact hx
    rcases List.mem_append.mp hx with hx | hx
    · exact absurd (firePart_watchOf B tk id _ _ _ _ x hx) hw
    · exact absurd (silentAll_bodyProgram B tk id _ _ x hx).1 hw
  · exact absurd (htrig x hx).1 hw

theorem fire_mem_of_seen {sur : Surroundings σ τ} {loser : Option ProgramId}
    (hrun : (triggerPart B tk id sur.trigger rp).1.state = .running) {x : RunningProgram × Obs}
    (hx : x ∈ (firePart B tk id sur.fire loser
      (evalProgram B tk id (triggerPart B tk id sur.trigger rp).1 sur.eval).1
      (triggerPart B tk id sur.trigger rp).1).2.1) :
    x ∈ (tickProgram B tk id sur loser rp).2 := by
  unfold tickProgram
  simp only [hrun, if_true]
  exact List.mem_append_right _ (List.mem_append_right _ (List.mem_append_left _ hx))

theorem seen_mem {sur : Surroundings σ τ} {loser : Option ProgramId}
    (hrun : (triggerPart B tk id sur.trigger rp).1.state = .running) {x : RunningProgram × Obs}
    (hx : x ∈ (evalProgram B tk id (triggerPart B tk id sur.trigger rp).1 sur.eval).1.seen) :
    x ∈ (tickProgram B tk id sur loser rp).2 := by
  unfold tickProgram
  simp only [hrun, if_true]
  exact List.mem_append_right _ (List.mem_append_left _ hx)

theorem tickProgram_accounts {sur : Surroundings σ τ} {loser : Option ProgramId}
    {x : RunningProgram × Obs} {idx : Nat} (hx : x ∈ (tickProgram B tk id sur loser rp).2)
    (hd : x.2 = .decided id idx .fire)
    (hone : ∀ y ∈ (tickProgram B tk id sur loser rp).2, ∀ j, y.2 = .decided id j .fire → j = idx) :
    ∃ w, x.1.program.watches[idx]? = some w ∧
      ∃ y ∈ (tickProgram B tk id sur loser rp).2, Accounts id idx w.steps y.2 := by
  obtain ⟨hrun, hseen⟩ := mem_seen_of_watchOf B tk id rp hx (by rw [hd]; exact nofun)
  have hjudged := evalProgram_judged B tk id (triggerPart B tk id sur.trigger rp).1 sur.eval
  obtain ⟨w, r, hw, ho, _, _⟩ := hjudged.of_decided (List.mem_map.mpr ⟨x, hseen, hd⟩)
  have hfire : (⟨idx, w.steps, decide (w.lifetime = .oneShot)⟩ : WatchFire) ∈
      (evalProgram B tk id (triggerPart B tk id sur.trigger rp).1 sur.eval).1.fires :=
    mem_firesOf.mpr ⟨idx, r.truthy, w, ho, hw, rfl⟩
  refine ⟨w, by rw [seen_fst B tk id _ hseen]; exact hw, ?_⟩
  cases hf : (evalProgram B tk id (triggerPart B tk id sur.trigger rp).1 sur.eval).1.fires with
  | nil =>
    rw [hf] at hfire
    exact absurd hfire List.not_mem_nil
  | cons f fs =>
    -- the firing the dispatch stages see is that of some watch, so that of this one
    obtain ⟨j, t, w', ho', hw', rfl⟩ := mem_firesOf.mp (hf ▸ List.mem_cons_self)
    obtain ⟨y, hy, hyd⟩ := List.mem_map.mp (hjudged.decided_mem ho')
    obtain rfl := hone y (seen_mem B tk id rp hrun hy) j hyd
    obtain rfl : w' = w := Option.some.inj (hw'.symm.trans hw)
    obtain ⟨o, ho, hacc⟩ := firePart_accounts B tk id
      (triggerPart B tk id sur.trigger rp).1 sur.fire loser hf
    exact ⟨o, fire_mem_of_seen B tk id rp hrun ho, hacc⟩

theorem tickProgram_decided {sur : Surroundings σ τ} {loser : Option ProgramId}
    {x : RunningProgram × Obs} {idx : Nat} {d : WatchDecision}
    (hx : x ∈ (tickProgram B tk id sur loser rp).2) (hd : x.2 = .decided id idx d) :
    ∃ y ∈ (tickProgram B tk id sur loser rp).2, ∃ w r, y.1.program.watches[idx]? = some w ∧
      y.2 = .perceived id (.watch idx) (.ok r) ∧ d = verdictOn tk y.1 idx w r.truthy := by
  obtain ⟨hrun, hseen⟩ := mem_seen_of_watchOf B tk id rp hx (by rw [hd]; exact nofun)
  have hjudged := evalProgram_judged B tk id (triggerPart B tk id sur.trigger rp).1 sur.eval
  obtain ⟨w, r, hw, _, hr, hv⟩ := hjudged.of_decided (List.mem_map.mpr ⟨x, hseen, hd⟩)
  obtain ⟨y, hy, hyr⟩ := List.mem_map.mp hr
  refine ⟨y, seen_mem B tk id rp hrun hy, w, r, ?_, hyr, ?_⟩
  · rw [seen_fst B tk id _ hy]
    exact hw
  · rw [seen_fst B tk id _ hy]
    exact hv

end Stages

/-- At this moment the condition of a watch was perceived, and `decide` says fire on it. -/
def Moment.Rises (p : ProgramId) (idx : Nat) (m : Moment ProgramMap) : Prop :=
  ∃ rp w r, m.live.lookup p = some rp ∧ rp.program.watches[idx]? = some w ∧
    m.obs = .perceived p (.watch idx) (.ok r) ∧
    decideWatch w (rp.watch idx) r.truthy m.nowMs (rp.runningSinceMs.getD m.nowMs) = .fire

def OneRise (ms : List (Moment ProgramMap)) : Prop :=
  ∀ p i j, (∃ m ∈ ms, m.Rises p i) → (∃ m ∈ ms, m.Rises p j) → i = j

def NoneLost (ms : List (Moment ProgramMap)) : Prop :=
  ∀ m ∈ ms, ∀ p idx, m.obs = .decided p idx .fire →
    ∃ rp w, m.live.lookup p = some rp ∧ rp.program.watches[idx]? = some w ∧
      ∃ n ∈ ms, Accounts p idx w.steps n.obs

namespace Scheduler

variable {σ τ : Type} {B : Backends σ τ} {s : Scheduler σ τ}

theorem command_not_decided {c : SchedulerCommand} {nowMs : UnixMs} {m : Moment ProgramMap}
    (hm : m ∈ (step B s (.command c nowMs)).2) {p : ProgramId} {idx : Nat} {d : WatchDecision} :
    m.obs ≠ .decided p idx d := by
  intro hobs
  obtain ⟨a, ha, _, htrace⟩ := step_project (B := B) (s := s) (p := p) (.command c nowMs)
  have hmem : m.of p ∈ (localStep B p (s.programs.lookup p) a).2 := by
    rw [← htrace]
    exact mem_traceOf.mpr ⟨m, hm, by rw [hobs]; rfl, rfl⟩
  have hof : (m.of p).obs = .decided p idx d := hobs
  have hmove := localStep_move (B := B) (p := p) (s.programs.lookup p) a
  generalize localStep B p (s.programs.lookup p) a = r at hmove hmem
  cases hmove with
  | idle => exact absurd hmem List.not_mem_nil
  | submitted | resumed =>
    rcases List.mem_cons.mp hmem with heq | hmem
    · exact nomatch hof.symm.trans (congrArg Moment.obs heq)
    · exact nomatch hof.symm.trans (congrArg Moment.obs (List.mem_singleton.mp hmem))
  | cancelled | started =>
    exact nomatch hof.symm.trans (congrArg Moment.obs (List.mem_singleton.mp hmem))
  | ticked _ _ _ _ htick => exact nomatch ha.symm.trans htick

theorem step_noneLost (i : Input) (h : OneRise (step B s i).2) : NoneLost (step B s i).2 := by
  intro m hm p idx hobs
  cases i with
  | command c nowMs => exact absurd hobs (command_not_decided hm)
  | tick t =>
    obtain ⟨sur, loser, _, hlocal⟩ := tickOnce_project (B := B) (s := s) (p := p) t
    have htrace : traceOf p (step B s (.tick t)).2 = _ := hlocal
    have hmem : m.of p ∈ (localStep B p (s.programs.lookup p) ⟨.tick t, sur, loser⟩).2 := by
      rw [← htrace]
      exact mem_traceOf.mpr ⟨m, hm, by rw [hobs]; rfl, rfl⟩
    cases hc : t.capture with
    | none => simp [localStep, hc] at hmem
    | some frame =>
      cases hl : s.programs.lookup p with
      | none => simp [localStep, hc, hl] at hmem
      | some rp =>
        simp only [localStep, hc, hl] at hmem htrace
        obtain ⟨x, hx, hxm⟩ := List.mem_map.mp hmem
        -- what the program sees of its tick are moments of the whole step
        have hglobal : ∀ y ∈ (tickProgram B ⟨frame, t.nowMs⟩ p sur loser rp).2,
            ∃ n ∈ (step B s (.tick t)).2, n.nowMs = t.nowMs ∧ n.live.lookup p = some y.1 ∧
              n.obs = y.2 := by
          intro y hy
          have hy' : (⟨t.nowMs, some y.1, y.2⟩ : Moment (Option RunningProgram)) ∈
              traceOf p (step B s (.tick t)).2 := by
            rw [htrace]
            exact List.mem_map_of_mem hy
          obtain ⟨n, hn, _, hof⟩ := mem_traceOf.mp hy'
          exact ⟨n, hn, congrArg Moment.nowMs hof, congrArg Moment.live hof,
            congrArg Moment.obs hof⟩
        have hxd : x.2 = .decided p idx .fire := (congrArg Moment.obs hxm).trans hobs
        have hrise : ∀ y ∈ (tickProgram B ⟨frame, t.nowMs⟩ p sur loser rp).2, ∀ j,
            y.2 = .decided p j .fire → ∃ n ∈ (step B s (.tick t)).2, n.Rises p j := by
          intro y hy j hyd
          obtain ⟨z, hz, w, r, hw, hr, hv⟩ := tickProgram_decided B _ p rp hy hyd
          obtain ⟨n, hn, hnow, hlive, hnobs⟩ := hglobal z hz
          refine ⟨n, hn, z.1, w, r, hlive, hw, hnobs.trans hr, ?_⟩
          rw [hnow]
          exact hv.symm
        obtain ⟨w, hw, y, hy, hacc⟩ := tickProgram_accounts B _ p rp hx hxd
          fun y hy j hyd => h p j idx (hrise y hy j hyd) (hrise x hx idx hxd)
        obtain ⟨n, hn, _, _, hnobs⟩ := hglobal y hy
        exact ⟨x.1, w, (congrArg Moment.live hxm).symm, hw, n, hn, hnobs ▸ hacc⟩

/-- Over whole runs: as long as no program has two watches rise in one tick, no firing is
lost. -/
theorem no_firing_lost (B : Backends σ τ) (env : Env σ τ) (is : List Input)
    (h : ∀ x ∈ trail (step B) (new env) is, OneRise (step B x.1 x.2).2) :
    ∀ x ∈ trail (step B) (new env) is, NoneLost (step B x.1 x.2).2 :=
  fun x hx => step_noneLost x.2 (h x hx)

def risingRun (watches : List Watch) : List Input :=
  [.command (.submitValidated ⟨1⟩ { Program.blank "demo" with watches := watches } ∅) 0,
    .tick (.plain .dot 10)]

theorem oneRise_of_obs {ms : List (Moment ProgramMap)} {k : Nat}
    (h : ∀ o ∈ ms.map Moment.obs, ∀ i, o.watchOf = some i → i = k) : OneRise ms := by
  have hk : ∀ p i, (∃ m ∈ ms, m.Rises p i) → i = k := by
    rintro p i ⟨m, hm, rp, w, r, -, -, hobs, -⟩
    exact h m.obs (List.mem_map_of_mem hm) i (by rw [hobs]; rfl)
  exact fun p i j hi hj => (hk p i hi).trans (hk p j hj).symm

theorem no_firing_lost_one_watch :
    (∃ m ∈ (run (step (Backends.constant (.ok ⟨true, none, 0⟩))) (new ⟨(), ()⟩)
        (risingRun [⟨.byName "x", [], 0, .persistent⟩])).2, m.obs = .decided ⟨1⟩ 0 .fire) ∧
    ∀ x ∈ trail (step (Backends.constant (.ok ⟨true, none, 0⟩))) (new ⟨(), ()⟩)
        (risingRun [⟨.byName "x", [], 0, .persistent⟩]),
      NoneLost (step (Backends.constant (.ok ⟨true, none, 0⟩)) x.1 x.2).2 := by
  constructor
  · exact ⟨_, .tail _ (.tail _ (.tail _ (.tail _ (.head _)))), rfl⟩
  · apply no_firing_lost
    intro x hx
    apply oneRise_of_obs (k := 0)
    rcases List.mem_cons.mp hx with rfl | hx
    · intro o ho i hi
      rcases List.mem_cons.mp ho with rfl | ho
      · exact nomatch hi
      · rw [List.mem_singleton.mp ho] at hi
        exact nomatch hi
    · rw [List.mem_singleton.mp hx]
      have hobs : (step (Backends.constant (.ok ⟨true, none, 0⟩))
          (step (Backends.constant (.ok ⟨true, none, 0⟩)) (new ⟨(), ()⟩)
            (.command (.submitValidated ⟨1⟩ { Program.blank "demo" with
              watches := [⟨.byName "x", [], 0, .persistent⟩] } ∅) 0)).1
          (.tick (.plain .dot 10))).2.map Moment.obs =
          [.emitted (.programStateChanged ⟨1⟩ .waiting .running "trigger_fired"),
            .perceived ⟨1⟩ (.watch 0) (.ok ⟨true, none, 0⟩), .decided ⟨1⟩ 0 .fire,
            .emitted (.watchFired ⟨1⟩ 0 "watch"), .stepped ⟨1⟩ 0 .bodyComplete] := rfl
      rw [hobs]
      simp [Obs.watchOf]

/-- Two watches of one program rise in one tick: the second firing leaves no event. -/
theorem second_firing_vanishes :
    ¬ ∀ x ∈ trail (step (Backends.constant (.ok ⟨true, none, 0⟩))) (new ⟨(), ()⟩)
        (risingRun [⟨.byName "x", [], 0, .persistent⟩, ⟨.byName "x", [], 0, .persistent⟩]),
      NoneLost (step (Backends.constant (.ok ⟨true, none, 0⟩)) x.1 x.2).2 := by
  intro h
  have hobs : (step (Backends.constant (.ok ⟨true, none, 0⟩))
      (step (Backends.constant (.ok ⟨true, none, 0⟩)) (new ⟨(), ()⟩)
        (.command (.submitValidated ⟨1⟩ { Program.blank "demo" with
          watches := [⟨.byName "x", [], 0, .persistent⟩,
            ⟨.byName "x", [], 0, .persistent⟩] } ∅) 0)).1
      (.tick (.plain .dot 10))).2.map Moment.obs =
      [.emitted (.programStateChanged ⟨1⟩ .waiting .running "trigger_fired"),
        .perceived ⟨1⟩ (.watch 0) (.ok ⟨true, none, 0⟩), .decided ⟨1⟩ 0 .fire,
        .perceived ⟨1⟩ (.watch 1) (.ok ⟨true, none, 0⟩), .decided ⟨1⟩ 1 .fire,
        .emitted (.watchFired ⟨1⟩ 0 "watch"), .stepped ⟨1⟩ 0 .bodyComplete] := rfl
  have htick := h _ (List.mem_cons_of_mem _ List.mem_cons_self)
  obtain ⟨_, _, _, _, n, hn, hacc⟩ := htick _ (.tail _ (.tail _ (.tail _ (.tail _ (.head _)))))
    ⟨1⟩ 1 rfl
  have hmem := List.mem_map_of_mem (f := Moment.obs) hn
  rw [hobs] at hmem
  rcases hacc with ⟨_, hacc⟩ | ⟨_, hacc⟩ | ⟨_, _, _, hacc⟩ <;> simp [hacc] at hmem

end Scheduler

end Vcli

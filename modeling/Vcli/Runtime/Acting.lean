import Vcli.Runtime.Local

/-! Only running programs act: the running set a tick works through is a snapshot, and the
program is still running at each of its own dispatches. -/

namespace Vcli

open Transducer Interaction

def Obs.Acts : Obs → Prop
  | called .. => True
  | emitted (.actionDispatched ..) => True
  | emitted (.watchFired ..) => True
  | _ => False

def Obs.ActsFor (p : ProgramId) (o : Obs) : Prop := o.Acts ∧ o.subject = some p

def Input.Revives (p : ProgramId) : Input → Prop
  | .command (.start id) _ => id = p
  | .command c _ => c.inserts p
  | .tick _ => False

section Stages
variable {σ τ : Type} (B : Backends σ τ) (tk : Tick)

abbrev Obs.Idle (o : Obs) : Prop := ¬ o.Acts

theorem Obs.In.idle {part : Part} {id : ProgramId} {o : Obs} (h : o.In part id)
    (hp : part ≠ .act) : o.Idle := by
  intro hact
  match o, h with
  | perceived .., _ | decided .., _ => exact hact
  | called .., ⟨_, hpart⟩ | emitted (.actionDispatched ..), ⟨_, hpart⟩ => exact hp hpart

variable (id : ProgramId) (rp : RunningProgram)

def ActsRunning (os : List (RunningProgram × Obs)) : Prop :=
  ∀ o ∈ os, o.2.Acts → o.1.state = .running

theorem actsRunning_append {l r : List (RunningProgram × Obs)} (hl : ActsRunning l)
    (hr : ActsRunning r) : ActsRunning (l ++ r) :=
  fun o ho => (List.mem_append.mp ho).elim (hl o) (hr o)

theorem actsRunning_of_idle {os : List (RunningProgram × Obs)} (h : ∀ b ∈ os, b.2.Idle) :
    ActsRunning os := fun o ho hact => absurd hact (h o ho)

theorem actsRunning_map {rp : RunningProgram} (h : rp.state = .running) (os : List Obs) :
    ActsRunning (os.map fun o => (rp, o)) := by
  intro o ho _
  obtain ⟨x, _, rfl⟩ := List.mem_map.mp ho
  exact h

theorem actsRunning_singleton {o : RunningProgram × Obs} (h : o.2.Acts → o.1.state = .running) :
    ActsRunning [o] := by
  intro x hx
  rwa [List.mem_singleton.mp hx]

theorem idle_singleton {o : RunningProgram × Obs} (h : o.2.Idle) : ∀ b ∈ [o], b.2.Idle := by
  intro b hb
  rwa [List.mem_singleton.mp hb]

theorem idle_append {l r : List (RunningProgram × Obs)} (hl : ∀ b ∈ l, b.2.Idle)
    (hr : ∀ b ∈ r, b.2.Idle) : ∀ b ∈ l ++ r, b.2.Idle :=
  fun b hb => (List.mem_append.mp hb).elim (hl b) (hr b)

theorem idle_map {part : Part} {os : List Obs} (h : ∀ o ∈ os, o.In part id)
    (hp : part ≠ .act) : ∀ b ∈ os.map fun o => (rp, o), b.2.Idle := by
  intro b hb
  obtain ⟨o, ho, rfl⟩ := List.mem_map.mp hb
  exact (h o ho).idle hp

theorem idle_triggerPart (env : Env σ τ) : ∀ b ∈ (triggerPart B tk id env rp).2, b.2.Idle := by
  have hmap := idle_map id rp (emits_triggerFires B tk id rp env) (by decide)
  unfold triggerPart
  split_ifs
  · dsimp only [triggerProgram]
    split
    · exact idle_append hmap (idle_singleton fun h => h)
    · exact hmap
    · exact idle_append hmap (idle_singleton fun h => h)
  · exact fun b hb => absurd hb List.not_mem_nil

theorem actsRunning_evalProgram (env : Env σ τ) :
    ActsRunning (evalProgram B tk id rp env).1.seen :=
  actsRunning_of_idle (idle_map id rp (emits_evalWatches B tk id rp _ env) (by decide))

variable {rp}

theorem actsRunning_firePart (h : rp.state = .running) (env : Env σ τ)
    (loser : Option ProgramId) (e : ProgEval) :
    ActsRunning (firePart B tk id env loser e rp).2.1 := by
  have hmap := fun f : WatchFire =>
    actsRunning_map h (dispatchSteps B tk (rp.caller id) f.steps env).2.2
  have hfired := firePart_dispatched B tk id env rp loser e
  generalize firePart B tk id env loser e rp = r at hfired ⊢
  cases hfired with
  | idle => exact fun o ho => absurd ho List.not_mem_nil
  | direct => exact actsRunning_singleton fun _ => h
  | deferred => exact actsRunning_singleton fun h => h.elim
  | failed f => exact actsRunning_append (hmap f) (actsRunning_singleton fun h => h.elim)
  | done f => exact actsRunning_append (hmap f) (actsRunning_singleton fun _ => h)

theorem idle_completeProgram (rp : RunningProgram) : ∀ b ∈ (completeProgram id rp).2, b.2.Idle := by
  intro b hb
  rcases List.mem_cons.mp hb with rfl | hb
  · exact fun h => h
  · rw [List.mem_singleton.mp hb]
    exact fun h => h

theorem actsRunning_completeProgram (rp : RunningProgram) :
    ActsRunning (completeProgram id rp).2 :=
  actsRunning_of_idle (idle_completeProgram id rp)

theorem actsRunning_bodyProgram (rp : RunningProgram) (env : Env σ τ) :
    ActsRunning (bodyProgram B tk id rp env).2.2 := by
  have hbody := bodyProgram_run B tk id rp env
  generalize bodyProgram B tk id rp env = x at hbody ⊢
  cases hbody with
  | inert => exact fun o ho => absurd ho List.not_mem_nil
  | kept h => exact actsRunning_map h _
  | completed h => exact actsRunning_append (actsRunning_map h _) (actsRunning_completeProgram id _)
  | failed h => exact actsRunning_append (actsRunning_map h _) (actsRunning_singleton fun h => h.elim)

theorem actsRunning_tickProgram (rp : RunningProgram) (sur : Surroundings σ τ)
    (loser : Option ProgramId) : ActsRunning (tickProgram B tk id sur loser rp).2 := by
  unfold tickProgram
  dsimp only
  split_ifs with h
  · exact actsRunning_append (actsRunning_of_idle (idle_triggerPart B tk id rp _))
      (actsRunning_append (actsRunning_evalProgram B tk id _ _)
        (actsRunning_append (actsRunning_firePart B tk id h _ _ _)
          (actsRunning_bodyProgram B tk id _ _)))
  · exact actsRunning_of_idle (idle_triggerPart B tk id rp _)

def Quiets (os : List (RunningProgram × Obs)) : Prop :=
  os.Pairwise fun a b => a.1.state.isTerminal → b.2.Idle

abbrev Live (os : List (RunningProgram × Obs)) : Prop := ∀ a ∈ os, a.1.state.isTerminal = false

theorem quiets_of_live {os : List (RunningProgram × Obs)} (h : Live os) : Quiets os :=
  List.pairwise_of_forall_mem_list fun a ha _ _ hterm => absurd hterm (by simp [h a ha])

theorem quiets_of_idle {os : List (RunningProgram × Obs)} (h : ∀ b ∈ os, b.2.Idle) : Quiets os :=
  List.pairwise_of_forall_mem_list fun _ _ b hb _ => h b hb

theorem live_map (h : rp.state.isTerminal = false) (os : List Obs) :
    Live (os.map fun o => (rp, o)) := by
  intro a ha
  obtain ⟨x, _, rfl⟩ := List.mem_map.mp ha
  exact h

theorem live_singleton {o : RunningProgram × Obs} (h : o.1.state.isTerminal = false) :
    Live [o] := by
  intro a ha
  rwa [List.mem_singleton.mp ha]

theorem live_append {l r : List (RunningProgram × Obs)} (hl : Live l) (hr : Live r) :
    Live (l ++ r) := fun a ha => (List.mem_append.mp ha).elim (hl a) (hr a)

theorem quiets_append {l r : List (RunningProgram × Obs)} (hl : Quiets l) (hr : Quiets r)
    (h : Live l ∨ ∀ b ∈ r, b.2.Idle) : Quiets (l ++ r) := by
  apply List.pairwise_append.mpr
  refine ⟨hl, hr, fun a ha b hb hterm => ?_⟩
  rcases h with h | h
  · exact absurd hterm (by simp [h a ha])
  · exact h b hb

theorem quiets_closing (h : rp.state.isTerminal = false) (os : List Obs)
    {r : List (RunningProgram × Obs)} (hr : ∀ b ∈ r, b.2.Idle) :
    Quiets ((os.map fun o => (rp, o)) ++ r) := by
  exact quiets_append (quiets_of_live (live_map h os)) (quiets_of_idle hr) (Or.inr hr)

theorem quiets_bodyProgram (rp : RunningProgram) (env : Env σ τ) :
    Quiets (bodyProgram B tk id rp env).2.2 := by
  have hterm : rp.state = .running → rp.state.isTerminal = false := fun h => by rw [h]; rfl
  have hbody := bodyProgram_run B tk id rp env
  generalize bodyProgram B tk id rp env = x at hbody ⊢
  cases hbody with
  | inert => exact List.Pairwise.nil
  | kept h => exact quiets_of_live (live_map (hterm h) _)
  | completed h => exact quiets_closing (hterm h) _ (idle_completeProgram id _)
  | failed h => exact quiets_closing (hterm h) _ (idle_singleton fun h => h)

/-- The firing of a running program either leaves it as it is, at every moment of its record
and after, or ends in its failure. -/
theorem firePart_same_or_failed (h : rp.state = .running) (env : Env σ τ)
    (loser : Option ProgramId) (e : ProgEval) :
    ((firePart B tk id env loser e rp).1 = rp ∧
        ∀ a ∈ (firePart B tk id env loser e rp).2.1, a.1 = rp) ∨
      ((firePart B tk id env loser e rp).1 = { rp with state := .failed } ∧
        Quiets (firePart B tk id env loser e rp).2.1) := by
  have hfired := firePart_dispatched B tk id env rp loser e
  generalize firePart B tk id env loser e rp = r at hfired ⊢
  cases hfired with
  | idle => exact .inl ⟨rfl, fun a ha => absurd ha List.not_mem_nil⟩
  | direct | deferred => exact .inl ⟨rfl, fun a ha => by rw [List.mem_singleton.mp ha]⟩
  | failed => exact .inr ⟨rfl, quiets_closing (by rw [h]; rfl) _ (idle_singleton fun h => h)⟩
  | done =>
    refine .inl ⟨rfl, fun a ha => ?_⟩
    rcases List.mem_append.mp ha with ha | ha
    · obtain ⟨x, _, rfl⟩ := List.mem_map.mp ha
      rfl
    · rw [List.mem_singleton.mp ha]

theorem bodyProgram_inert {rp : RunningProgram} (h : rp.state ≠ .running) (env : Env σ τ) :
    bodyProgram B tk id rp env = (rp, env, []) := by
  rw [bodyProgram, if_neg h]

theorem quiets_runPart (h : rp.state = .running) (sur : Surroundings σ τ)
    (loser : Option ProgramId) : Quiets (runPart B tk id sur loser rp).2 := by
  have hterm : rp.state.isTerminal = false := by rw [h]; rfl
  have heval : Live (evalProgram B tk id rp sur.eval).1.seen := live_map hterm _
  refine quiets_append (quiets_of_live heval) ?_ (Or.inl heval)
  rcases firePart_same_or_failed B tk id h sur.fire loser (evalProgram B tk id rp sur.eval).1
    with ⟨_, hall⟩ | ⟨hfail, hquiet⟩
  · have hlive : Live (firePart B tk id sur.fire loser
        (evalProgram B tk id rp sur.eval).1 rp).2.1 := fun a ha => by rw [hall a ha, hterm]
    exact quiets_append (quiets_of_live hlive) (quiets_bodyProgram B tk id _ _) (Or.inl hlive)
  · -- the failed program has no body stage left in this tick
    have hstate : (settlePart tk (evalProgram B tk id rp sur.eval).1
        (firePart B tk id sur.fire loser (evalProgram B tk id rp sur.eval).1 rp).2.2
        (firePart B tk id sur.fire loser (evalProgram B tk id rp sur.eval).1 rp).1).state ≠
          .running := by
      rw [Scheduler.settlePart_state, hfail]
      exact ProgramState.noConfusion
    rw [bodyProgram_inert B tk id hstate, List.append_nil]
    exact hquiet

theorem live_triggerPart (env : Env σ τ) (h : (triggerPart B tk id env rp).1.state = .running) :
    Live (triggerPart B tk id env rp).2 := by
  unfold triggerPart at h ⊢
  split_ifs at h ⊢ with hw
  · have hmap : Live ((triggerFires B tk id rp env).2.2.map fun o => (rp, o)) :=
      live_map (by rw [hw]; rfl) _
    dsimp only [triggerProgram] at h ⊢
    split at h
    · exact live_append hmap (live_singleton rfl)
    · exact hmap
    · exact absurd h ProgramState.noConfusion
  · exact fun a ha => absurd ha List.not_mem_nil

theorem quiets_tickProgram (rp : RunningProgram) (sur : Surroundings σ τ)
    (loser : Option ProgramId) : Quiets (tickProgram B tk id sur loser rp).2 := by
  have htrig := quiets_of_idle (idle_triggerPart B tk id rp sur.trigger)
  unfold tickProgram
  dsimp only
  split_ifs with h
  · exact quiets_append htrig (quiets_runPart B tk id h _ _)
      (Or.inl (live_triggerPart B tk id _ h))
  · exact htrig

end Stages

section Runs
variable {σ τ : Type} {B : Backends σ τ} {p : ProgramId} {v : Option RunningProgram}
  {a : LocalInput σ τ}

theorem localStep_acts {m : Moment (Option RunningProgram)} (hm : m ∈ (localStep B p v a).2)
    (hact : m.obs.Acts) : ∃ rp, m.live = some rp ∧ rp.state = .running := by
  have hmove := localStep_move (B := B) (p := p) v a
  generalize localStep B p v a = r at hmove hm
  cases hmove with
  | idle => exact absurd hm List.not_mem_nil
  | submitted | resumed =>
    rcases List.mem_cons.mp hm with rfl | hm
    · exact hact.elim
    · rw [List.mem_singleton.mp hm] at hact
      exact hact.elim
  | cancelled | started =>
    rw [List.mem_singleton.mp hm] at hact
    exact hact.elim
  | ticked rp t frame =>
    obtain ⟨o, ho, rfl⟩ := List.mem_map.mp hm
    exact ⟨o.1, rfl, actsRunning_tickProgram B ⟨frame, t.nowMs⟩ p rp a.sur a.loser o ho hact⟩

def Halted (v : Option RunningProgram) : Prop := ∀ rp, v = some rp → rp.state = .cancelled

theorem halted_cancel (nowMs : UnixMs) (reason : String) (id : ProgramId) :
    Halted (localCommand p nowMs v (.cancel id reason)).1 := by
  intro rp hrp
  obtain ⟨rp₀, _, rfl⟩ := Option.map_eq_some_iff.mp hrp
  rfl

theorem localStep_halted (h : Halted v) (hi : ¬ a.input.Revives p) :
    Halted (localStep B p v a).1 ∧ ∀ m ∈ (localStep B p v a).2, m.obs.Idle := by
  have hmove := localStep_move (B := B) (p := p) v a
  generalize localStep B p v a = r at hmove ⊢
  cases hmove with
  | idle => exact ⟨h, fun m hm => absurd hm List.not_mem_nil⟩
  | submitted _ _ _ ha | resumed _ _ _ _ ha | started _ _ _ ha =>
    rw [ha] at hi
    exact absurd rfl hi
  | cancelled rp =>
    refine ⟨fun rp' hrp' => ?_, fun m hm => ?_⟩
    · rw [← Option.some.inj hrp']
      rfl
    · rw [List.mem_singleton.mp hm]
      exact fun h => h
  | ticked rp t frame hv =>
    have hst : rp.state = .cancelled := h rp hv
    have hinert := tickProgram_inert B ⟨frame, t.nowMs⟩ p a.sur a.loser rp
      (by rw [hst]; exact ProgramState.noConfusion)
      (by rw [hst]; exact ProgramState.noConfusion)
    rw [hinert, ← hv]
    exact ⟨h, fun m hm => absurd hm List.not_mem_nil⟩

theorem run_halted {as : List (LocalInput σ τ)} (h : Halted v)
    (hi : ∀ a ∈ as, ¬ a.input.Revives p) :
    ∀ m ∈ (run (localStep B p) v as).2, m.obs.Idle := by
  induction as generalizing v with
  | nil => exact fun m hm => absurd hm List.not_mem_nil
  | cons a as ih =>
    obtain ⟨hnext, hidle⟩ := localStep_halted (B := B) h (hi a List.mem_cons_self)
    intro m hm
    rcases List.mem_append.mp hm with hm | hm
    · exact hidle m hm
    · exact ih hnext (fun b hb => hi b (List.mem_cons_of_mem _ hb)) m hm

end Runs

namespace Scheduler

variable {σ τ : Type} {B : Backends σ τ} {p : ProgramId} {s : Scheduler σ τ}

theorem step_acts {i : Input} {m : Moment ProgramMap} (hm : m ∈ (step B s i).2)
    (hact : m.obs.ActsFor p) : stateIn m.live p = some .running := by
  obtain ⟨a, _, _, htrace⟩ := step_project (B := B) (s := s) (p := p) i
  have hmem : m.of p ∈ (localStep B p (s.programs.lookup p) a).2 := by
    rw [← htrace]
    exact mem_traceOf.mpr ⟨m, hm, hact.2, rfl⟩
  obtain ⟨rp, hlive, hst⟩ := localStep_acts hmem hact.1
  have hlook : m.live.lookup p = some rp := hlive
  rw [stateIn, hlook, Option.map_some, hst]

/-- Once a program is seen to be terminal in a tick, it does not act in the rest of it. -/
theorem tick_quiet {t : TickInput} {l r : List (Moment ProgramMap)} {m n : Moment ProgramMap}
    (hsplit : (step B s (.tick t)).2 = l ++ m :: r) (hm : m.obs.subject = some p)
    {st : ProgramState} (hst : stateIn m.live p = some st) (hterm : st.isTerminal = true)
    (hn : n ∈ r) : ¬ n.obs.ActsFor p := by
  intro hact
  obtain ⟨a, ha, _, htrace⟩ := step_project (B := B) (s := s) (p := p) (.tick t)
  rw [hsplit, traceOf_append, traceOf_cons hm] at htrace
  have hpair : (localStep B p (s.programs.lookup p) a).2.Pairwise
      fun x y => (∃ rp, x.live = some rp ∧ rp.state.isTerminal = true) → y.obs.Idle := by
    have hmove := localStep_move (B := B) (p := p) (s.programs.lookup p) a
    generalize localStep B p (s.programs.lookup p) a = r at hmove ⊢
    cases hmove with
    | idle => exact .nil
    | submitted _ _ _ hc | resumed _ _ _ _ hc | cancelled _ _ _ _ hc | started _ _ _ hc =>
      exact nomatch ha.symm.trans hc
    | ticked rp t frame =>
      apply List.pairwise_map.mpr
      refine (quiets_tickProgram B ⟨frame, t.nowMs⟩ p rp a.sur a.loser).imp ?_
      rintro x y hxy ⟨rp', hrp', hterm'⟩
      rw [← Option.some.inj hrp'] at hterm'
      exact hxy hterm'
  rw [← htrace] at hpair
  have hafter := (List.pairwise_cons.mp (List.pairwise_append.mp hpair).2.1).1 (n.of p)
    (mem_traceOf.mpr ⟨n, hn, hact.2, rfl⟩)
  obtain ⟨rp, hrp, hrpst⟩ := Option.map_eq_some_iff.mp hst
  exact hafter ⟨rp, hrp, by rw [hrpst]; exact hterm⟩ hact.1

theorem run_after_cancel {reason : String} {nowMs : UnixMs} {suf : List Input}
    (hi : ∀ i ∈ suf, ¬ i.Revives p) {m : Moment ProgramMap}
    (hm : m ∈ (run (step B) (step B s (.command (.cancel p reason) nowMs)).1 suf).2) :
    ¬ m.obs.ActsFor p := by
  intro hact
  have hhalt : Halted ((step B s (.command (.cancel p reason) nowMs)).1.programs.lookup p) := by
    have hself : (s.drainOne nowMs (.cancel p reason)).1.programs.lookup p =
        (localCommand p nowMs (s.programs.lookup p) (.cancel p reason)).1 := (drainOne_self rfl).1
    rw [step, hself]
    exact halted_cancel nowMs reason p
  obtain ⟨as, has, _, htrace⟩ := run_project (B := B) (p := p)
    (step B s (.command (.cancel p reason) nowMs)).1 suf
  have hmem : m.of p ∈ (run (localStep B p)
      ((step B s (.command (.cancel p reason) nowMs)).1.programs.lookup p) as).2 := by
    rw [← htrace]
    exact mem_traceOf.mpr ⟨m, hm, hact.2, rfl⟩
  refine run_halted hhalt (fun a ha => hi a.input ?_) _ hmem hact.1
  rw [← has]
  exact List.mem_map_of_mem ha

/-- Whatever the commands and the ticks were: an act is on behalf of a program that is
running at that moment; a cancelled program does not act until it is revived; and a program
that has failed in a tick does not act in the rest of it. -/
theorem only_running_programs_act (B : Backends σ τ) (s : Scheduler σ τ) (is : List Input)
    (p : ProgramId) :
    (∀ m ∈ (run (step B) s is).2, m.obs.ActsFor p → stateIn m.live p = some .running) ∧
    (∀ pre reason nowMs suf, is = pre ++ .command (.cancel p reason) nowMs :: suf →
      (∀ i ∈ suf, ¬ i.Revives p) →
      ∀ m ∈ (run (step B) (step B (run (step B) s pre).1
        (.command (.cancel p reason) nowMs)).1 suf).2, ¬ m.obs.ActsFor p) ∧
    (∀ x ∈ trail (step B) s is, ∀ t l m r, x.2 = .tick t → (step B x.1 x.2).2 = l ++ m :: r →
      m.obs.subject = some p → stateIn m.live p = some .failed → ∀ n ∈ r, ¬ n.obs.ActsFor p) := by
  refine ⟨?_, ?_, ?_⟩
  · intro m hm hact
    obtain ⟨x, _, hx⟩ := mem_run_iff.mp hm
    exact step_acts hx hact
  · intro pre reason nowMs suf _ hi m hm
    exact run_after_cancel hi hm
  · intro x _ t l m r ht hsplit hsub hst n hn
    rw [ht] at hsplit
    exact tick_quiet hsplit hsub hst rfl hn

end Scheduler

end Vcli

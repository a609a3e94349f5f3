import Vcli.Lib.Route
import Vcli.Runtime.Acting
import Vcli.Runtime.News

/-! The changes of state that the scheduler announces. They lead from the insertion of a program
to its state, unless it fails: a failure has an event of its own and no announcement. -/

namespace Vcli

open Transducer Route

def EventData.change (p : ProgramId) : EventData → Option (ProgramState × ProgramState)
  | programStateChanged id from_ to_ _ => if id = p then some (from_, to_) else none
  | _ => none

def Obs.change (p : ProgramId) : Obs → Option (ProgramState × ProgramState)
  | emitted data => data.change p
  | _ => none

def changes {L : Type} (p : ProgramId) (ms : List (Moment L)) :
    List (ProgramState × ProgramState) :=
  ms.filterMap fun m => m.obs.change p

def changesIn (p : ProgramId) (os : List (RunningProgram × Obs)) :
    List (ProgramState × ProgramState) :=
  os.filterMap fun o => o.2.change p

def Timely (p : ProgramId) (os : List (RunningProgram × Obs)) : Prop :=
  ∀ o ∈ os, ∀ c, o.2.change p = some c → o.1.state = c.2

section Traces
variable {L : Type} {p : ProgramId}

theorem changes_append (l r : List (Moment L)) :
    changes p (l ++ r) = changes p l ++ changes p r := List.filterMap_append

theorem changesIn_append (l r : List (RunningProgram × Obs)) :
    changesIn p (l ++ r) = changesIn p l ++ changesIn p r := List.filterMap_append

theorem timely_append {l r : List (RunningProgram × Obs)} (hl : Timely p l) (hr : Timely p r) :
    Timely p (l ++ r) := fun o ho => (List.mem_append.mp ho).elim (hl o) (hr o)

theorem Obs.change_eq_some {o : Obs} {c : ProgramState × ProgramState}
    (h : o.change p = some c) :
    ∃ reason, o = .emitted (.programStateChanged p c.1 c.2 reason) := by
  cases o with
  | emitted data =>
    cases data with
    | programStateChanged id from_ to_ reason =>
      simp only [Obs.change, EventData.change, Option.ite_none_right_eq_some,
        Option.some.injEq] at h
      obtain ⟨rfl, rfl⟩ := h
      exact ⟨reason, rfl⟩
    | _ => exact nomatch h
  | _ => exact nomatch h

theorem Obs.change_subject {o : Obs} {c : ProgramState × ProgramState}
    (h : o.change p = some c) : o.subject = some p := by
  obtain ⟨reason, rfl⟩ := Obs.change_eq_some h
  rfl

theorem changes_traceOf (ms : List (Moment ProgramMap)) :
    changes p ms = changes p (traceOf p ms) :=
  filterMap_traceOf (fun _ _ h => Obs.change_subject h) ms

theorem changes_moments (nowMs : UnixMs) (os : List (RunningProgram × Obs)) :
    changes p (moments nowMs os) = changesIn p os := by
  rw [changes, moments, List.filterMap_map]
  rfl

end Traces

section Stages
variable {σ τ : Type} (B : Backends σ τ) (tk : Tick) (p : ProgramId) (rp : RunningProgram)

theorem Obs.In.change {part : Part} {o : Obs} (h : o.In part p) : o.change p = none := by
  match o, h with
  | perceived .., _ | decided .., _ | called .., _ | emitted (.actionDispatched ..), _ => rfl

theorem changesIn_map {part : Part} {os : List Obs} (h : ∀ o ∈ os, o.In part p) :
    changesIn p (os.map fun o => (rp, o)) = [] := by
  rw [changesIn, List.filterMap_map]
  exact List.filterMap_eq_nil_iff.mpr fun o ho => (h o ho).change p

theorem timely_of_nil {os : List (RunningProgram × Obs)} (h : changesIn p os = []) :
    Timely p os := by
  intro o ho c hc
  have hnone := List.filterMap_eq_nil_iff.mp h o ho
  exact nomatch hnone.symm.trans hc

/-- What a stage announces, when it goes from `st` to `st'`: everything, or all but a failure. -/
structure Announces (st : ProgramState) (os : List (RunningProgram × Obs)) (st' : ProgramState) :
    Prop where
  leads : Leads st (changesIn p os) st' ∨
    st' = .failed ∧ ∃ last, Leads st (changesIn p os) last
  timely : Timely p os

variable {p rp}

theorem announces_nothing {st : ProgramState} {os : List (RunningProgram × Obs)}
    (h : changesIn p os = []) : Announces p st os st := by
  refine ⟨.inl ?_, timely_of_nil p h⟩
  rw [h]
  exact leads_refl st

theorem announces_failure {st : ProgramState} {os : List (RunningProgram × Obs)}
    (h : changesIn p os = []) : Announces p st os .failed := by
  refine ⟨.inr ⟨rfl, st, ?_⟩, timely_of_nil p h⟩
  rw [h]
  exact leads_refl st

theorem Announces.append {st st' st'' : ProgramState} {l r : List (RunningProgram × Obs)}
    (h : Announces p st l st') (hst : st' ≠ .failed) (h' : Announces p st' r st'') :
    Announces p st (l ++ r) st'' := by
  have hl : Leads st (changesIn p l) st' := h.leads.resolve_right fun hf => hst hf.1
  refine ⟨?_, timely_append h.timely h'.timely⟩
  rw [changesIn_append]
  rcases h'.leads with hr | ⟨hf, last, hr⟩
  · exact .inl (hl.append hr)
  · exact .inr ⟨hf, last, hl.append hr⟩

theorem announces_closing {st : ProgramState} {rp' : RunningProgram}
    {l : List (RunningProgram × Obs)} {reason : String} (h : changesIn p l = []) :
    Announces p st (l ++ [(rp', .emitted (.programStateChanged p st rp'.state reason))])
      rp'.state := by
  have hlast : changesIn p [(rp', .emitted (.programStateChanged p st rp'.state reason))] =
      [(st, rp'.state)] := by
    simp [changesIn, Obs.change, EventData.change]
  refine ⟨.inl ?_, timely_append (timely_of_nil p h) ?_⟩
  · rw [changesIn_append, h, hlast]
    exact leads_one _ _
  · intro o ho c hc
    obtain rfl := List.mem_singleton.mp ho
    simp only [Obs.change, EventData.change, if_true, Option.some.injEq] at hc
    rw [← hc]

variable (p rp)

theorem announces_triggerPart (env : Env σ τ) :
    Announces p rp.state (triggerPart B tk p env rp).2 (triggerPart B tk p env rp).1.state := by
  have hseen : changesIn p ((triggerFires B tk p rp env).2.2.map fun o => (rp, o)) = [] :=
    changesIn_map p rp (emits_triggerFires B tk p rp env)
  unfold triggerPart
  split_ifs with hw
  · dsimp only [triggerProgram]
    rw [hw]
    split
    · exact announces_closing hseen
    · rw [hw]
      exact announces_nothing hseen
    · apply announces_failure
      rw [changesIn_append, hseen]
      rfl
  · exact announces_nothing rfl

theorem changesIn_firePart (env : Env σ τ) (loser : Option ProgramId) (e : ProgEval) :
    changesIn p (firePart B tk p env loser e rp).2.1 = [] := by
  have hseen := fun f : WatchFire => (changesIn_map p rp
    (emits_dispatchSteps B tk (rp.caller p) f.steps env) : changesIn p (_ : List (_ × Obs)) = [])
  have h := firePart_dispatched B tk p env rp loser e
  generalize firePart B tk p env loser e rp = r at h ⊢
  cases h with
  | idle | direct | deferred => rfl
  | failed f | done f =>
    rw [changesIn_append, hseen f]
    rfl

theorem announces_complete {os : List (RunningProgram × Obs)} (h : changesIn p os = []) :
    Announces p .running (os ++ (completeProgram p rp).2) (completeProgram p rp).1.state := by
  have hchange : Announces p .running
      (os ++ [((completeProgram p rp).1, .emitted (.programStateChanged p .running
        (completeProgram p rp).1.state "body_complete"))]) (completeProgram p rp).1.state :=
    announces_closing h
  have hdone : Announces p (completeProgram p rp).1.state
      [((completeProgram p rp).1, .emitted (.programCompleted p rp.program.onComplete))]
      (completeProgram p rp).1.state := announces_nothing rfl
  have hboth := hchange.append ProgramState.noConfusion hdone
  rw [List.append_assoc] at hboth
  exact hboth

theorem announces_bodyProgram (env : Env σ τ) :
    Announces p rp.state (bodyProgram B tk p rp env).2.2 (bodyProgram B tk p rp env).1.state := by
  have hseen : changesIn p (((stepOnce B tk (rp.caller p) rp.program.body rp.cursor
      rp.bodyState env).2.2 ++ [Obs.stepped p rp.cursor (stepOnce B tk (rp.caller p)
      rp.program.body rp.cursor rp.bodyState env).1.1]).map fun o => (rp, o)) = [] := by
    rw [List.map_append, changesIn_append,
      changesIn_map p rp (emits_stepOnce B tk (rp.caller p) _ _ _ env)]
    rfl
  have hbody := bodyProgram_run B tk p rp env
  generalize bodyProgram B tk p rp env = x at hbody ⊢
  cases hbody with
  | inert => exact announces_nothing rfl
  | kept => exact announces_nothing hseen
  | completed hrun =>
    rw [hrun]
    exact announces_complete p _ hseen
  | failed hrun =>
    rw [hrun]
    apply announces_failure
    rw [changesIn_append, hseen]
    rfl

theorem announces_runPart (h : rp.state = .running) (sur : Surroundings σ τ)
    (loser : Option ProgramId) :
    Announces p rp.state (runPart B tk p sur loser rp).2 (runPart B tk p sur loser rp).1.state := by
  have heval : changesIn p (evalProgram B tk p rp sur.eval).1.seen = [] :=
    changesIn_map p rp (emits_evalWatches B tk p rp _ sur.eval)
  have hfire := changesIn_firePart B tk p rp sur.fire loser (evalProgram B tk p rp sur.eval).1
  have hquiet : changesIn p ((evalProgram B tk p rp sur.eval).1.seen ++
      (firePart B tk p sur.fire loser (evalProgram B tk p rp sur.eval).1 rp).2.1) = [] := by
    rw [changesIn_append, heval, hfire]
    rfl
  have hbody := announces_bodyProgram B tk p (settlePart tk (evalProgram B tk p rp sur.eval).1
    (firePart B tk p sur.fire loser (evalProgram B tk p rp sur.eval).1 rp).2.2
    (firePart B tk p sur.fire loser (evalProgram B tk p rp sur.eval).1 rp).1) sur.body
  rw [Scheduler.settlePart_state] at hbody
  rw [runPart, ← List.append_assoc]
  rcases firePart_same_or_failed B tk p h sur.fire loser (evalProgram B tk p rp sur.eval).1
    with ⟨hsame, -⟩ | ⟨hfailed, -⟩
  · have hstate := congrArg RunningProgram.state hsame
    rw [hstate] at hbody
    refine (announces_nothing hquiet).append ?_ hbody
    rw [h]
    exact ProgramState.noConfusion
  · -- after a failed dispatch there is no body stage
    have hstate : (settlePart tk (evalProgram B tk p rp sur.eval).1
        (firePart B tk p sur.fire loser (evalProgram B tk p rp sur.eval).1 rp).2.2
        (firePart B tk p sur.fire loser (evalProgram B tk p rp sur.eval).1 rp).1).state =
          .failed := by
      rw [Scheduler.settlePart_state, hfailed]
    have hinert := bodyProgram_inert B tk p (by rw [hstate]; exact ProgramState.noConfusion)
      sur.body
    rw [hinert, List.append_nil, hstate]
    exact announces_failure hquiet

theorem announces_tickProgram (sur : Surroundings σ τ) (loser : Option ProgramId) :
    Announces p rp.state (tickProgram B tk p sur loser rp).2
      (tickProgram B tk p sur loser rp).1.state := by
  have htrigger := announces_triggerPart B tk p rp sur.trigger
  unfold tickProgram
  dsimp only
  split_ifs with h
  · refine htrigger.append ?_ (announces_runPart B tk p _ h sur loser)
    rw [h]
    exact ProgramState.noConfusion
  · exact htrigger

end Stages

section Local
variable {σ τ : Type} {B : Backends σ τ} {p : ProgramId} {rp : RunningProgram}

theorem announces_localStep {a : LocalInput σ τ} (hi : ¬ a.input.inserts p) :
    ∃ rp' os nowMs, localStep B p (some rp) a = (some rp', moments nowMs os) ∧
      Announces p rp.state os rp'.state := by
  have hmove := localStep_move (B := B) (p := p) (some rp) a
  generalize localStep B p (some rp) a = r at hmove ⊢
  cases hmove with
  | idle => exact ⟨rp, [], 0, rfl, announces_nothing rfl⟩
  | submitted _ _ _ ha | resumed _ _ _ _ ha => exact absurd (ha ▸ rfl) hi
  | cancelled _ reason nowMs hv =>
    obtain rfl := Option.some.inj hv
    refine ⟨cancelled rp, [(cancelled rp, _)], nowMs, rfl, ?_⟩
    exact announces_closing (l := []) rfl
  | started _ nowMs hv =>
    obtain rfl := Option.some.inj hv
    refine ⟨started nowMs rp, [(started nowMs rp, _)], nowMs, rfl, ?_⟩
    exact announces_closing (l := []) rfl
  | ticked _ t frame hv =>
    obtain rfl := Option.some.inj hv
    exact ⟨_, _, _, rfl, announces_tickProgram B ⟨frame, t.nowMs⟩ p rp a.sur a.loser⟩

theorem changes_inserts {i : Input} {v : Option RunningProgram} {a : LocalInput σ τ}
    (ha : a.input = i) (hi : i.inserts p) :
    ∃ rp' from_, (localStep B p v a).1 = some rp' ∧ rp'.state ≠ .failed ∧
      changes p (localStep B p v a).2 = [(from_, rp'.state)] := by
  subst ha
  have hmove := localStep_move (B := B) (p := p) v a
  generalize localStep B p v a = r at hmove ⊢
  cases hmove with
  | idle hnot => exact absurd hi hnot
  | submitted | resumed =>
    simp [changes, Obs.change, EventData.change, Scheduler.submitted, Scheduler.resumed]
  | cancelled _ _ _ _ ha | started _ _ _ ha | ticked _ _ _ _ ha =>
    rw [ha] at hi
    exact hi.elim

end Local

namespace Scheduler

variable {σ τ : Type} {B : Backends σ τ} {s : Scheduler σ τ} {p : ProgramId}
  {rp : RunningProgram}

def InTime (p : ProgramId) (ms : List (Moment ProgramMap)) : Prop :=
  ∀ m ∈ ms, ∀ c, m.obs.change p = some c → stateIn m.live p = some c.2

theorem step_announces {i : Input} (hi : ¬ i.inserts p) (h : s.programs.lookup p = some rp) :
    ∃ rp', (step B s i).1.programs.lookup p = some rp' ∧
      (Leads rp.state (changes p (step B s i).2) rp'.state ∨ rp'.state = .failed) ∧
      InTime p (step B s i).2 := by
  obtain ⟨a, rfl, hlook, htrace⟩ := step_project (B := B) (s := s) (p := p) i
  rw [h] at hlook htrace
  obtain ⟨rp', os, nowMs, hstep, hann⟩ := announces_localStep (B := B) hi
  rw [hstep] at hlook htrace
  have htrace : traceOf p (step B s a.input).2 = moments nowMs os := htrace
  refine ⟨rp', hlook, ?_, ?_⟩
  · rw [changes_traceOf, htrace, changes_moments]
    exact hann.leads.imp_right And.left
  · intro m hm c hc
    have hmem : m.of p ∈ moments nowMs os := by
      rw [← htrace]
      exact mem_traceOf.mpr ⟨m, hm, Obs.change_subject hc, rfl⟩
    obtain ⟨o, ho, heq⟩ := List.mem_map.mp hmem
    have hobs : o.2 = m.obs := congrArg Moment.obs heq
    have hlive : some o.1 = m.live.lookup p := congrArg Moment.live heq
    rw [stateIn, ← hlive, ← hann.timely o ho c (hobs ▸ hc)]
    rfl

theorem run_announces {mid : List Input} (hmid : ∀ j ∈ mid, ¬ j.inserts p)
    (h : s.programs.lookup p = some rp) :
    InTime p (run (step B) s mid).2 ∧
      ((∀ done, done <+: mid → stateIn (run (step B) s done).1.programs p ≠ some .failed) →
        ∃ rp', (run (step B) s mid).1.programs.lookup p = some rp' ∧
          Leads rp.state (changes p (run (step B) s mid).2) rp'.state) := by
  induction mid generalizing s rp with
  | nil => exact ⟨fun m hm => absurd hm List.not_mem_nil, fun _ => ⟨rp, h, leads_refl _⟩⟩
  | cons i mid ih =>
    obtain ⟨rp₁, hlook, hleads, htime⟩ := step_announces (B := B) (hmid i List.mem_cons_self) h
    obtain ⟨htimes, hrest⟩ := ih (fun j hj => hmid j (List.mem_cons_of_mem i hj)) hlook
    refine ⟨fun m hm => (List.mem_append.mp hm).elim (htime m) (htimes m), fun hsound => ?_⟩
    have hok : rp₁.state ≠ .failed := by
      intro hfailed
      refine hsound [i] (List.prefix_append [i] mid) ?_
      rw [run_cons, run_nil, stateIn, hlook, Option.map_some, hfailed]
    have hsound' : ∀ done, done <+: mid →
        stateIn (run (step B) (step B s i).1 done).1.programs p ≠ some .failed := by
      intro done hdone
      exact hsound (i :: done) (List.cons_prefix_cons.mpr ⟨rfl, hdone⟩)
    obtain ⟨rp', hend, hleads'⟩ := hrest hsound'
    refine ⟨rp', hend, ?_⟩
    rw [run_cons, changes_append]
    exact (hleads.resolve_right hok).append hleads'

/-- The announcements for `p` from its insertion by `i` on, while `mid` passes without another
one: they have no gap, they end in the state of `p`, and each of them comes in time. -/
structure Announced (B : Backends σ τ) (p : ProgramId) (s : Scheduler σ τ) (i : Input)
    (mid : List Input) : Prop where
  chain : List.IsChain (fun x y => x.2 = y.1) (changes p (run (step B) s (i :: mid)).2)
  last : (changes p (run (step B) s (i :: mid)).2).getLast?.map Prod.snd =
    stateIn (run (step B) s (i :: mid)).1.programs p
  inTime : InTime p (run (step B) (step B s i).1 mid).2

/-- Whoever is in the map was inserted, and since then not inserted again. -/
theorem exists_insertion {env : Env σ τ} {is : List Input} {st : ProgramState}
    (h : stateIn (run (step B) (new env) is).1.programs p = some st) :
    ∃ pre i mid, is = pre ++ i :: mid ∧ i.inserts p ∧ ∀ j ∈ mid, ¬ j.inserts p := by
  induction is using List.reverseRecOn generalizing st with
  | nil => cases h
  | append_singleton is i ih =>
    by_cases hi : i.inserts p
    · exact ⟨is, i, [], rfl, hi, fun j hj => absurd hj List.not_mem_nil⟩
    cases hbefore : stateIn (run (step B) (new env) is).1.programs p with
    | some st₀ =>
      obtain ⟨pre, j, mid, rfl, hj, hmid⟩ := ih hbefore
      refine ⟨pre, j, mid ++ [i], by simp, hj, fun k hk => ?_⟩
      rcases List.mem_append.mp hk with hk | hk
      · exact hmid k hk
      · rwa [List.mem_singleton.mp hk]
    | none =>
      have habsent := (step_absent (B := B) (Option.map_eq_none_iff.mp hbefore) hi).1
      rw [run_append, run_cons, run_nil, stateIn, habsent] at h
      cases h

theorem changes_not_failed (is : List Input) {c : ProgramState × ProgramState}
    (hc : c ∈ changes p (run (step B) s is).2) : c.2 ≠ .failed := by
  obtain ⟨m, hm, hchange⟩ := List.mem_filterMap.mp hc
  obtain ⟨r, -, hstep⟩ := mem_run_iff.mp hm
  obtain ⟨reason, hobs⟩ := Obs.change_eq_some hchange
  exact step_plain r.2 hstep hobs

/-- In every run, the changes of state of `p` are all announced if and only if `p` never fails. -/
theorem every_transition_announced_iff (B : Backends σ τ) (env : Env σ τ) (p : ProgramId)
    (is : List Input) :
    (∀ pre i mid post, is = pre ++ i :: (mid ++ post) → i.inserts p → (∀ j ∈ mid, ¬ j.inserts p) →
        Announced B p (run (step B) (new env) pre).1 i mid) ↔
      ∀ done, done <+: is → stateIn (run (step B) (new env) done).1.programs p ≠ some .failed := by
  constructor
  · intro h done hdone hfailed
    obtain ⟨post, rfl⟩ := hdone
    -- the stretch from the last insertion on ends in a state that no announcement leads to
    obtain ⟨pre, i, mid, rfl, hi, hmid⟩ := exists_insertion hfailed
    have hlast := (h pre i mid post (by simp) hi hmid).last
    rw [run_append] at hfailed
    rw [hfailed] at hlast
    obtain ⟨c, hc, hto⟩ := Option.map_eq_some_iff.mp hlast
    exact changes_not_failed _ (List.mem_of_getLast? hc) hto
  · rintro h pre i mid post rfl hi hmid
    obtain ⟨a, ha, hlook, htrace⟩ :=
      step_project (B := B) (s := (run (step B) (new env) pre).1) (p := p) i
    obtain ⟨rp₀, from_, hstep, -, hchange⟩ :=
      changes_inserts (B := B) (v := (run (step B) (new env) pre).1.programs.lookup p) ha hi
    rw [hstep] at hlook
    obtain ⟨htime, hmore⟩ := run_announces (B := B) hmid hlook
    -- the stretch has no failure in it either, being part of the run
    have hsound : ∀ done, done <+: mid →
        stateIn (run (step B) (step B (run (step B) (new env) pre).1 i).1 done).1.programs p ≠
          some .failed := by
      intro done hdone
      obtain ⟨rest, rfl⟩ := hdone
      have hprefix : pre ++ i :: done <+: pre ++ i :: (done ++ rest ++ post) := ⟨rest ++ post, by simp⟩
      have hnot := h _ hprefix
      rwa [run_append, run_cons] at hnot
    obtain ⟨rp', hend, hleads⟩ := hmore hsound
    have hall : changes p (run (step B) (run (step B) (new env) pre).1 (i :: mid)).2 =
        (from_, rp₀.state) ::
          changes p (run (step B) (step B (run (step B) (new env) pre).1 i).1 mid).2 := by
      rw [run_cons, changes_append, changes_traceOf (step B _ i).2, htrace, hchange]
      rfl
    refine ⟨?_, ?_, htime⟩
    · rw [hall]
      exact Leads.isChain hleads
    · rw [hall, Leads.getLast? hleads, run_cons, stateIn, hend]
      rfl

def lookingAside : Program :=
  { Program.blank "demo" with
    trigger := .onPredicate "x"
    predicates := (∅ : Predicates).insert "x" (.colorAt ⟨5, 5⟩ ⟨0, 0, 0⟩ 0) }

/-- Its trigger cannot be evaluated, and all that was announced is that it is waiting. -/
theorem failure_not_announced :
    ¬ ∀ pre i mid post,
      [Input.command (.submitValidated ⟨1⟩ lookingAside ∅) 0, .tick (.plain .dot 10)] =
        pre ++ i :: (mid ++ post) →
      i.inserts ⟨1⟩ → (∀ j ∈ mid, ¬ j.inserts ⟨1⟩) →
      Announced (Backends.constant (.error .regionOutOfBounds)) ⟨1⟩
        (run (step (Backends.constant (.error .regionOutOfBounds))) (new ⟨(), ()⟩) pre).1 i mid := by
  intro h
  have hlast := (h [] _ [_] [] rfl rfl (by decide)).last
  exact absurd hlast (by decide)

end Scheduler

end Vcli

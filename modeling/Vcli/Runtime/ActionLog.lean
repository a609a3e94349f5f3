import Mathlib.Data.List.Induction
import Vcli.Runtime.Local

/-! The action log: the events that announce input actions, beside the calls that the input sink
has accepted. A firing watch announces each of its steps before it is dispatched; a body announces
none of its own. -/

namespace Vcli

open Transducer Interaction

def Target.Admits : Target → Point → Prop
  | absolute q, p => p = q
  | expression _, _ => True

def Step.Calls : Step → InputCall → Prop
  | move at_, call | scroll at_ _ _, call => ∃ p, at_.Admits p ∧ call = .mouseMove p
  | click at_ button, call => ∃ p, at_.Admits p ∧ call = .click p button [] 0
  | type text, call => call = .typeText text
  | key name modifiers, call => call = .keyCombo modifiers name
  | _, _ => False

def Obs.announced (p : ProgramId) : Obs → Option Json
  | emitted (.actionDispatched id step _) => if id = p then some step else none
  | _ => none

def Obs.accepted (p : ProgramId) : Obs → Option InputCall
  | called id call (.ok ()) => if id = p then some call else none
  | _ => none

def announced (p : ProgramId) (os : List Obs) : List Json := os.filterMap (Obs.announced p)

def accepted (p : ProgramId) (os : List Obs) : List InputCall := os.filterMap (Obs.accepted p)

def LogFaithful (p : ProgramId) (os : List Obs) : Prop :=
  List.Forall₂ (fun json call => ∃ s : Step, json = s.toValue ∧ s.Calls call)
    (announced p os) (accepted p os)

section Lists
variable {p : ProgramId} {l r os : List Obs} {o : Obs}

theorem announced_append : announced p (l ++ r) = announced p l ++ announced p r :=
  List.filterMap_append

theorem accepted_append : accepted p (l ++ r) = accepted p l ++ accepted p r :=
  List.filterMap_append

theorem LogFaithful.append (hl : LogFaithful p l) (hr : LogFaithful p r) :
    LogFaithful p (l ++ r) := by
  rw [LogFaithful, announced_append, accepted_append]
  exact List.rel_append hl hr

structure Unrelated (p : ProgramId) (os : List Obs) : Prop where
  announced : announced p os = []
  accepted : accepted p os = []

theorem Unrelated.faithful (h : Unrelated p os) : LogFaithful p os := by
  rw [LogFaithful, h.announced, h.accepted]
  exact .nil

theorem unrelated_of_forall (h : ∀ o ∈ os, o.announced p = none ∧ o.accepted p = none) :
    Unrelated p os :=
  ⟨List.filterMap_eq_nil_iff.mpr fun o ho => (h o ho).1,
    List.filterMap_eq_nil_iff.mpr fun o ho => (h o ho).2⟩

theorem Unrelated.append (hl : Unrelated p l) (hr : Unrelated p r) : Unrelated p (l ++ r) where
  announced := by rw [announced_append, hl.announced, hr.announced, List.append_nil]
  accepted := by rw [accepted_append, hl.accepted, hr.accepted, List.append_nil]

theorem Obs.announced_subject {json : Json} (h : o.announced p = some json) :
    o.subject = some p := by
  cases o with
  | emitted data =>
    cases data with
    | actionDispatched id step target =>
      simp only [Obs.announced, Option.ite_none_right_eq_some] at h
      exact congrArg some h.1
    | _ => exact nomatch h
  | _ => exact nomatch h

theorem Obs.accepted_subject {call : InputCall} (h : o.accepted p = some call) :
    o.subject = some p := by
  cases o with
  | called id call result =>
    cases result with
    | ok =>
      simp only [Obs.accepted, Option.ite_none_right_eq_some] at h
      exact congrArg some h.1
    | error => exact nomatch h
  | _ => exact nomatch h

theorem unrelated_foreign (h : ∀ o ∈ os, o.subject ≠ some p) : Unrelated p os := by
  refine unrelated_of_forall fun o ho => ⟨?_, ?_⟩
  · cases hann : o.announced p with
    | none => rfl
    | some json => exact absurd (Obs.announced_subject hann) (h o ho)
  · cases hacc : o.accepted p with
    | none => rfl
    | some call => exact absurd (Obs.accepted_subject hacc) (h o ho)

/-- A log that is faithful unless something was `refused`, and then has fewer calls than
announcements. -/
structure Logged (p : ProgramId) (refused : Prop) (os : List Obs) : Prop where
  lags : refused → (accepted p os).length < (announced p os).length
  faithful : ¬ refused → LogFaithful p os

theorem Unrelated.logged (h : Unrelated p os) {refused : Prop} (hr : ¬ refused) :
    Logged p refused os := ⟨fun h => absurd h hr, fun _ => h.faithful⟩

theorem Logged.le {refused : Prop} (h : Logged p refused os) :
    (accepted p os).length ≤ (announced p os).length := by
  by_cases hr : refused
  · exact Nat.le_of_lt (h.lags hr)
  · exact Nat.le_of_eq (h.faithful hr).length_eq.symm

theorem Logged.append {refused refused' : Prop} (hl : Logged p refused l)
    (hr : Logged p refused' r) : Logged p (refused ∨ refused') (l ++ r) := by
  refine ⟨fun h => ?_, fun h => ?_⟩
  · have hle := hl.le
    have hle' := hr.le
    rw [accepted_append, announced_append, List.length_append, List.length_append]
    rcases h with h | h
    · have hlt := hl.lags h
      omega
    · have hlt := hr.lags h
      omega
  · exact (hl.faithful fun hr => h (.inl hr)).append (hr.faithful fun hr => h (.inr hr))

theorem Logged.unrelated {refused : Prop} (hl : Logged p refused l) (hr : Unrelated p r) :
    Logged p refused (l ++ r) := by
  have hboth := hl.append (hr.logged not_false)
  rwa [or_false] at hboth

end Lists

section Steps
variable {σ τ : Type} (B : Backends σ τ) (tk : Tick) (c : Caller)

theorem announced_exchanges {os : List Obs} (h : ∀ o ∈ os, o.Exchange c.id) :
    announced c.id os = [] := by
  refine List.filterMap_eq_nil_iff.mpr fun o ho => ?_
  match o, h o ho with
  | .perceived .., _ | .called .., _ => rfl

theorem resolveTarget_admits (target : Target) :
    Sat (fun r os => accepted c.id os = [] ∧ ∀ p, r = .ok p → target.Admits p)
      (resolveTarget B tk c target) := by
  cases target with
  | absolute q =>
    refine sat_pure ⟨rfl, ?_⟩
    rintro p ⟨⟩
    exact rfl
  | expression text =>
    rw [resolveTarget]
    cases Expr.parse text with
    | error e => exact sat_pure ⟨rfl, fun _ _ => trivial⟩
    | ok e =>
      have hquery : Sat (fun _ os => accepted c.id os = [])
          (evaluateNamed B tk c .body e.predicate) := fun _ => rfl
      refine sat_bind hquery fun r os hos => ?_
      have hquiet : accepted c.id (os ++ []) = [] := by rw [List.append_nil, hos]
      cases r with
      | error e => exact sat_pure ⟨hquiet, fun _ _ => trivial⟩
      | ok r => cases e.accessor <;> exact sat_pure ⟨hquiet, fun _ _ => trivial⟩

theorem callInput_accepted (call : InputCall) :
    Sat (fun r os => accepted c.id os = match r with | .ok () => [call] | .error _ => [])
      (callInput B c call) := by
  intro env
  unfold callInput
  dsimp only
  cases (B.call call env.input).1 with
  | error e => rfl
  | ok u => simp [accepted, Obs.accepted, Except.mapError]

theorem dispatchAt_accepted (target : Target) (f : Point → InputCall) :
    Sat (fun r os => match r with
      | .ok () => ∃ p, target.Admits p ∧ accepted c.id os = [f p]
      | .error _ => accepted c.id os = []) (dispatchAt B tk c target f) := by
  refine sat_bind (resolveTarget_admits B tk c target) fun r os hr => ?_
  cases r with
  | error e =>
    refine sat_pure ?_
    rw [List.append_nil]
    exact hr.1
  | ok p =>
    refine (callInput_accepted B c (f p)).mono fun r os' hcall => ?_
    cases r with
    | error e => rw [accepted_append, hr.1, hcall]; rfl
    | ok u => exact ⟨p, hr.2 p rfl, by rw [accepted_append, hr.1, hcall]; rfl⟩

theorem dispatchAction_accepted (s : Step) :
    Sat (fun r os => match r with
      | .ok () => ∃ call, s.Calls call ∧ accepted c.id os = [call]
      | .error _ => accepted c.id os = []) (dispatchAction B tk c s) := by
  cases s with
  | move at_ | click at_ button | scroll at_ dx dy =>
    refine (dispatchAt_accepted B tk c at_ _).mono fun r os hr => ?_
    cases r with
    | error e => exact hr
    | ok u =>
      obtain ⟨p, hp, hacc⟩ := hr
      exact ⟨_, ⟨p, hp, rfl⟩, hacc⟩
  | type text | key name modifiers =>
    refine (callInput_accepted B c _).mono fun r os hr => ?_
    cases r with
    | error e => exact hr
    | ok u => exact ⟨_, rfl, hr⟩
  | sleepMs | waitFor | assert => exact sat_pure rfl

/-- The steps of a watch: all of them are announced, and all but the one that errs are called. -/
theorem dispatchSteps_log (steps : List Step) :
    Sat (fun r os => match r with
      | none => LogFaithful c.id os
      | some _ => (accepted c.id os).length < (announced c.id os).length)
      (dispatchSteps B tk c steps) := by
  induction steps with
  | nil => exact sat_pure .nil
  | cons s rest ih =>
    have hexchanges := exchanges_dispatchAction B tk c s
    intro env
    -- a step is announced before it is carried out, so the one that fails has no call
    have haction := dispatchAction_accepted B tk c s env
    have hann := announced_exchanges c (hexchanges env)
    simp only [dispatchSteps, bind_apply, tell_apply]
    cases hr : (dispatchAction B tk c s env).1 with
    | error e =>
      rw [hr] at haction
      simp only [pure_apply, List.append_nil]
      rw [accepted_append, announced_append, haction, hann]
      simp [accepted, announced, Obs.accepted, Obs.announced]
    | ok u =>
      rw [hr] at haction
      obtain ⟨call, hcall, hacc⟩ := haction
      have hrest := ih (dispatchAction B tk c s env).2.1
      have hannounced : announced c.id ([Obs.emitted (.actionDispatched c.id s.toValue none)] ++
          ((dispatchAction B tk c s env).2.2 ++
            (dispatchSteps B tk c rest (dispatchAction B tk c s env).2.1).2.2)) =
          s.toValue :: announced c.id
            (dispatchSteps B tk c rest (dispatchAction B tk c s env).2.1).2.2 := by
        rw [announced_append, announced_append, hann]
        simp [announced, Obs.announced]
      have haccepted : accepted c.id ([Obs.emitted (.actionDispatched c.id s.toValue none)] ++
          ((dispatchAction B tk c s env).2.2 ++
            (dispatchSteps B tk c rest (dispatchAction B tk c s env).2.1).2.2)) =
          call :: accepted c.id
            (dispatchSteps B tk c rest (dispatchAction B tk c s env).2.1).2.2 := by
        rw [accepted_append, accepted_append, hacc]
        simp [accepted, Obs.accepted]
      cases hr' : (dispatchSteps B tk c rest (dispatchAction B tk c s env).2.1).1 with
      | none =>
        rw [hr'] at hrest
        dsimp only
        rw [LogFaithful, hannounced, haccepted]
        exact .cons ⟨s, rfl, hcall⟩ hrest
      | some e =>
        rw [hr'] at hrest
        dsimp only
        rw [hannounced, haccepted]
        exact Nat.succ_lt_succ hrest

def Carries (body : List Step) (cursor : Nat) (state : BodyState) (env : Env σ τ) : Prop :=
  state.deferred = none ∧
    ∃ s, body[cursor]? = some s ∧ (dispatchAction B tk c s env).1 = .ok ()

theorem evaluateNamed_accepted (name : String) :
    Emits (fun o => o.accepted c.id = none) (evaluateNamed B tk c .body name) := by
  intro env o ho
  rw [List.mem_singleton.mp ho]
  rfl

theorem stepDeferred_accepted (d : BodyDefer) :
    Emits (fun o => o.accepted c.id = none) (stepDeferred B tk c d) := by
  cases d with
  | sleep wakeAtMs =>
    rw [stepDeferred]
    split_ifs <;> exact emits_pure _
  | waitFor predicate deadlineMs onTimeout =>
    refine emits_bind (evaluateNamed_accepted B tk c predicate) fun r => ?_
    cases r with
    | error e => exact emits_pure _
    | ok r =>
      dsimp only
      split_ifs
      · exact emits_pure _
      · cases onTimeout <;> exact emits_pure _
      · exact emits_pure _

theorem stepAssert_accepted (predicate : String) (onFail : OnFail) :
    Emits (fun o => o.accepted c.id = none) (stepFresh B tk c (.assert predicate onFail)) := by
  refine emits_bind (evaluateNamed_accepted B tk c predicate) fun r => ?_
  cases r with
  | error e => exact emits_pure _
  | ok r =>
    dsimp only
    split_ifs
    · exact emits_pure _
    · cases onFail <;> exact emits_pure _

theorem stepFresh_accepted (s : Step) (env : Env σ τ) :
    accepted c.id (stepFresh B tk c s env).2.2 = accepted c.id (dispatchAction B tk c s env).2.2 := by
  cases s with
  | sleepMs | waitFor => rfl
  | assert predicate onFail =>
    have hnone := List.filterMap_eq_nil_iff.mpr (stepAssert_accepted B tk c predicate onFail env)
    rw [accepted, hnone]
    rfl
  | move | click | scroll | type | key =>
    simp only [stepFresh, bind_apply, pure_apply, List.append_nil]

theorem stepOnce_accepted (body : List Step) (cursor : Nat) (state : BodyState) (env : Env σ τ) :
    accepted c.id (stepOnce B tk c body cursor state env).2.2 ≠ [] ↔
      Carries B tk c body cursor state env := by
  unfold stepOnce Carries
  cases state.deferred with
  | some d =>
    have hnone := List.filterMap_eq_nil_iff.mpr (stepDeferred_accepted B tk c d env)
    simp [accepted, hnone]
  | none =>
    cases body[cursor]? with
    | none => simp [accepted]
    | some s =>
      have haction := dispatchAction_accepted B tk c s env
      simp only [stepFresh_accepted, true_and, Option.some.injEq, exists_eq_left']
      cases hr : (dispatchAction B tk c s env).1 with
      | error e =>
        rw [hr] at haction
        simp [haction]
      | ok u =>
        rw [hr] at haction
        obtain ⟨call, -, hacc⟩ := haction
        simp [hacc]

end Steps

def Obs.Aside (p : ProgramId) (o : Obs) : Prop := o.announced p = none ∧ o.accepted p = none

def observed (ms : List (Moment ProgramMap)) : List Obs := ms.map Moment.obs

theorem observed_append (l r : List (Moment ProgramMap)) :
    observed (l ++ r) = observed l ++ observed r := List.map_append

section Asides
variable {p : ProgramId}

theorem Obs.In.aside {part : Part} {id : ProgramId} {o : Obs} (h : o.In part id)
    (hpart : part ≠ .act) : o.Aside p := by
  match o, h with
  | perceived .., _ | decided .., _ => exact ⟨rfl, rfl⟩
  | called .., ⟨_, hact⟩ | emitted (.actionDispatched ..), ⟨_, hact⟩ => exact absurd hact hpart

theorem unrelated_asides {ms : List (Moment ProgramMap)} (h : ∀ m ∈ ms, m.obs.Aside p) :
    Unrelated p (observed ms) := by
  refine unrelated_of_forall fun o ho => ?_
  obtain ⟨m, hm, rfl⟩ := List.mem_map.mp ho
  exact h m hm

end Asides

namespace Scheduler

variable {σ τ : Type} {B : Backends σ τ} {tk : Tick} {order : List ProgramId}
  {s : Scheduler σ τ} {p id : ProgramId}

def Idle (p : ProgramId) (g : ProgramId → Stage σ τ) : Prop :=
  ∀ id rp env, ∀ o ∈ (g id rp env).2.2, o.2.Aside p

theorem lift_aside {g : ProgramId → Stage σ τ} {nowMs : UnixMs} (hg : Idle p g) :
    ∀ m ∈ (s.lift nowMs g id).2, m.obs.Aside p := by
  cases hid : s.programs.lookup id with
  | none =>
    rw [lift_none hid]
    exact fun m hm => absurd hm List.not_mem_nil
  | some rp =>
    rw [lift_some hid]
    intro m hm
    obtain ⟨o, ho, rfl⟩ := List.mem_map.mp hm
    exact hg id rp s.env o ho

theorem idle_triggerProgram : Idle p (triggerProgram B tk) := by
  intro id rp env
  have hseen : ∀ o ∈ (triggerFires B tk id rp env).2.2.map fun o => (rp, o), o.2.Aside p := by
    intro o ho
    obtain ⟨x, hx, rfl⟩ := List.mem_map.mp ho
    exact (emits_triggerFires B tk id rp env x hx).aside Part.noConfusion
  unfold triggerProgram
  dsimp only
  split
  · intro o ho
    rcases List.mem_append.mp ho with ho | ho
    · exact hseen o ho
    · rw [List.mem_singleton.mp ho]
      exact ⟨rfl, rfl⟩
  · exact hseen
  · intro o ho
    rcases List.mem_append.mp ho with ho | ho
    · exact hseen o ho
    · rw [List.mem_singleton.mp ho]
      exact ⟨rfl, rfl⟩

theorem triggered_aside : ∀ m ∈ (triggered B tk order s).2, m.obs.Aside p := by
  intro m hm
  obtain ⟨r, -, hstep⟩ := mem_run_iff.mp hm
  exact lift_aside idle_triggerProgram m hstep

theorem evalMoments_aside :
    ∀ m ∈ evalMoments tk (triggered B tk order s).1.programs (evaluated B tk order s).2,
      m.obs.Aside p := by
  intro m hm
  obtain ⟨e, he, hme⟩ := List.mem_flatMap.mp hm
  obtain ⟨o, ho, rfl⟩ := List.mem_map.mp hme
  obtain ⟨rp, env, -, -, heq⟩ := mem_evaluated he
  rw [heq] at ho
  obtain ⟨x, hx, rfl⟩ := List.mem_map.mp ho
  exact (emits_evalWatches B tk e.id rp _ env x hx).aside Part.noConfusion

theorem fired_aside : ∀ m ∈ (fired B tk order s).2, m.obs.Aside p := by
  intro m hm
  obtain ⟨r, -, hstep⟩ := mem_run_iff.mp hm
  refine lift_aside (g := fun id => directProgram id r.2.2) ?_ m hstep
  intro id rp env o ho
  rw [List.mem_singleton.mp ho]
  exact ⟨rfl, rfl⟩

theorem drainOne_aside (c : SchedulerCommand) (nowMs : UnixMs) :
    ∀ m ∈ (s.drainOne nowMs c).2, m.obs.Aside p := by
  cases c with
  | shutdown => exact fun m hm => absurd hm List.not_mem_nil
  | submitValidated | resumeRunning =>
    intro m hm
    simp only [drainOne, List.mem_cons, List.not_mem_nil, or_false] at hm
    rcases hm with rfl | rfl <;> exact ⟨rfl, rfl⟩
  | cancel | start =>
    refine lift_aside ?_
    intro id rp env o ho
    rw [List.mem_singleton.mp ho]
    exact ⟨rfl, rfl⟩

def Refused (B : Backends σ τ) (tk : Tick) (p : ProgramId) (d : Dispatching σ τ)
    (dec : Arbiter.Decision WatchFire) : Prop :=
  dec.programId = p ∧ dec.dispatch = true ∧ dispatchErrs B tk d dec = true

theorem observed_lift {g : ProgramId → Stage σ τ} {nowMs : UnixMs} {rp : RunningProgram}
    (h : s.programs.lookup id = some rp) :
    observed (s.lift nowMs g id).2 = (g id rp s.env).2.2.map Prod.snd := by
  rw [lift_some h, observed, List.map_map]
  rfl

theorem map_snd_pair (rp : RunningProgram) (os : List Obs) :
    (os.map fun o => (rp, o)).map Prod.snd = os := by
  rw [List.map_map]
  exact List.map_id os

theorem dispatchProgram_observed (B : Backends σ τ) (tk : Tick) (id : ProgramId)
    (fire : WatchFire) (rp : RunningProgram) (env : Env σ τ) :
    ∃ data : EventData, (∀ p, (Obs.emitted data).Aside p) ∧
      (dispatchProgram B tk id fire rp env).2.2.map Prod.snd =
        (dispatchSteps B tk (rp.caller id) fire.steps env).2.2 ++ [.emitted data] := by
  unfold dispatchProgram
  dsimp only
  split
  · rw [List.map_append, map_snd_pair]
    exact ⟨_, fun _ => ⟨rfl, rfl⟩, rfl⟩
  · rw [List.map_append, map_snd_pair]
    exact ⟨_, fun _ => ⟨rfl, rfl⟩, rfl⟩

theorem dispatchOne_log (B : Backends σ τ) (tk : Tick) (p : ProgramId)
    (d : Dispatching σ τ) (dec : Arbiter.Decision WatchFire) :
    Logged p (Refused B tk p d dec) (observed (dispatchOne B tk d dec).2) := by
  cases hdisp : dec.dispatch with
  | false =>
    have hnot : ¬ Refused B tk p d dec := fun h =>
      absurd (hdisp.symm.trans h.2.1) Bool.false_ne_true
    refine Unrelated.logged (unrelated_asides ?_) hnot
    simp only [dispatchOne, hdisp, Bool.false_eq_true, if_false]
    -- the loser of an arbitration calls nothing and announces its deferral only
    cases dec.loserOf with
    | none => exact fun m hm => absurd hm List.not_mem_nil
    | some winner =>
      refine lift_aside (g := fun id => deferProgram id dec.payload winner) ?_
      intro id rp env o ho
      rw [List.mem_singleton.mp ho]
      exact ⟨rfl, rfl⟩
  | true =>
    have htrace : (dispatchOne B tk d dec).2 = (d.sched.lift tk.nowMs
        (fun id => dispatchProgram B tk id dec.payload) dec.programId).2 := by
      simp only [dispatchOne, hdisp, if_true]
      split_ifs <;> rfl
    cases hl : d.sched.programs.lookup dec.programId with
    | none =>
      have hnot : ¬ Refused B tk p d dec := by
        intro h
        have herrs := h.2.2
        simp only [dispatchErrs, hl] at herrs
        exact absurd herrs Bool.false_ne_true
      rw [htrace, lift_none hl]
      exact Unrelated.logged ⟨rfl, rfl⟩ hnot
    | some rp =>
      obtain ⟨data, haside, hobs⟩ := dispatchProgram_observed B tk dec.programId
        dec.payload rp d.sched.env
      have hdata : Unrelated p [Obs.emitted data] := by
        refine unrelated_of_forall fun o ho => ?_
        rw [List.mem_singleton.mp ho]
        exact haside p
      rw [htrace, observed_lift hl, hobs]
      refine Logged.unrelated ?_ hdata
      -- the steps are those of the program that was decided on, and of no other
      by_cases hid : dec.programId = p
      · subst hid
        have hlog := dispatchSteps_log B tk (rp.caller dec.programId) dec.payload.steps d.sched.env
        have herrs : dispatchErrs B tk d dec = (dispatchSteps B tk (rp.caller dec.programId)
            dec.payload.steps d.sched.env).1.isSome := by
          simp only [dispatchErrs, hl]
        cases hr : (dispatchSteps B tk (rp.caller dec.programId) dec.payload.steps
            d.sched.env).1 with
        | none =>
          rw [hr] at hlog herrs
          exact ⟨fun h => absurd (herrs.symm.trans h.2.2) Bool.false_ne_true, fun _ => hlog⟩
        | some e =>
          rw [hr] at hlog herrs
          exact ⟨fun _ => hlog, fun h => absurd ⟨rfl, hdisp, herrs⟩ h⟩
      · refine Unrelated.logged (unrelated_foreign ?_) fun h => hid h.1
        intro o ho hsub
        have hof := (emits_dispatchSteps B tk (rp.caller dec.programId) _ _ o ho).of
        exact hid (Option.some.inj (hof.symm.trans hsub))

theorem dispatchOne_failed (d : Dispatching σ τ) (dec : Arbiter.Decision WatchFire) :
    p ∈ (dispatchOne B tk d dec).1.failed ↔ p ∈ d.failed ∨ Refused B tk p d dec := by
  unfold Refused dispatchOne
  split_ifs with hdisp herrs
  · simp [hdisp, herrs, eq_comm]
  · simp [herrs]
  · cases dec.loserOf <;> simp [hdisp]

theorem run_dispatchOne_failed (B : Backends σ τ) (tk : Tick) (p : ProgramId)
    (d : Dispatching σ τ) (ds : List (Arbiter.Decision WatchFire)) :
    p ∈ (run (dispatchOne B tk) d ds).1.failed ↔
      p ∈ d.failed ∨ ∃ x ∈ trail (dispatchOne B tk) d ds, Refused B tk p x.1 x.2 := by
  induction ds generalizing d with
  | nil => simp
  | cons dec ds ih => simp [ih, dispatchOne_failed, or_assoc]

theorem run_dispatchOne_log (d : Dispatching σ τ) (ds : List (Arbiter.Decision WatchFire)) :
    Logged p (∃ x ∈ trail (dispatchOne B tk) d ds, Refused B tk p x.1 x.2)
      (observed (run (dispatchOne B tk) d ds).2) := by
  induction ds generalizing d with
  | nil => exact Unrelated.logged ⟨rfl, rfl⟩ (by simp)
  | cons dec ds ih =>
    have hboth := (dispatchOne_log B tk p d dec).append
      (ih (dispatchOne B tk d dec).1)
    rw [trail_cons, List.exists_mem_cons_iff, run_cons, observed_append]
    exact hboth

def Unannounced (B : Backends σ τ) (tk : Tick) (p : ProgramId) (s : Scheduler σ τ)
    (id : ProgramId) : Prop :=
  id = p ∧ ∃ rp, s.programs.lookup p = some rp ∧ rp.state = .running ∧
    Carries B tk (rp.caller p) rp.program.body rp.cursor rp.bodyState s.env

theorem completeProgram_aside (rp : RunningProgram) :
    ∀ o ∈ (completeProgram id rp).2.map Prod.snd, o.Aside p := by
  intro o ho
  simp only [completeProgram, List.map_cons, List.map_nil, List.mem_cons, List.not_mem_nil,
    or_false] at ho
  rcases ho with rfl | rfl <;> exact ⟨rfl, rfl⟩

theorem bodyProgram_observed (B : Backends σ τ) (tk : Tick) (p id : ProgramId)
    {rp : RunningProgram} (hrun : rp.state = .running) (env : Env σ τ) :
    ∃ tail : List Obs, Unrelated p tail ∧
      (bodyProgram B tk id rp env).2.2.map Prod.snd =
        (stepOnce B tk (rp.caller id) rp.program.body rp.cursor rp.bodyState env).2.2 ++ tail := by
  have hstepped : ∀ outcome, Unrelated p [Obs.stepped id rp.cursor outcome] :=
    fun _ => ⟨rfl, rfl⟩
  have hdone : ∀ rp, Unrelated p ((completeProgram id rp).2.map Prod.snd) :=
    fun rp => unrelated_of_forall (completeProgram_aside rp)
  have hbody := bodyProgram_run B tk id rp env
  generalize bodyProgram B tk id rp env = x at hbody ⊢
  cases hbody with
  | inert hinert => exact absurd hrun hinert
  | kept =>
    rw [map_snd_pair]
    exact ⟨_, hstepped _, rfl⟩
  | completed =>
    rw [List.map_append, map_snd_pair, List.append_assoc]
    exact ⟨_, (hstepped _).append (hdone _), rfl⟩
  | failed =>
    rw [List.map_append, map_snd_pair, List.append_assoc]
    exact ⟨_, (hstepped _).append ⟨rfl, rfl⟩, rfl⟩

theorem bodyOne_log (B : Backends σ τ) (tk : Tick) (p : ProgramId)
    (failed : List ProgramId) (s : Scheduler σ τ) (id : ProgramId) :
    announced p (observed (bodyOne B tk failed s id).2) = [] ∧
      (accepted p (observed (bodyOne B tk failed s id).2) ≠ [] ↔
        p ∉ failed ∧ Unannounced B tk p s id) := by
  by_cases hid : id = p
  · subst hid
    by_cases hfail : id ∈ failed
    · rw [bodyOne, if_pos hfail]
      simp [observed, announced, accepted, hfail]
    rw [bodyOne, if_neg hfail]
    cases hl : s.programs.lookup id with
    | none =>
      rw [lift_none hl]
      simp [observed, announced, accepted, Unannounced, hl]
    | some rp =>
      rw [observed_lift hl]
      by_cases hrun : rp.state = .running
      -- the body carries actions out without an announcement of its own
      · obtain ⟨tail, htail, hobs⟩ := bodyProgram_observed B tk id id hrun s.env
        have hann : announced id (stepOnce B tk (rp.caller id) rp.program.body rp.cursor
            rp.bodyState s.env).2.2 = [] :=
          announced_exchanges (rp.caller id) (exchanges_stepOnce B tk (rp.caller id) _ _ _ s.env)
        have hacc := stepOnce_accepted B tk (rp.caller id) rp.program.body rp.cursor rp.bodyState
          s.env
        rw [hobs, announced_append, accepted_append, hann, htail.announced, htail.accepted,
          List.append_nil, List.append_nil]
        refine ⟨rfl, hacc.trans ?_⟩
        simp [Unannounced, hl, hrun, hfail]
      · rw [bodyProgram, if_neg hrun]
        simp [announced, accepted, Unannounced, hl, hrun]
  · have hforeign : Unrelated p (observed (bodyOne B tk failed s id).2) := by
      apply unrelated_foreign
      intro o ho hsub
      obtain ⟨m, hm, rfl⟩ := List.mem_map.mp ho
      have hnone : (bodyOne B tk failed s id).2.filter (Moment.mine p) = [] :=
        bodyOne_filter_ne hid
      exact List.filter_eq_nil_iff.mp hnone m hm (decide_eq_true hsub)
    rw [hforeign.announced, hforeign.accepted]
    simp [Unannounced, hid]

theorem run_bodyOne_log (failed : List ProgramId) (s : Scheduler σ τ) (ids : List ProgramId) :
    announced p (observed (run (bodyOne B tk failed) s ids).2) = [] ∧
      (accepted p (observed (run (bodyOne B tk failed) s ids).2) ≠ [] ↔
        p ∉ failed ∧ ∃ x ∈ trail (bodyOne B tk failed) s ids, Unannounced B tk p x.1 x.2) := by
  induction ids generalizing s with
  | nil => simp [observed, announced, accepted]
  | cons id ids ih =>
    obtain ⟨hann, hacc⟩ := bodyOne_log B tk p failed s id
    obtain ⟨hanns, haccs⟩ := ih (bodyOne B tk failed s id).1
    rw [run_cons, observed_append, announced_append, accepted_append, hann, hanns, trail_cons,
      List.exists_mem_cons_iff]
    refine ⟨rfl, ?_⟩
    rw [ne_eq, List.append_eq_nil_iff, not_and_or, ← ne_eq, ← ne_eq, hacc, haccs, and_or_left]

section Tick
variable (B : Backends σ τ) (tk : Tick) (order : List ProgramId) (s : Scheduler σ τ)
  (p : ProgramId)

def WatchErrs : Prop :=
  ∃ x ∈ trail (dispatchOne B tk) (fired B tk order s).1 (decisions B tk order s),
    Refused B tk p x.1 x.2

def BodyActs : Prop :=
  ∃ x ∈ trail (bodyOne B tk (dispatched B tk order s).1.failed) (updated B tk order s)
    (runningIds B tk order s), Unannounced B tk p x.1 x.2

theorem fired_failed : (fired B tk order s).1.failed = [] :=
  run_invariant (I := fun d : Dispatching σ τ => d.failed = []) (fun _ _ _ h => h) rfl

theorem dispatched_failed : p ∈ (dispatched B tk order s).1.failed ↔ WatchErrs B tk order s p := by
  have hiff := run_dispatchOne_failed B tk p (fired B tk order s).1 (decisions B tk order s)
  rw [fired_failed] at hiff
  exact hiff.trans (or_iff_right List.not_mem_nil)

theorem capturedTick_observed :
    ∃ before, Unrelated p before ∧ observed (capturedTick B tk order s).2 =
      before ++ (observed (dispatched B tk order s).2 ++ observed (stepped B tk order s).2) := by
  have htrigger : Unrelated p (observed (triggered B tk order s).2) :=
    unrelated_asides triggered_aside
  have heval : Unrelated p (observed (evalMoments tk (triggered B tk order s).1.programs
      (evaluated B tk order s).2)) := unrelated_asides evalMoments_aside
  have hfire : Unrelated p (observed (fired B tk order s).2) := unrelated_asides fired_aside
  refine ⟨_, htrigger.append (heval.append hfire), ?_⟩
  simp only [capturedTick, observed_append, List.append_assoc]

theorem capturedTick_log :
    (¬ (WatchErrs B tk order s p ∨ BodyActs B tk order s p) →
      LogFaithful p (observed (capturedTick B tk order s).2)) ∧
    (WatchErrs B tk order s p ∨ BodyActs B tk order s p →
      (announced p (observed (capturedTick B tk order s).2)).length ≠
        (accepted p (observed (capturedTick B tk order s).2)).length) := by
  have hdisp : Logged p (WatchErrs B tk order s p) (observed (dispatched B tk order s).2) :=
    run_dispatchOne_log (fired B tk order s).1 (decisions B tk order s)
  have hfailed := dispatched_failed B tk order s p
  obtain ⟨hann, hacc⟩ : announced p (observed (stepped B tk order s).2) = [] ∧
      (accepted p (observed (stepped B tk order s).2) ≠ [] ↔
        p ∉ (dispatched B tk order s).1.failed ∧ BodyActs B tk order s p) :=
    run_bodyOne_log (dispatched B tk order s).1.failed (updated B tk order s)
      (runningIds B tk order s)
  rw [hfailed] at hacc
  obtain ⟨before, hbefore, hos⟩ := capturedTick_observed B tk order s p
  rw [hos]
  constructor
  · intro h
    rw [not_or] at h
    have hnone : accepted p (observed (stepped B tk order s).2) = [] := by
      by_contra hne
      exact h.2 (hacc.mp hne).2
    have hstepped : Unrelated p (observed (stepped B tk order s).2) := ⟨hann, hnone⟩
    exact hbefore.faithful.append ((hdisp.faithful h.1).append hstepped.faithful)
  · intro h
    rw [announced_append, announced_append, accepted_append, accepted_append, hbefore.announced,
      hbefore.accepted, hann, List.nil_append, List.nil_append, List.append_nil,
      List.length_append]
    by_cases hrefused : WatchErrs B tk order s p
    · -- a program whose watch has erred has no body stage
      have hnone : accepted p (observed (stepped B tk order s).2) = [] := by
        by_contra hne
        exact (hacc.mp hne).1 hrefused
      have hlt := hdisp.lags hrefused
      rw [hnone, List.length_nil]
      omega
    · have hsome := hacc.mpr ⟨hrefused, h.resolve_left hrefused⟩
      have hpos := List.length_pos_iff.mpr hsome
      have heq := (hdisp.faithful hrefused).length_eq
      omega

end Tick

def Misreports (B : Backends σ τ) (p : ProgramId) (s : Scheduler σ τ) : Input → Prop
  | .command .. => False
  | .tick t => ∃ frame, t.capture = some frame ∧
    (WatchErrs B ⟨frame, t.nowMs⟩ (t.arrange s.programs.keys).1 s p ∨
      BodyActs B ⟨frame, t.nowMs⟩ (t.arrange s.programs.keys).1 s p)

theorem step_log (B : Backends σ τ) (p : ProgramId) (s : Scheduler σ τ) (i : Input) :
    (¬ Misreports B p s i → LogFaithful p (observed (step B s i).2)) ∧
      (Misreports B p s i → (announced p (observed (step B s i).2)).length ≠
        (accepted p (observed (step B s i).2)).length) := by
  cases i with
  | command c nowMs =>
    have hquiet : Unrelated p (observed (step B s (.command c nowMs)).2) :=
      unrelated_asides (drainOne_aside c nowMs)
    exact ⟨fun _ => hquiet.faithful, False.elim⟩
  | tick t =>
    simp only [step, tickOnce, Misreports]
    cases hc : t.capture with
    | none => exact ⟨fun _ => List.Forall₂.nil, fun h => nomatch h⟩
    | some frame =>
      have htick := capturedTick_log B ⟨frame, t.nowMs⟩ (t.arrange s.programs.keys).1 s p
      simp only [Option.some.injEq, exists_eq_left']
      exact htick

/-- In every run, the log of `p` stays faithful if and only if no watch of `p` announces a step
that errs and the body of `p` carries out no action. -/
theorem action_log_faithful_iff (B : Backends σ τ) (env : Env σ τ) (p : ProgramId)
    (is : List Input) :
    (∀ done, done <+: is → LogFaithful p (observed (run (step B) (new env) done).2)) ↔
      ∀ x ∈ trail (step B) (new env) is, ¬ Misreports B p x.1 x.2 := by
  constructor
  · intro h x hx hmis
    obtain ⟨done, i, rest, rfl, rfl⟩ := mem_trail_iff.mp hx
    have hdone := h done ⟨i :: rest, rfl⟩
    have hnext := h (done ++ [i]) ⟨rest, by simp⟩
    rw [run_append, run_cons, run_nil, observed_append, List.append_nil] at hnext
    have hlen := hdone.length_eq
    have hlen' := hnext.length_eq
    rw [announced_append, accepted_append, List.length_append, List.length_append, hlen] at hlen'
    exact (step_log B p _ i).2 hmis (Nat.add_left_cancel hlen')
  · rintro h done ⟨rest, rfl⟩
    induction done using List.reverseRecOn generalizing rest with
    | nil => exact List.Forall₂.nil
    | append_singleton done i ih =>
      have hnot : ¬ Misreports B p (run (step B) (new env) done).1 i :=
        h (_, i) (mem_trail_iff.mpr ⟨done, i, rest, by simp, rfl⟩)
      have hdone := ih (i :: rest) (by simpa using h)
      rw [run_append, run_cons, run_nil, observed_append, List.append_nil]
      exact hdone.append ((step_log B p _ i).1 hnot)

def typing : List Input :=
  [.command (.submitValidated ⟨1⟩ { Program.blank "demo" with body := [.type "a"] } ∅) 0,
    .tick (.plain .dot 10)]

/-- The text is typed, and nothing announces it. -/
theorem body_action_not_announced :
    ¬ ∀ done, done <+: typing → LogFaithful ⟨1⟩ (observed
      (run (step (Backends.constant (.error .regionOutOfBounds))) (new ⟨(), ()⟩) done).2) := by
  intro h
  have hlen := (h typing List.prefix_rfl).length_eq
  exact absurd hlen (by decide)

end Scheduler

end Vcli

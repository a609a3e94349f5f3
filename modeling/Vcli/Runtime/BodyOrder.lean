import Vcli.Lib.History
import Vcli.Runtime.Turns

/-! The order in which a body is executed. The cursor and the deferral of a step are kept apart in
the program; over a run the deferral is always that of the step at the cursor. -/

namespace Vcli

open Transducer History

def Step.deferral (nowMs : UnixMs) : Step → Option BodyDefer
  | .sleepMs ms => some (.sleep (UnixMs.saturatingAdd nowMs ms.toNat))
  | .waitFor predicate timeoutMs onTimeout =>
    some (.waitFor predicate (UnixMs.saturatingAdd nowMs timeoutMs.toNat) onTimeout)
  | _ => none

def walk : Nat → List (Nat × StepOutcome) → Option Nat
  | c, [] => some c
  | c, (k, o) :: vs => if k = c then walk (if o = .advanced then c + 1 else c) vs else none

theorem walk_append {c c' : Nat} {vs ws : List (Nat × StepOutcome)} (h : walk c vs = some c') :
    walk c (vs ++ ws) = walk c' ws := by
  induction vs generalizing c with
  | nil =>
    obtain rfl : c = c' := Option.some.inj h
    rfl
  | cons v vs ih =>
    simp only [walk, List.cons_append] at h ⊢
    split_ifs at h ⊢ <;> exact ih h

section Calls
variable {σ τ : Type} (B : Backends σ τ) (tk : Tick) (c : Caller)

abbrev Silent {α : Type} (m : Interaction (Env σ τ) Obs α) : Prop :=
  Interaction.Emits (fun o => o.success = none) m

theorem silent_evaluateNamed (site : Site) (name : String) :
    Silent (evaluateNamed B tk c site name) := by
  intro env o ho
  rw [List.mem_singleton.mp ho]
  rfl

theorem silent_resolveTarget (target : Target) : Silent (resolveTarget B tk c target) := by
  cases target with
  | absolute at_ => exact Interaction.emits_pure _
  | expression s =>
    rw [resolveTarget]
    cases Expr.parse s with
    | error e => exact Interaction.emits_pure _
    | ok e =>
      refine Interaction.emits_bind (silent_evaluateNamed B tk c _ _) fun r => ?_
      cases r with
      | error err => exact Interaction.emits_pure _
      | ok r => cases ha : e.accessor <;> exact Interaction.emits_pure _

def Spends {α : Type} (done : α → Prop) (r : α) (os : List Obs) : Prop :=
  os.filterMap Obs.success = [] ∨ done r ∧ (os.filterMap Obs.success).length = 1

theorem spends_bind {α β : Type} {done : β → Prop} {m : Interaction (Env σ τ) Obs α}
    {k : α → Interaction (Env σ τ) Obs β} (hm : Silent m) (hk : ∀ a, (k a).Sat (Spends done)) :
    (m >>= k).Sat (Spends done) := by
  refine Interaction.sat_bind hm fun a os hos => (hk a).mono fun b os' h => ?_
  rwa [Spends, List.filterMap_append, List.filterMap_eq_nil_iff.mpr hos, List.nil_append]

theorem spends_callInput (call : InputCall) :
    (callInput B c call).Sat (Spends fun r => r = .ok ()) := by
  intro env
  unfold callInput
  dsimp only
  cases (B.call call env.input).1 with
  | error e => exact .inl rfl
  | ok u => exact .inr ⟨rfl, rfl⟩

theorem spends_dispatchAction (step : Step) :
    (dispatchAction B tk c step).Sat (Spends fun r => r = .ok ()) := by
  have hat : ∀ target f, (dispatchAt B tk c target f).Sat (Spends fun r => r = .ok ()) := by
    intro target f
    refine spends_bind (silent_resolveTarget B tk c target) fun r => ?_
    cases r with
    | error e => exact Interaction.sat_pure (.inl rfl)
    | ok at_ => exact spends_callInput B c (f at_)
  cases step with
  | move | click | scroll => exact hat _ _
  | type | key => exact spends_callInput B c _
  | sleepMs | waitFor | assert => exact Interaction.sat_pure (.inl rfl)

theorem spends_stepOnce (body : List Step) (cursor : Nat) (state : BodyState) :
    (stepOnce B tk c body cursor state).Sat (Spends fun r => r.1 = .advanced) := by
  unfold stepOnce
  cases state.deferred with
  | some d =>
    cases d with
    | sleep wakeAtMs =>
      dsimp only [stepDeferred]
      split_ifs <;> exact Interaction.sat_pure (.inl rfl)
    | waitFor predicate deadlineMs onTimeout =>
      refine spends_bind (silent_evaluateNamed B tk c _ _) fun r => ?_
      cases r with
      | error e => exact Interaction.sat_pure (.inl rfl)
      | ok r =>
        dsimp only
        split_ifs
        · exact Interaction.sat_pure (.inl rfl)
        · cases onTimeout <;> exact Interaction.sat_pure (.inl rfl)
        · exact Interaction.sat_pure (.inl rfl)
  | none =>
    cases body[cursor]? with
    | none => exact Interaction.sat_pure (.inl rfl)
    | some step =>
      cases step with
      | sleepMs | waitFor => exact Interaction.sat_pure (.inl rfl)
      | assert predicate onFail =>
        refine spends_bind (silent_evaluateNamed B tk c _ _) fun r => ?_
        cases r with
        | error e => exact Interaction.sat_pure (.inl rfl)
        | ok r =>
          dsimp only
          split_ifs
          · exact Interaction.sat_pure (.inl rfl)
          · cases onFail <;> exact Interaction.sat_pure (.inl rfl)
      -- the call of an action is the only one of a turn, and the turn advances with it
      | move | click | scroll | type | key =>
        refine Interaction.sat_bind (spends_dispatchAction B tk c _) fun r os hos => ?_
        refine Interaction.sat_pure ?_
        rw [List.append_nil]
        exact hos.imp id fun h => ⟨congrArg outcomeOf h.1, h.2⟩

end Calls

section Deferrals
variable {σ τ : Type} (B : Backends σ τ) (tk : Tick) (c : Caller)

theorem stepDeferred_defers (d : BodyDefer) :
    (stepDeferred B tk c d).Sat fun r _ =>
      r.2.deferred = none ∨ r.2.deferred = some d ∧ r.1 ≠ .advanced := by
  cases d with
  | sleep wakeAtMs =>
    rw [stepDeferred]
    split_ifs
    · exact Interaction.sat_pure (.inl rfl)
    · exact Interaction.sat_pure (.inr ⟨rfl, StepOutcome.noConfusion⟩)
  | waitFor predicate deadlineMs onTimeout =>
    refine Interaction.sat_bind (q := fun _ _ => True) (fun _ => trivial) fun r _ _ => ?_
    cases r with
    | error e => exact Interaction.sat_pure (.inr ⟨rfl, StepOutcome.noConfusion⟩)
    | ok r =>
      dsimp only
      split_ifs
      · exact Interaction.sat_pure (.inl rfl)
      · cases onTimeout <;> exact Interaction.sat_pure (.inl rfl)
      · exact Interaction.sat_pure (.inr ⟨rfl, StepOutcome.noConfusion⟩)

theorem stepFresh_defers (step : Step) :
    (stepFresh B tk c step).Sat fun r _ =>
      r.2.deferred = step.deferral tk.nowMs ∧ (r.2.deferred ≠ none → r.1 = .stalled) := by
  cases step with
  | sleepMs ms => exact Interaction.sat_pure ⟨rfl, fun _ => rfl⟩
  | waitFor predicate timeoutMs onTimeout => exact Interaction.sat_pure ⟨rfl, fun _ => rfl⟩
  | assert predicate onFail =>
    refine Interaction.sat_bind (q := fun _ _ => True) (fun _ => trivial) fun r _ _ => ?_
    cases r with
    | error e => exact Interaction.sat_pure ⟨rfl, fun h => absurd rfl h⟩
    | ok r =>
      dsimp only
      split_ifs
      · exact Interaction.sat_pure ⟨rfl, fun h => absurd rfl h⟩
      · cases onFail <;> exact Interaction.sat_pure ⟨rfl, fun h => absurd rfl h⟩
  | move | click | scroll | type | key =>
    refine Interaction.sat_bind (q := fun _ _ => True) (fun _ => trivial) fun r _ _ => ?_
    exact Interaction.sat_pure ⟨rfl, fun h => absurd rfl h⟩

end Deferrals

namespace Turn

variable {σ τ : Type} {B : Backends σ τ} {p : ProgramId} {v : Turn σ τ}

def Enters (v : Turn σ τ) : Prop := v.rp.bodyState.deferred = none

theorem result_deferred {d : BodyDefer} (h : v.rp.bodyState.deferred = some d) :
    v.result B p = stepDeferred B v.tick (v.rp.caller p) d v.env := by
  rw [result, stepOnce, h]

theorem result_fresh {step : Step} (h : v.Enters) (hstep : v.place.step? = some step) :
    v.result B p = stepFresh B v.tick (v.rp.caller p) step v.env := by
  have hcur : v.rp.program.body[v.rp.cursor]? = some step := hstep
  rw [result, stepOnce, show v.rp.bodyState.deferred = none from h, hcur]

theorem result_done (h : v.Enters) (hstep : v.place.step? = none) :
    v.result B p = ((.bodyComplete, {}), v.env, []) := by
  have hcur : v.rp.program.body[v.rp.cursor]? = none := hstep
  rw [result, stepOnce, show v.rp.bodyState.deferred = none from h, hcur]
  rfl

theorem place_after (hrun : v.rp.state = .running) : (v.after B p).place =
    ⟨v.rp.program, if v.outcome B p = .advanced then v.rp.cursor + 1 else v.rp.cursor,
      (v.result B p).1.2⟩ := by
  obtain ⟨hprog, hstate, hcur⟩ := bodyProgram_moves B v.tick p v.rp v.env hrun
  rw [RunningProgram.place, after, hprog, hstate, hcur]
  rfl

/-- Where a deferral comes from: it was there before the turn, or the step at the cursor has just
been entered. -/
theorem defers {d : BodyDefer} (h : (v.result B p).1.2.deferred = some d) :
    v.outcome B p ≠ .advanced ∧ (v.rp.bodyState.deferred = some d ∨
      v.Enters ∧ v.place.step?.bind (Step.deferral v.tick.nowMs) = some d) := by
  cases hd : v.rp.bodyState.deferred with
  | some d' =>
    have hres := stepDeferred_defers B v.tick (v.rp.caller p) d' v.env
    rw [← result_deferred hd] at hres
    rcases hres with hnone | ⟨hsome, hout⟩
    · exact nomatch hnone.symm.trans h
    · exact ⟨hout, .inl (hsome.symm.trans h)⟩
  | none =>
    cases hstep : v.place.step? with
    | none =>
      rw [result_done hd hstep] at h
      exact nomatch h
    | some step =>
      have hres := stepFresh_defers B v.tick (v.rp.caller p) step v.env
      rw [← result_fresh hd hstep] at hres
      refine ⟨?_, .inr ⟨hd, ?_⟩⟩
      · have hstalled : v.outcome B p = .stalled := hres.2 (by rw [h]; exact Option.some_ne_none d)
        rw [hstalled]
        exact StepOutcome.noConfusion
      · exact hres.1.symm.trans h

theorem outcome_sleeping {wakeAtMs : UnixMs}
    (h : v.rp.bodyState.deferred = some (.sleep wakeAtMs)) :
    (v.result B p).1 = if wakeAtMs ≤ v.tick.nowMs then (.advanced, {})
      else (.stalled, v.rp.bodyState) := by
  rw [result_deferred h, stepDeferred]
  split_ifs
  · rfl
  · show (StepOutcome.stalled, (⟨some (.sleep wakeAtMs)⟩ : BodyState)) = _
    rw [← h]

theorem outcome_falling_asleep {ms : UInt32} (h : v.Enters)
    (hstep : v.place.step? = some (.sleepMs ms)) :
    (v.result B p).1 =
      (.stalled, ⟨some (.sleep (UnixMs.saturatingAdd v.tick.nowMs ms.toNat))⟩) := by
  rw [result_fresh h hstep]
  rfl

theorem successes_le : v.successes B p = [] ∨
    v.outcome B p = .advanced ∧ (v.successes B p).length = 1 :=
  spends_stepOnce B v.tick (v.rp.caller p) v.rp.program.body v.rp.cursor v.rp.bodyState v.env

end Turn

section Accounted
variable {σ τ : Type} (B : Backends σ τ) (p : ProgramId)

def spentAt (k : Nat) (vs : List (Turn σ τ)) : List InputCall :=
  (vs.filter fun v => decide (v.rp.cursor = k)).flatMap (Turn.successes B p)

def entry (k : Nat) (vs : List (Turn σ τ)) : Option (Turn σ τ) :=
  vs.find? fun v => decide (v.rp.cursor = k)

def Woken (l : List (Turn σ τ)) (w : Turn σ τ) : Prop :=
  ∀ ms, w.place.step? = some (.sleepMs ms) → w.outcome B p = .advanced →
    ∃ e, entry w.rp.cursor l = some e ∧
      UnixMs.saturatingAdd e.tick.nowMs ms.toNat ≤ w.tick.nowMs

structure Accounted (start : Nat) (vs : List (Turn σ τ)) (c : BodyPlace) : Prop where
  order : walk start (vs.map (Turn.verdict B p)) = some c.cursor
  behind : ∀ v ∈ vs, v.rp.cursor ≤ c.cursor
  origin : ∀ d, c.state.deferred = some d → ∃ e mid, LastMark Turn.Enters vs e mid ∧
    e.rp.cursor = c.cursor ∧ c.step?.bind (Step.deferral e.tick.nowMs) = some d
  asleep : ∀ ms, c.step? = some (.sleepMs ms) → c.state.deferred =
    (entry c.cursor vs).map fun e => .sleep (UnixMs.saturatingAdd e.tick.nowMs ms.toNat)
  woken : ∀ l w r, vs = l ++ w :: r → Woken B p l w
  spent : ∀ k, (spentAt B p k vs).length ≤ 1 ∧ (c.cursor ≤ k → spentAt B p k vs = [])

variable {B p} {start : Nat} {vs : List (Turn σ τ)} {v : Turn σ τ} {k : Nat}

theorem entry_snoc : entry k (vs ++ [v]) =
    (entry k vs).or (if v.rp.cursor = k then some v else none) := by
  rw [entry, List.find?_append, entry]
  by_cases hk : v.rp.cursor = k <;> simp [hk]

theorem entry_ahead (h : ∀ v ∈ vs, v.rp.cursor < k) : entry k vs = none :=
  List.find?_eq_none.mpr fun v hv hk => Nat.ne_of_lt (h v hv) (of_decide_eq_true hk)

theorem spentAt_snoc : spentAt B p k (vs ++ [v]) =
    spentAt B p k vs ++ if v.rp.cursor = k then v.successes B p else [] := by
  rw [spentAt, List.filter_append, List.flatMap_append, spentAt]
  by_cases hk : v.rp.cursor = k <;> simp [hk]

theorem accounted_start {c : BodyPlace} (h : c.state = {}) :
    Accounted B p c.cursor ([] : List (Turn σ τ)) c where
  order := rfl
  behind := fun v hv => absurd hv List.not_mem_nil
  origin := fun d hd => by rw [h] at hd; exact nomatch hd
  asleep := fun ms _ => by rw [h]; rfl
  woken := fun l w r heq => by simp at heq
  spent := fun k => ⟨Nat.zero_le 1, fun _ => rfl⟩

theorem woken_of_accounted (h : Accounted B p start vs v.place) : Woken B p vs v := by
  intro ms hstep hadv
  have hasleep := h.asleep ms hstep
  cases hentry : entry v.rp.cursor vs with
  | none =>
    have hnone : v.Enters := by
      rw [show v.place.cursor = v.rp.cursor from rfl, hentry] at hasleep
      exact hasleep
    have hstalled := congrArg Prod.fst (Turn.outcome_falling_asleep (B := B) (p := p) hnone hstep)
    exact nomatch hstalled.symm.trans hadv
  | some e =>
    rw [show v.place.cursor = v.rp.cursor from rfl, hentry] at hasleep
    have hout := congrArg Prod.fst (Turn.outcome_sleeping (B := B) (p := p) hasleep)
    refine ⟨e, rfl, ?_⟩
    by_contra hearly
    rw [if_neg hearly] at hout
    exact nomatch hout.symm.trans hadv

theorem place_stays (hrun : v.rp.state = .running) (h : v.outcome B p ≠ .advanced) :
    (v.after B p).place.cursor = v.rp.cursor ∧ (v.after B p).place.step? = v.place.step? := by
  rw [Turn.place_after hrun, BodyPlace.step?, if_neg h]
  exact ⟨rfl, rfl⟩

theorem place_moves (hrun : v.rp.state = .running) (h : v.outcome B p = .advanced) :
    (v.after B p).place.cursor = v.rp.cursor + 1 := by
  rw [Turn.place_after hrun, if_pos h]

theorem place_deferred (hrun : v.rp.state = .running) :
    (v.after B p).place.state.deferred = (v.result B p).1.2.deferred := by
  rw [Turn.place_after hrun]

theorem cursor_le_after (hrun : v.rp.state = .running) :
    v.rp.cursor ≤ (v.after B p).place.cursor := by
  by_cases hout : v.outcome B p = .advanced
  · rw [place_moves hrun hout]
    exact Nat.le_succ _
  · rw [(place_stays hrun hout).1]

theorem behind_turn (hrun : v.rp.state = .running) (h : ∀ w ∈ vs, w.rp.cursor ≤ v.rp.cursor) :
    ∀ w ∈ vs ++ [v], w.rp.cursor ≤ (v.after B p).place.cursor := by
  intro w hw
  rcases List.mem_append.mp hw with hw | hw
  · exact Nat.le_trans (h w hw) (cursor_le_after hrun)
  · rw [List.mem_singleton.mp hw]
    exact cursor_le_after hrun

theorem lastMark_turn {e : Turn σ τ} {mid : List (Turn σ τ)} (h : LastMark Turn.Enters vs e mid)
    (hv : ¬ v.Enters) : LastMark Turn.Enters (vs ++ [v]) e (mid ++ [v]) := by
  obtain ⟨l, hl⟩ := h.split
  refine ⟨⟨l, by rw [hl, List.append_assoc, List.cons_append]⟩, h.marked, fun w hw => ?_⟩
  rcases List.mem_append.mp hw with hw | hw
  · exact h.after w hw
  · rw [List.mem_singleton.mp hw]
    exact hv

theorem lastMark_enters (hv : v.Enters) : LastMark Turn.Enters (vs ++ [v]) v [] :=
  ⟨⟨vs, rfl⟩, hv, fun _ hw => absurd hw List.not_mem_nil⟩

theorem origin_turn (h : Accounted B p start vs v.place) (hrun : v.rp.state = .running) {d : BodyDefer}
    (hd : (v.after B p).place.state.deferred = some d) :
    ∃ e mid, LastMark Turn.Enters (vs ++ [v]) e mid ∧
      e.rp.cursor = (v.after B p).place.cursor ∧
      (v.after B p).place.step?.bind (Step.deferral e.tick.nowMs) = some d := by
  rw [place_deferred hrun] at hd
  obtain ⟨hne, hsource⟩ := Turn.defers hd
  obtain ⟨hcur, hstep⟩ := place_stays hrun hne
  rw [hcur, hstep]
  rcases hsource with hbefore | ⟨henters, hnew⟩
  · obtain ⟨e, mid, hmark, hat, horigin⟩ := h.origin d hbefore
    have hv : ¬ v.Enters := by
      rw [Turn.Enters, hbefore]
      exact Option.some_ne_none d
    exact ⟨e, mid ++ [v], lastMark_turn hmark hv, hat, horigin⟩
  · exact ⟨v, [], lastMark_enters henters, rfl, hnew⟩

theorem asleep_turn (h : Accounted B p start vs v.place) (hrun : v.rp.state = .running) {ms : UInt32}
    (hstep : (v.after B p).place.step? = some (.sleepMs ms)) :
    (v.after B p).place.state.deferred =
      (entry (v.after B p).place.cursor (vs ++ [v])).map fun e =>
        .sleep (UnixMs.saturatingAdd e.tick.nowMs ms.toNat) := by
  rw [place_deferred hrun]
  by_cases hout : v.outcome B p = .advanced
  · have hnone : (v.result B p).1.2.deferred = none := by
      cases hd : (v.result B p).1.2.deferred with
      | none => rfl
      | some d => exact absurd hout (Turn.defers hd).1
    -- no turn was on the step behind the new cursor yet
    have hahead : entry (v.after B p).place.cursor (vs ++ [v]) = none := by
      refine entry_ahead fun w hw => ?_
      rw [place_moves hrun hout]
      rcases List.mem_append.mp hw with hw | hw
      · exact Nat.lt_succ_of_le (h.behind w hw)
      · rw [List.mem_singleton.mp hw]
        exact Nat.lt_succ_self _
    rw [hnone, hahead]
    rfl
  · obtain ⟨hcur, hsame⟩ := place_stays hrun hout
    rw [hsame] at hstep
    have hasleep : v.rp.bodyState.deferred = (entry v.rp.cursor vs).map fun e =>
        .sleep (UnixMs.saturatingAdd e.tick.nowMs ms.toNat) := h.asleep ms hstep
    rw [hcur, entry_snoc, if_pos rfl]
    cases hentry : entry v.rp.cursor vs with
    | none =>
      rw [hentry] at hasleep
      rw [Turn.outcome_falling_asleep hasleep hstep]
      rfl
    | some e =>
      rw [hentry] at hasleep
      have hres := Turn.outcome_sleeping (B := B) (p := p) hasleep
      -- a turn past the end of the sleep would have advanced
      by_cases hlate : UnixMs.saturatingAdd e.tick.nowMs ms.toNat ≤ v.tick.nowMs
      · rw [if_pos hlate] at hres
        exact absurd (congrArg Prod.fst hres) hout
      · rw [if_neg hlate] at hres
        rw [hres]
        exact hasleep

theorem spent_turn (h : Accounted B p start vs v.place) (hrun : v.rp.state = .running) (k : Nat) :
    (spentAt B p k (vs ++ [v])).length ≤ 1 ∧
      ((v.after B p).place.cursor ≤ k → spentAt B p k (vs ++ [v]) = []) := by
  obtain ⟨hold, hahead⟩ := h.spent k
  rw [spentAt_snoc]
  by_cases hk : v.rp.cursor = k
  · rw [if_pos hk, hahead (Nat.le_of_eq hk), List.nil_append]
    rcases v.successes_le (B := B) (p := p) with hnil | ⟨hadv, hone⟩
    · rw [hnil]
      exact ⟨Nat.zero_le 1, fun _ => rfl⟩
    · refine ⟨Nat.le_of_eq hone, fun hle => ?_⟩
      rw [place_moves hrun hadv, hk] at hle
      exact absurd hle (Nat.not_succ_le_self k)
  · rw [if_neg hk, List.append_nil]
    exact ⟨hold, fun hle => hahead (Nat.le_trans (cursor_le_after hrun) hle)⟩

theorem accounted_turn (h : Accounted B p start vs v.place) (hrun : v.rp.state = .running) :
    Accounted B p start (vs ++ [v]) (v.after B p).place where
  order := by
    have hone : walk v.rp.cursor [v.verdict B p] = some (v.after B p).place.cursor := by
      rw [Turn.verdict, walk, if_pos rfl, walk, Turn.place_after hrun]
    rw [List.map_append, walk_append h.order]
    exact hone
  behind := behind_turn hrun h.behind
  origin := fun _ hd => origin_turn h hrun hd
  asleep := fun _ hstep => asleep_turn h hrun hstep
  woken := by
    intro l w r heq
    rcases append_cons_concat heq with ⟨-, rfl, rfl⟩ | ⟨r', -, hvs⟩
    · exact woken_of_accounted h
    · exact h.woken l w r' hvs
  spent := spent_turn h hrun

theorem accounted_leads {c c' : BodyPlace} {ws : List (Turn σ τ)} (h : Accounted B p start vs c)
    (hleads : Leads B p c ws c') : Accounted B p start (vs ++ ws) c' := by
  induction ws generalizing vs c with
  | nil =>
    obtain rfl : c = c' := hleads
    rwa [List.append_nil]
  | cons v ws ih =>
    obtain ⟨hrun, rfl, hrest⟩ := hleads
    have hturn := ih (accounted_turn h hrun) hrest
    rwa [List.append_assoc, List.singleton_append] at hturn

end Accounted

namespace Scheduler

variable {σ τ : Type}

/-- The body of a program was executed in order by the turns of a run that has recorded `ms` and
left the program as `rp`. -/
structure InOrder (B : Backends σ τ) (p : ProgramId) (start : Nat) (ms : List (Moment ProgramMap))
    (vs : List (Turn σ τ)) (rp : RunningProgram) : Prop where
  recorded : (ms.filterMap fun m => m.obs.verdictOn p) = vs.map (Turn.verdict B p)
  cursor : walk start (ms.filterMap fun m => m.obs.verdictOn p) = some rp.cursor
  calls : ∀ k, (spentAt B p k vs).length ≤ 1
  sleeps : ∀ l w r, vs = l ++ w :: r → Woken B p l w
  deferral : ∀ d, rp.bodyState.deferred = some d → ∃ e mid, LastMark Turn.Enters vs e mid ∧
    e.rp.cursor = rp.cursor ∧ ∃ step, rp.program.body[rp.cursor]? = some step ∧
      step.deferral e.tick.nowMs = some d

/-- From the insertion of a program on, and as long as it is not inserted anew, its body is
executed in order, whatever else the scheduler is told and shown. -/
theorem body_in_order (B : Backends σ τ) (p : ProgramId) (s : Scheduler σ τ) (i : Input)
    (is : List Input) (hi : i.inserts p) (his : ∀ j ∈ is, ¬ j.inserts p) :
    ∃ rp rp', (step B s i).1.programs.lookup p = some rp ∧
      (run (step B) (step B s i).1 is).1.programs.lookup p = some rp' ∧
      InOrder B p rp.cursor (run (step B) (step B s i).1 is).2 (turns B p (step B s i).1 is)
        rp' := by
  obtain ⟨rp, hrp, hstate, hun⟩ := inserted_place (B := B) (s := s) hi
  obtain ⟨rp', hrp', hleads, hverdicts⟩ := run_leads his hrp hun
  have hacc := accounted_leads (accounted_start (B := B) (p := p) (c := rp.place) hstate) hleads
  rw [List.nil_append] at hacc
  refine ⟨rp, rp', hrp, hrp', hverdicts, ?_, fun k => (hacc.spent k).1, hacc.woken, ?_⟩
  · rw [hverdicts]
    exact hacc.order
  · intro d hd
    obtain ⟨e, mid, hmark, hcur, horigin⟩ := hacc.origin d hd
    obtain ⟨step, hstep, hdefer⟩ := Option.bind_eq_some_iff.mp horigin
    exact ⟨e, mid, hmark, hcur, step, hstep, hdefer⟩

def sleeper : Input :=
  .command (.submitValidated ⟨1⟩
    { Program.blank "demo" with body := [.sleepMs 5, .type "x"] } ∅) 0

def wokenByHand : List Input :=
  [.tick (.plain .dot 10), .command (.cancel ⟨1⟩ "user") 11, .command (.start ⟨1⟩) 12,
    .tick (.plain .dot 20), .tick (.plain .dot 21)]

theorem body_in_order_woken :
    ∃ rp rp', (step (Backends.constant (.ok ⟨true, none, 0⟩)) (new ⟨(), ()⟩)
        sleeper).1.programs.lookup ⟨1⟩ = some rp ∧
      (run (step (Backends.constant (.ok ⟨true, none, 0⟩)))
        (step (Backends.constant (.ok ⟨true, none, 0⟩)) (new ⟨(), ()⟩) sleeper).1
        wokenByHand).1.programs.lookup ⟨1⟩ = some rp' ∧
      InOrder (Backends.constant (.ok ⟨true, none, 0⟩)) ⟨1⟩ rp.cursor
        (run (step (Backends.constant (.ok ⟨true, none, 0⟩)))
          (step (Backends.constant (.ok ⟨true, none, 0⟩)) (new ⟨(), ()⟩) sleeper).1
          wokenByHand).2
        (turns (Backends.constant (.ok ⟨true, none, 0⟩)) ⟨1⟩
          (step (Backends.constant (.ok ⟨true, none, 0⟩)) (new ⟨(), ()⟩) sleeper).1
          wokenByHand) rp' :=
  body_in_order (Backends.constant (.ok ⟨true, none, 0⟩)) ⟨1⟩ (new ⟨(), ()⟩) sleeper wokenByHand
    rfl (by decide)

end Scheduler

end Vcli

import Vcli.Runtime.BodyOrder

/-! Waiting for a predicate: the polls of a `wait_for` step, its deadline, and what becomes of it
when the deadline passes. -/

namespace Vcli

open Transducer History

namespace Turn

variable {σ τ : Type} (B : Backends σ τ) (p : ProgramId) (v e w : Turn σ τ) (name : String)

def poll : Except PerceptionError PredicateResult :=
  (B.evaluateNamed name v.rp.program.predicates v.tick.frame v.tick.nowMs v.rp.assets p
    v.env.perception).1

def Sees : Prop := ∃ r, v.poll B p name = .ok r ∧ r.truthy = true

def Misses : Prop := ∃ r, v.poll B p name = .ok r ∧ r.truthy = false

/-- The deadline of a wait that `e` has entered has passed at `w`. -/
def Late (timeoutMs : UInt32) : Prop :=
  UnixMs.saturatingAdd e.tick.nowMs timeoutMs.toNat ≤ w.tick.nowMs

def timedOut : OnTimeout → StepOutcome
  | .continue_ | .retry => .advanced
  | .fail => .failed (.waitForTimeout name 0)

variable {B p v}

theorem outcome_polling {deadlineMs : UnixMs} {onTimeout : OnTimeout}
    (h : v.rp.bodyState.deferred = some (.waitFor name deadlineMs onTimeout)) :
    v.outcome B p = match v.poll B p name with
      | .error err => .failed (.perception err.toString)
      | .ok r => if r.truthy then .advanced
        else if deadlineMs ≤ v.tick.nowMs then
          timedOut name onTimeout
        else .stalled := by
  rw [outcome, result_deferred h]
  unfold stepDeferred
  dsimp only
  rw [Interaction.bind_apply]
  have hq : (evaluateNamed B v.tick (v.rp.caller p) .body name v.env).1 = v.poll B p name := rfl
  dsimp only
  rw [hq]
  cases v.poll B p name with
  | error err => rfl
  | ok r =>
    dsimp only
    split_ifs
    · rfl
    · cases onTimeout <;> rfl
    · rfl

theorem failed_after {err : RuntimeError} (hrun : v.rp.state = .running)
    (h : v.outcome B p = .failed err) : (v.after B p).state = .failed := by
  have hout : (stepOnce B v.tick (v.rp.caller p) v.rp.program.body v.rp.cursor v.rp.bodyState
      v.env).1.1 = .failed err := h
  rw [after, bodyProgram, if_pos hrun]
  dsimp only
  rw [hout]

end Turn

section Law
variable {σ τ : Type} (B : Backends σ τ) (p : ProgramId)

/-- What a turn makes of the wait it finds the program at, the turns before it given: `e` is the
turn that entered the wait, and `mid` are the polls since. -/
structure Waits (l : List (Turn σ τ)) (w : Turn σ τ) : Prop where
  leaves : ∀ name timeoutMs onTimeout, w.place.step? = some (.waitFor name timeoutMs onTimeout) →
    w.rp.cursor < (w.after B p).cursor → ∃ e mid, LastMark Turn.Enters l e mid ∧
      e.rp.cursor = w.rp.cursor ∧ (w.Sees B p name ∨
        e.Late w timeoutMs ∧ onTimeout = .continue_ ∨
        onTimeout = .retry ∧ ∃ v ∈ mid, e.Late v timeoutMs)
  fails : ∀ name timeoutMs e mid, w.place.step? = some (.waitFor name timeoutMs .fail) →
    ¬ w.Enters → LastMark Turn.Enters l e mid → e.Late w timeoutMs → w.Misses B p name →
    w.outcome B p = .failed (.waitForTimeout name 0) ∧ (w.after B p).state = .failed
  counts : ∀ name timeoutMs onTimeout, w.place.step? = some (.waitFor name timeoutMs onTimeout) →
    ¬ w.Enters → w.Sees B p name → (w.after B p).cursor = w.rp.cursor + 1

def Hasty (l : List (Turn σ τ)) (w : Turn σ τ) : Prop :=
  ∃ name timeoutMs e mid, w.place.step? = some (.waitFor name timeoutMs .retry) ∧ ¬ w.Enters ∧
    LastMark Turn.Enters l e mid ∧ e.Late w timeoutMs ∧ w.Misses B p name ∧
    ∀ v ∈ mid, ¬ e.Late v timeoutMs

variable {B p} {start : Nat} {l : List (Turn σ τ)} {w : Turn σ τ} {name : String}
  {timeoutMs : UInt32} {onTimeout : OnTimeout}

theorem entering_stays (hrun : w.rp.state = .running)
    (hstep : w.place.step? = some (.waitFor name timeoutMs onTimeout)) (h : w.Enters) :
    (w.after B p).cursor = w.rp.cursor := by
  have hstalled : w.outcome B p = .stalled := by
    rw [Turn.outcome, Turn.result_fresh h hstep]
    rfl
  have hne : w.outcome B p ≠ .advanced := by
    rw [hstalled]
    exact StepOutcome.noConfusion
  exact (place_stays hrun hne).1

theorem polls (h : Accounted B p start l w.place)
    (hstep : w.place.step? = some (.waitFor name timeoutMs onTimeout)) (hpoll : ¬ w.Enters) :
    ∃ e mid, LastMark Turn.Enters l e mid ∧ e.rp.cursor = w.rp.cursor ∧
      w.rp.bodyState.deferred = some (.waitFor name
        (UnixMs.saturatingAdd e.tick.nowMs timeoutMs.toNat) onTimeout) := by
  obtain ⟨d, hd⟩ := Option.ne_none_iff_exists'.mp hpoll
  obtain ⟨e, mid, hmark, hcur, horigin⟩ := h.origin d hd
  rw [hstep] at horigin
  exact ⟨e, mid, hmark, hcur, hd.trans horigin.symm⟩

theorem polls_sees {deadlineMs : UnixMs}
    (hd : w.rp.bodyState.deferred = some (.waitFor name deadlineMs onTimeout))
    (h : w.Sees B p name) : w.outcome B p = .advanced := by
  obtain ⟨r, hr, htruthy⟩ := h
  rw [Turn.outcome_polling name hd, hr]
  exact if_pos htruthy

theorem polls_misses {deadlineMs : UnixMs}
    (hd : w.rp.bodyState.deferred = some (.waitFor name deadlineMs onTimeout))
    (hlate : deadlineMs ≤ w.tick.nowMs) (h : w.Misses B p name) :
    w.outcome B p = Turn.timedOut name onTimeout := by
  obtain ⟨r, hr, hfalsy⟩ := h
  rw [Turn.outcome_polling name hd, hr]
  dsimp only
  rw [if_neg (by rw [hfalsy]; exact Bool.false_ne_true), if_pos hlate]

theorem polls_leaves {deadlineMs : UnixMs}
    (hd : w.rp.bodyState.deferred = some (.waitFor name deadlineMs onTimeout))
    (h : w.outcome B p = .advanced) :
    w.Sees B p name ∨
      deadlineMs ≤ w.tick.nowMs ∧ w.Misses B p name ∧ onTimeout ≠ .fail := by
  rw [Turn.outcome_polling name hd] at h
  cases hpoll : w.poll B p name with
  | error err =>
    rw [hpoll] at h
    exact nomatch h
  | ok r =>
    rw [hpoll] at h
    dsimp only at h
    by_cases htruthy : r.truthy = true
    · exact .inl ⟨r, hpoll, htruthy⟩
    · rw [if_neg htruthy] at h
      by_cases hlate : deadlineMs ≤ w.tick.nowMs
      · refine .inr ⟨hlate, ⟨r, hpoll, Bool.of_not_eq_true htruthy⟩, ?_⟩
        rintro rfl
        rw [if_pos hlate] at h
        exact nomatch h
      · rw [if_neg hlate] at h
        exact nomatch h

/-- A turn makes of a wait what it should unless it retries none. -/
theorem waits_iff (h : Accounted B p start l w.place) (hrun : w.rp.state = .running) :
    Waits B p l w ↔ ¬ Hasty B p l w := by
  constructor
  · rintro hwaits ⟨name, timeoutMs, e, mid, hstep, hpoll, hmark, hlate, hmiss, hfirst⟩
    obtain ⟨e', mid', hmark', -, hd⟩ := polls h hstep hpoll
    obtain ⟨rfl, rfl⟩ := hmark'.unique hmark
    have hout := polls_misses hd hlate hmiss
    -- a poll that gives up leaves the step, and leaving is what `Waits` restricts
    have hmoved : w.rp.cursor < (w.after B p).cursor := by
      have hcur : (w.after B p).cursor = w.rp.cursor + 1 := place_moves hrun hout
      rw [hcur]
      exact Nat.lt_succ_self _
    obtain ⟨e'', mid'', hmark'', -, hcase⟩ := hwaits.leaves name timeoutMs .retry hstep hmoved
    obtain ⟨rfl, rfl⟩ := hmark'.unique hmark''
    rcases hcase with ⟨r, hr, htruthy⟩ | ⟨-, hretry⟩ | ⟨-, v, hv, hvlate⟩
    · obtain ⟨r', hr', hfalsy⟩ := hmiss
      obtain rfl := Except.ok.inj (hr.symm.trans hr')
      exact Bool.false_ne_true (hfalsy.symm.trans htruthy)
    · exact nomatch hretry
    · exact hfirst v hv hvlate
  · intro hnot
    refine ⟨?_, ?_, ?_⟩
    · intro name timeoutMs onTimeout hstep hmoved
      have hpoll : ¬ w.Enters := by
        intro henters
        rw [entering_stays hrun hstep henters] at hmoved
        exact Nat.lt_irrefl _ hmoved
      -- the cursor moves only when the turn advances
      have hout : w.outcome B p = .advanced := by
        by_contra hne
        have hcur : (w.after B p).cursor = w.rp.cursor := (place_stays hrun hne).1
        rw [hcur] at hmoved
        exact Nat.lt_irrefl _ hmoved
      obtain ⟨e, mid, hmark, hcur, hd⟩ := polls h hstep hpoll
      refine ⟨e, mid, hmark, hcur, ?_⟩
      rcases polls_leaves hd hout with hsees | ⟨hlate, hmiss, hne⟩
      · exact .inl hsees
      · right
        cases onTimeout with
        | fail => exact absurd rfl hne
        | continue_ => exact .inl ⟨hlate, rfl⟩
        | retry =>
          right
          by_contra hnever
          refine hnot ⟨name, timeoutMs, e, mid, hstep, hpoll, hmark, hlate, hmiss, ?_⟩
          exact fun v hv hvlate => hnever ⟨rfl, v, hv, hvlate⟩
    · intro name timeoutMs e mid hstep hpoll hmark hlate hmiss
      obtain ⟨e', mid', hmark', -, hd⟩ := polls h hstep hpoll
      obtain ⟨rfl, rfl⟩ := hmark'.unique hmark
      have hout : w.outcome B p = .failed (.waitForTimeout name 0) := polls_misses hd hlate hmiss
      exact ⟨hout, Turn.failed_after hrun hout⟩
    · intro name timeoutMs onTimeout hstep hpoll hsees
      obtain ⟨e, mid, -, -, hd⟩ := polls h hstep hpoll
      exact place_moves hrun (polls_sees hd hsees)

end Law

namespace Scheduler

variable {σ τ : Type}

/-- From the insertion of a program on, and as long as it is not inserted anew, every turn makes of
a wait what it should exactly when no wait that is to be retried is found in vain at the first
poll after its deadline. -/
theorem waits_in_run_iff (B : Backends σ τ) (p : ProgramId) (s : Scheduler σ τ) (i : Input)
    (is : List Input) (hi : i.inserts p) (his : ∀ j ∈ is, ¬ j.inserts p) :
    (∀ l w r, turns B p (step B s i).1 is = l ++ w :: r → Waits B p l w) ↔
      ∀ l w r, turns B p (step B s i).1 is = l ++ w :: r → ¬ Hasty B p l w := by
  obtain ⟨rp, hrp, hstate, hun⟩ := inserted_place (B := B) (s := s) hi
  obtain ⟨rp', -, hleads, -⟩ := run_leads his hrp hun
  have hiff : ∀ l w r, turns B p (step B s i).1 is = l ++ w :: r →
      (Waits B p l w ↔ ¬ Hasty B p l w) := by
    intro l w r heq
    rw [heq] at hleads
    obtain ⟨mid, hbefore, hrun, rfl, -⟩ := leads_split hleads
    have hacc := accounted_leads (accounted_start (B := B) (p := p) (c := rp.place) hstate) hbefore
    rw [List.nil_append] at hacc
    exact waits_iff hacc hrun
  constructor
  · exact fun h l w r heq => (hiff l w r heq).mp (h l w r heq)
  · exact fun h l w r heq => (hiff l w r heq).mpr (h l w r heq)

def retrier : Input :=
  .command (.submitValidated ⟨1⟩ { Program.blank "demo" with
    predicates := (∅ : Predicates).insert "x" (.colorAt ⟨0, 0⟩ ⟨0, 0, 0⟩ 0)
    body := [.waitFor "x" 5 .retry] } ∅) 0

def inVain : List (Turn Unit Unit) :=
  turns (Backends.constant (.ok ⟨false, none, 0⟩)) ⟨1⟩
    (step (Backends.constant (.ok ⟨false, none, 0⟩)) (new ⟨(), ()⟩) retrier).1
    [.tick (.plain .dot 10), .tick (.plain .dot 20)]

theorem waits_in_run_iff_retrier :
    (∀ l w r, inVain = l ++ w :: r → Waits (Backends.constant (.ok ⟨false, none, 0⟩)) ⟨1⟩ l w) ↔
      ∀ l w r, inVain = l ++ w :: r →
        ¬ Hasty (Backends.constant (.ok ⟨false, none, 0⟩)) ⟨1⟩ l w :=
  waits_in_run_iff (Backends.constant (.ok ⟨false, none, 0⟩)) ⟨1⟩ (new ⟨(), ()⟩) retrier
    [.tick (.plain .dot 10), .tick (.plain .dot 20)] rfl (by decide)

/-- The wait is over at once, without another tick. -/
theorem retry_not_retried : ¬ ∀ l w r, inVain = l ++ w :: r →
    Waits (Backends.constant (.ok ⟨false, none, 0⟩)) ⟨1⟩ l w := by
  intro h
  have hlen : 1 < inVain.length := by decide +kernel
  have hmoved : inVain[1].rp.cursor < (inVain[1].after
      (Backends.constant (.ok ⟨false, none, 0⟩)) ⟨1⟩).cursor := by decide +kernel +revert
  have hsplit : inVain = inVain.take 1 ++ inVain[1] :: inVain.drop 2 := by
    rw [List.getElem_cons_drop, List.take_append_drop]
  have hleaves := (h _ _ _ hsplit).leaves "x" 5 .retry rfl hmoved
  obtain ⟨e, mid, hmark, -, hcase⟩ := hleaves
  have hone : inVain.take 1 = [] ++ [inVain[0]] := by
    rw [List.take_one, List.head?_eq_getElem?, List.getElem?_eq_getElem (Nat.lt_of_succ_lt hlen)]
    rfl
  rw [hone] at hmark
  have hentered : inVain[0].Enters := rfl
  obtain ⟨-, rfl⟩ := lastMark_snoc hentered hmark
  rcases hcase with ⟨r, hr, htruthy⟩ | ⟨-, hretry⟩ | ⟨-, v, hv, -⟩
  · obtain rfl := Except.ok.inj hr
    exact Bool.false_ne_true htruthy
  · exact nomatch hretry
  · exact absurd hv List.not_mem_nil

end Scheduler

end Vcli

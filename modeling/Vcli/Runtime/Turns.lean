import Vcli.Runtime.Progress

/-! The turns of the body executor. A program has one at most in every tick, and between its
turns nothing moves it through its body. -/

namespace Vcli

open Transducer

structure BodyPlace where
  program : Program
  cursor : Nat
  state : BodyState

def RunningProgram.place (rp : RunningProgram) : BodyPlace :=
  ⟨rp.program, rp.cursor, rp.bodyState⟩

def BodyPlace.step? (c : BodyPlace) : Option Step := c.program.body[c.cursor]?

def Obs.success : Obs → Option InputCall
  | called _ call (.ok ()) => some call
  | _ => none

structure Turn (σ τ : Type) where
  tick : Tick
  rp : RunningProgram
  env : Env σ τ

namespace Turn

variable {σ τ : Type} (B : Backends σ τ) (p : ProgramId) (v : Turn σ τ)

def result : (StepOutcome × BodyState) × Env σ τ × List Obs :=
  stepOnce B v.tick (v.rp.caller p) v.rp.program.body v.rp.cursor v.rp.bodyState v.env

def outcome : StepOutcome := (v.result B p).1.1

def successes : List InputCall := (v.result B p).2.2.filterMap Obs.success

def verdict : Nat × StepOutcome := (v.rp.cursor, v.outcome B p)

def after : RunningProgram := (bodyProgram B v.tick p v.rp v.env).1

def place : BodyPlace := v.rp.place

end Turn

section Turns
variable {σ τ : Type} (B : Backends σ τ) (p : ProgramId)

def Leads : BodyPlace → List (Turn σ τ) → BodyPlace → Prop
  | c, [], c' => c = c'
  | c, v :: vs, c' => v.rp.state = .running ∧ v.place = c ∧ Leads (v.after B p).place vs c'

variable {B p}

theorem Leads.append {c c' c'' : BodyPlace} {vs ws : List (Turn σ τ)} (h : Leads B p c vs c')
    (h' : Leads B p c' ws c'') : Leads B p c (vs ++ ws) c'' := by
  induction vs generalizing c with
  | nil =>
    cases (h : c = c')
    exact h'
  | cons v vs ih =>
    obtain ⟨hrun, hplace, hrest⟩ := h
    exact ⟨hrun, hplace, ih hrest⟩

theorem leads_split {c c' : BodyPlace} {vs ws : List (Turn σ τ)} (h : Leads B p c (vs ++ ws) c') :
    ∃ mid, Leads B p c vs mid ∧ Leads B p mid ws c' := by
  induction vs generalizing c with
  | nil => exact ⟨c, rfl, h⟩
  | cons v vs ih =>
    obtain ⟨hrun, hplace, hrest⟩ := h
    obtain ⟨mid, hvs, hws⟩ := ih hrest
    exact ⟨mid, ⟨hrun, hplace, hvs⟩, hws⟩

end Turns

namespace Scheduler

variable {σ τ : Type}

section Tick
variable (B : Backends σ τ) (tk : Tick) (order : List ProgramId) (s : Scheduler σ τ)
  (p : ProgramId)

def turnAt (failed : List ProgramId) (x : Scheduler σ τ × ProgramId) : Option (Turn σ τ) :=
  if x.2 = p ∧ x.2 ∉ failed then
    match x.1.programs.lookup p with
    | some rp => if rp.state = .running then some ⟨tk, rp, x.1.env⟩ else none
    | none => none
  else none

def turnsInTick : List (Turn σ τ) :=
  (trail (bodyOne B tk (dispatched B tk order s).1.failed) (updated B tk order s)
    (runningIds B tk order s)).filterMap (turnAt tk p (dispatched B tk order s).1.failed)

end Tick

section Run
variable (B : Backends σ τ) (p : ProgramId)

def turnsInStep (s : Scheduler σ τ) : Input → List (Turn σ τ)
  | .command _ _ => []
  | .tick t =>
    match t.capture with
    | none => []
    | some frame => turnsInTick B ⟨frame, t.nowMs⟩ (t.arrange s.programs.keys).1 s p

def turns (s : Scheduler σ τ) (is : List Input) : List (Turn σ τ) :=
  (trail (step B) s is).flatMap fun x => turnsInStep B p x.1 x.2

end Run

section Tick
variable {B : Backends σ τ} {tk : Tick} {order : List ProgramId} {s : Scheduler σ τ}
  {p : ProgramId} {rp rp' : RunningProgram}

theorem turnAt_ne (failed : List ProgramId) (x : Scheduler σ τ × ProgramId) (h : x.2 ≠ p) :
    turnAt tk p failed x = none := if_neg fun hand => h hand.1

theorem triggerPart_place (B : Backends σ τ) (tk : Tick) (p : ProgramId) (env : Env σ τ)
    (hun : rp.state = .waiting → rp.bodyCursor = none) :
    (triggerPart B tk p env rp).1.place = rp.place := by
  rcases triggerPart_cases B tk p rp env with h | ⟨hw, h | h⟩
  · rw [h]
  · rw [h, RunningProgram.place, RunningProgram.place, RunningProgram.cursor,
      RunningProgram.cursor, hun hw]
    rfl
  · rw [h]
    rfl

structure Served (B : Backends σ τ) (p : ProgramId) (rp : RunningProgram) (vs : List (Turn σ τ))
    (ms : List (Moment ProgramMap)) (rp' : RunningProgram) : Prop where
  leads : Leads B p rp.place vs rp'.place
  verdicts : (ms.filterMap fun m => m.obs.verdictOn p) = vs.map (Turn.verdict B p)
  last : ∀ v ∈ vs, rp' = v.after B p

theorem verdicts_of_trace {ms : List (Moment ProgramMap)} {os : List (RunningProgram × Obs)}
    {nowMs : UnixMs} (htrace : traceOf p ms = moments nowMs os) :
    (ms.filterMap fun m => m.obs.verdictOn p) = Vcli.verdicts p os := by
  rw [verdicts_traceOf, htrace, verdicts_moments]

theorem stepped_serves (hn : order.Nodup) (hmem : p ∈ runningIds B tk order s)
    (hrp : (updated B tk order s).programs.lookup p = some rp)
    (h' : (stepped B tk order s).1.programs.lookup p = some rp') :
    Served B p rp (turnsInTick B tk order s p) (stepped B tk order s).2 rp' := by
  have hsole : Keyed.Sole (fun id => id) p p (runningIds B tk order s) :=
    Keyed.sole_of_nodup (by rw [List.map_id']; exact hn.filter _) hmem
  obtain ⟨t, ht, hturns, hv, ho⟩ := trail_sole
    (f := bodyOne B tk (dispatched B tk order s).1.failed)
    (v := fun s : Scheduler σ τ => s.programs.lookup p) (m := Moment.mine p)
    (g := turnAt tk p (dispatched B tk order s).1.failed) hsole
    (fun _ _ h => bodyOne_lookup_ne h) (fun _ _ h => bodyOne_filter_ne h) (turnAt_ne _)
    (updated B tk order s)
  have hrpt : t.programs.lookup p = some rp := ht.trans hrp
  have hlast := hv.symm.trans h'
  have hsilent : ∀ {ms : List (Moment ProgramMap)}, ms.filter (Moment.mine p) = [] →
      (ms.filterMap fun m => m.obs.verdictOn p) = [] := fun h => by
    rw [verdicts_traceOf, traceOf_eq_nil h]
    rfl
  rw [turnsInTick, hturns]
  -- the body stage passes over the programs that failed at their dispatch
  by_cases hfail : p ∈ (dispatched B tk order s).1.failed
  · rw [bodyOne, if_pos hfail] at hlast ho
    rw [hrpt] at hlast
    rw [turnAt, if_neg fun hand => hand.2 hfail, ← Option.some.inj hlast]
    exact ⟨rfl, hsilent ho, fun v hv => absurd hv List.not_mem_nil⟩
  · rw [bodyOne, if_neg hfail] at hlast ho
    rw [lift_lookup_self _ hrpt] at hlast
    rw [turnAt, if_pos ⟨rfl, hfail⟩, ← Option.some.inj hlast, hrpt]
    have htrace := (traceOf_congr ho).trans (lift_traceOf_self tk.nowMs owned_bodyProgram hrpt)
    have hverdicts := verdicts_of_trace htrace
    dsimp only
    by_cases hrun : rp.state = .running
    · rw [if_pos hrun]
      refine ⟨⟨hrun, rfl, rfl⟩, ?_, fun v hv => ?_⟩
      · exact hverdicts.trans (verdicts_bodyProgram B tk p rp t.env hrun)
      · rw [List.mem_singleton.mp hv]
        rfl
    · rw [if_neg hrun]
      rw [bodyProgram_inert _ _ _ hrun] at hverdicts ⊢
      exact ⟨rfl, hverdicts, fun v hv => absurd hv List.not_mem_nil⟩

theorem capturedTick_serves (hn : order.Nodup) (hp : p ∈ order)
    (h : s.programs.lookup p = some rp) (hun : rp.state = .waiting → rp.bodyCursor = none)
    (h' : (capturedTick B tk order s).1.programs.lookup p = some rp') :
    Served B p rp (turnsInTick B tk order s p) (capturedTick B tk order s).2 rp' := by
  obtain ⟨envT, hT, htT⟩ := triggered_project B tk hn hp h
  have hplace := triggerPart_place B tk p envT hun
  have hvT := (verdicts_of_trace htT).trans (verdicts_triggerPart B tk p rp envT)
  generalize (triggerPart B tk p envT rp).1 = rpT at hT hplace
  have hend : (stepped B tk order s).1.programs.lookup p = some rp' := h'
  by_cases hrun : rpT.state = .running
  -- a running program is told in the order of the stages, each of which keeps its place
  · have hmem : p ∈ runningIds B tk order s :=
      List.mem_filter.mpr ⟨hp, (stateIs_iff hT).mpr hrun⟩
    obtain ⟨envE, hsole⟩ := evaluated_sole hn hmem hT
    have hE := traceOf_evalMoments tk (triggered B tk order s).1.programs evaluated_owned
      hsole rfl
    have hvE := (verdicts_of_trace hE).trans
      (verdicts_map p rpT (emits_evalWatches B tk p rpT _ envE))
    obtain ⟨envF, hshow, htF⟩ := dispatched_project hsole rfl
      ((congrArg (fun m => AList.lookup p m) evaluated_programs).trans hT)
    have hF := (traceOf_append p (fired B tk order s).2 (dispatched B tk order s).2).trans htF
    have hvF := (verdicts_of_trace hF).trans (verdicts_firePart B tk p rpT envF _ _)
    have hset := updated_project hsole rfl hshow
    have hbody := settled_body B tk p rpT envF (verdict B tk order s p)
      (evalProgram B tk p rpT envE).1
    generalize settlePart tk (evalProgram B tk p rpT envE).1 _ _ = rpS at hset hbody
    have hsame : rpS.place = rpT.place := by
      obtain ⟨hprog, hcur, hstate⟩ := hbody
      rw [RunningProgram.place, RunningProgram.place, RunningProgram.cursor,
        RunningProgram.cursor, hprog, hcur, hstate]
    have hserved := stepped_serves hn hmem hset hend
    refine ⟨by rw [← hplace, ← hsame]; exact hserved.leads, ?_, hserved.last⟩
    have hfire := hvF
    rw [List.filterMap_append] at hfire
    rw [capturedTick, List.filterMap_append, hvT, List.filterMap_append, hvE,
      List.filterMap_append, List.filterMap_append, ← List.append_assoc _ _ (List.filterMap _ _),
      hfire]
    exact hserved.verdicts
  -- a program that does not run after the trigger takes no turn in this tick
  · have hmem : p ∉ runningIds B tk order s :=
      fun hm => hrun ((stateIs_iff hT).mp (List.mem_filter.mp hm).2)
    have habs : Keyed.Absent (fun id => id) p (runningIds B tk order s) :=
      fun q hq h => hmem (h ▸ hq)
    obtain ⟨hquiet, htrace⟩ := quiet_project hmem
    have hsame := Option.some.inj (hT.symm.trans (hquiet.symm.trans h'))
    have hvq : ((capturedTick B tk order s).2.filterMap fun m => m.obs.verdictOn p) = [] := by
      rw [verdicts_traceOf, htrace, ← verdicts_traceOf, hvT]
    rw [turnsInTick, trail_absent habs (turnAt_ne _), ← hsame]
    exact ⟨hplace.symm, hvq, fun v hv => absurd hv List.not_mem_nil⟩

end Tick

section Run
variable {B : Backends σ τ} {s : Scheduler σ τ} {p : ProgramId} {rp rp' : RunningProgram}

theorem step_serves {i : Input} (hi : ¬ i.inserts p) (h : s.programs.lookup p = some rp)
    (hun : rp.state = .waiting → rp.bodyCursor = none)
    (h' : (step B s i).1.programs.lookup p = some rp') :
    Served B p rp (turnsInStep B p s i) (step B s i).2 rp' := by
  cases i with
  | command c nowMs =>
    obtain ⟨a, ha, hlook, htrace⟩ := step_project (B := B) (s := s) (p := p) (.command c nowMs)
    rw [h] at hlook htrace
    rw [localStep, ha] at hlook htrace
    dsimp only at hlook htrace
    -- no command but an insertion touches the place of a program, and none carries a step out
    refine ⟨?_, ?_, fun v hv => absurd hv List.not_mem_nil⟩
    · show rp.place = rp'.place
      rw [h'] at hlook
      by_cases hc : c.programId = some p
      · rw [if_pos hc] at hlook
        cases c with
        | submitValidated | resumeRunning => exact absurd (Option.some.inj hc) hi
        | shutdown => rw [Option.some.inj hlook]
        | cancel | start =>
          rw [Option.some.inj hlook]
          exact rfl
      · rw [if_neg hc] at hlook
        rw [Option.some.inj hlook]
    · rw [verdicts_traceOf, htrace]
      by_cases hc : c.programId = some p
      · rw [if_pos hc]
        cases c with
        | submitValidated | resumeRunning => exact absurd (Option.some.inj hc) hi
        | shutdown | cancel | start => exact rfl
      · rw [if_neg hc]
        exact rfl
  | tick t =>
    cases hc : t.capture with
    | none =>
      simp only [step, tickOnce, hc] at h' ⊢
      simp only [turnsInStep, hc]
      refine ⟨congrArg RunningProgram.place (Option.some.inj (h.symm.trans h')), rfl, ?_⟩
      exact fun v hv => absurd hv List.not_mem_nil
    | some frame =>
      have hperm := (t.arrange s.programs.keys).2
      have hmem : p ∈ (t.arrange s.programs.keys).1 :=
        hperm.mem_iff.mpr (AList.mem_keys.mpr (AList.lookup_isSome.mp (by rw [h]; rfl)))
      simp only [step, tickOnce, hc] at h' ⊢
      simp only [turnsInStep, hc]
      exact capturedTick_serves (hperm.nodup_iff.mpr s.programs.keys_nodup) hmem h hun h'

/-- Over a run that does not put the program into the map anew, its turns lead it through its
body and are all that is recorded of it there. -/
theorem run_leads {is : List Input} (his : ∀ i ∈ is, ¬ i.inserts p)
    (h : s.programs.lookup p = some rp) (hun : rp.state = .waiting → rp.bodyCursor = none) :
    ∃ rp', (run (step B) s is).1.programs.lookup p = some rp' ∧
      Leads B p rp.place (turns B p s is) rp'.place ∧
      ((run (step B) s is).2.filterMap fun m => m.obs.verdictOn p) =
        (turns B p s is).map (Turn.verdict B p) := by
  induction is generalizing s rp with
  | nil => exact ⟨rp, h, rfl, rfl⟩
  | cons i is ih =>
    obtain ⟨rp₁, hrp₁⟩ := step_present (B := B) i h
    have hhead := step_serves (his i List.mem_cons_self) h hun hrp₁
    have hun₁ : rp₁.state = .waiting → rp₁.bodyCursor = none := by
      obtain ⟨a, -, hlook, -⟩ := step_project (B := B) (s := s) (p := p) i
      refine fun hw => localStep_unbegun (fun q hq => ?_) (hlook.symm.trans hrp₁) hw
      rw [← Option.some.inj (h.symm.trans hq)]
      exact hun
    obtain ⟨rp', hrp', hrest, hverdicts⟩ :=
      ih (fun j hj => his j (List.mem_cons_of_mem _ hj)) hrp₁ hun₁
    refine ⟨rp', hrp', hhead.leads.append hrest, ?_⟩
    rw [run_cons, List.filterMap_append, hhead.verdicts, hverdicts, ← List.map_append]
    rfl

theorem inserted_place {i : Input} (hi : i.inserts p) :
    ∃ rp, (step B s i).1.programs.lookup p = some rp ∧ rp.bodyState = {} ∧
      (rp.state = .waiting → rp.bodyCursor = none) := by
  cases i with
  | tick t => exact hi.elim
  | command c nowMs =>
    cases c with
    | shutdown | cancel | start => exact hi.elim
    | submitValidated q program assets | resumeRunning q fromStep program assets =>
      obtain rfl : q = p := hi
      exact ⟨_, AList.lookup_insert _, rfl, fun h => by first | rfl | exact nomatch h⟩

end Run

end Scheduler

end Vcli

import Mathlib.Order.Filter.AtTopBot.Basic
import Mathlib.Order.Filter.Finite
import Vcli.Dsl.Queries
import Vcli.Runtime.Progress
import Vcli.Runtime.WatchTick

/-! A run of the scheduler asks perception for nothing but what is listed for the programs it was
given: it does not tell apart backends that answer all of that alike. -/

namespace Vcli.Dsl

open Fallible Perception Scheduler Transducer

variable {σ τ : Type}

/-- Backends that answer alike whatever is asked for the programs of `S`. -/
structure Indistinct (B B' : Backends σ τ) (S : Program → Prop) : Prop where
  clear : B.clear = B'.clear
  alike : ∀ p, S p → Alike B B' p

/-- The programs of a scheduler are those of `held`, each waiting for something it names. -/
def Holds (held : ProgramId → Option Program) (s : Scheduler σ τ) : Prop :=
  ∀ id rp, s.programs.lookup id = some rp →
    held id = some rp.program ∧ Awaits rp.program rp.bodyState

def Borne (held : ProgramId → Option Program) (id : ProgramId) (f : WatchFire) : Prop :=
  ∃ p, held id = some p ∧ ∀ s ∈ f.steps, s ∈ allSteps p

def Tame (g : Stage σ τ) : Prop :=
  ∀ rp env, Awaits rp.program rp.bodyState →
    (g rp env).1.program = rp.program ∧ Awaits rp.program (g rp env).1.bodyState

section Stages
variable {B B' : Backends σ τ} {tk : Tick} {id : ProgramId} {rp : RunningProgram}

theorem triggerProgram_alike (h : Alike B B' rp.program) :
    triggerProgram B tk id rp = triggerProgram B' tk id rp := by
  funext env
  simp only [triggerProgram, triggerFires_alike h]

theorem tame_triggerProgram (id : ProgramId) : Tame (triggerProgram B tk id) := by
  intro rp env hrp
  unfold triggerProgram
  dsimp only
  split
  · exact ⟨rfl, hrp⟩
  · exact ⟨rfl, hrp⟩
  · exact ⟨rfl, hrp⟩

theorem dispatchProgram_alike (h : Alike B B' rp.program) {fire : WatchFire}
    (hfire : ∀ s ∈ fire.steps, s ∈ allSteps rp.program) :
    dispatchProgram B tk id fire rp = dispatchProgram B' tk id fire rp := by
  have hsteps : dispatchSteps B tk (rp.caller id) fire.steps =
      dispatchSteps B' tk (rp.caller id) fire.steps := dispatchSteps_alike h rfl hfire
  funext env
  simp only [dispatchProgram, hsteps]

theorem tame_dispatchProgram (id : ProgramId) (fire : WatchFire) :
    Tame (dispatchProgram B tk id fire) := by
  intro rp env hrp
  unfold dispatchProgram
  dsimp only
  split
  · exact ⟨rfl, hrp⟩
  · exact ⟨rfl, hrp⟩

theorem tame_silent {g : Stage σ τ} (h : ∀ rp env, SameButWatches (g rp env).1 rp) : Tame g := by
  intro rp env hrp
  obtain ⟨m, hm⟩ := h rp env
  rw [hm]
  exact ⟨rfl, hrp⟩

theorem bodyProgram_alike (h : Alike B B' rp.program) (hrp : Awaits rp.program rp.bodyState) :
    bodyProgram B tk id rp = bodyProgram B' tk id rp := by
  have hstep : stepOnce B tk (rp.caller id) rp.program.body rp.cursor rp.bodyState =
      stepOnce B' tk (rp.caller id) rp.program.body rp.cursor rp.bodyState :=
    stepOnce_alike h rfl hrp rp.cursor
  funext env
  simp only [bodyProgram, hstep]

theorem tame_bodyProgram (id : ProgramId) : Tame (bodyProgram B tk id) := by
  intro rp env hrp
  by_cases hrun : rp.state = .running
  · obtain ⟨hprogram, hbody, -⟩ := bodyProgram_moves B tk id rp env hrun
    have hnext : Awaits rp.program
        (stepOnce B tk (rp.caller id) rp.program.body rp.cursor rp.bodyState env).1.2 :=
      stepOnce_awaits hrp rp.cursor env
    rw [hbody]
    exact ⟨hprogram, hnext⟩
  · rw [bodyProgram, if_neg hrun]
    exact ⟨rfl, hrp⟩

end Stages

section Lift
variable {held : ProgramId → Option Program} {s : Scheduler σ τ} {id : ProgramId} {nowMs : UnixMs}
  {g g' : ProgramId → Stage σ τ}

theorem Holds.lift (h : Holds held s) (hg : Tame (g id)) : Holds held (s.lift nowMs g id).1 := by
  intro p rp hrp
  by_cases hp : id = p
  · subst hp
    cases hid : s.programs.lookup id with
    | none =>
      rw [lift_none hid] at hrp
      exact h id rp hrp
    | some q =>
      rw [lift_lookup_self nowMs hid] at hrp
      obtain rfl := Option.some.inj hrp
      obtain ⟨hheld, hq⟩ := h id q hid
      obtain ⟨hprogram, hnext⟩ := hg q s.env hq
      rw [hprogram]
      exact ⟨hheld, hnext⟩
  · rw [lift_lookup_ne hp] at hrp
    exact h p rp hrp

theorem Holds.lift_congr (h : Holds held s)
    (hg : ∀ rp, held id = some rp.program → Awaits rp.program rp.bodyState → g id rp = g' id rp) :
    s.lift nowMs g id = s.lift nowMs g' id := by
  cases hid : s.programs.lookup id with
  | none => rw [lift_none hid, lift_none hid]
  | some rp =>
    obtain ⟨hheld, hrp⟩ := h id rp hid
    rw [lift_some hid, lift_some hid, hg rp hheld hrp]

end Lift

section Tick
variable {B B' : Backends σ τ} {S : Program → Prop} {held : ProgramId → Option Program}
  {s : Scheduler σ τ} (tk : Tick) (order : List ProgramId)

theorem triggered_alike (hB : Indistinct B B' S) (hheld : ∀ id p, held id = some p → S p)
    (h : Holds held s) : triggered B tk order s = triggered B' tk order s ∧
      Holds held (triggered B tk order s).1 := by
  have hclear : s.cleared B = s.cleared B' := by rw [cleared, cleared, hB.clear]
  unfold triggered
  rw [← hclear]
  refine run_congr (fun s id _ hs => ⟨?_, hs.lift (tame_triggerProgram id)⟩) h
  exact hs.lift_congr fun rp hp _ => triggerProgram_alike (hB.alike _ (hheld id _ hp))

theorem Holds.of_programs {t : Scheduler σ τ} (h : Holds held s) (ht : t.programs = s.programs) :
    Holds held t := by
  intro id rp hrp
  rw [ht] at hrp
  exact h id rp hrp

theorem evaluated_alike (hB : Indistinct B B' S) (hheld : ∀ id p, held id = some p → S p)
    (h : Holds held s) : evaluated B tk order s = evaluated B' tk order s ∧
      Holds held (evaluated B tk order s).1 := by
  obtain ⟨hsame, hnext⟩ := triggered_alike tk order hB hheld h
  unfold evaluated runningIds
  rw [← hsame]
  refine run_congr (fun s id _ hs => ⟨?_, hs.of_programs evalOne_programs⟩) hnext
  unfold evalOne
  cases hid : s.programs.lookup id with
  | none => rfl
  | some rp => simp only [evalProgram_alike (hB.alike _ (hheld id _ (hs id rp hid).1))]

theorem borne_of_evaluated (h : Holds held (triggered B tk order s).1) {e : ProgEval}
    (he : e ∈ (evaluated B tk order s).2) {f : WatchFire} (hf : f ∈ e.fires) :
    Borne held e.id f := by
  obtain ⟨rp, env, hrp, -, heval⟩ := mem_evaluated he
  have hfires : f ∈ firesOf rp (evalWatches B tk e.id rp rp.program.watches.zipIdx env).1 := by
    rw [heval] at hf
    exact hf
  obtain ⟨idx, t, w, -, hw, rfl⟩ := mem_firesOf.mp hfires
  refine ⟨rp.program, (h e.id rp hrp).1, fun s hs => ?_⟩
  exact List.mem_append_right _ (List.mem_flatMap.mpr ⟨w, List.mem_of_getElem? hw, hs⟩)

theorem borne_of_decision (h : Holds held (triggered B tk order s).1)
    {d : Arbiter.Decision WatchFire} (hd : d ∈ decisions B tk order s) :
    Borne held d.programId d.payload := by
  rw [decisions, Arbiter.resolve_eq_map] at hd
  obtain ⟨c, hc, rfl⟩ := List.mem_map.mp hd
  obtain ⟨e, he, hce⟩ := List.mem_filterMap.mp hc
  cases hfires : e.fires with
  | nil => simp [hfires] at hce
  | cons f fs =>
    have hborne : Borne held e.id f :=
      borne_of_evaluated tk order h he (hfires ▸ List.mem_cons_self)
    by_cases hsteps : f.steps = []
    · simp [hfires, hsteps] at hce
    · simp only [hfires, hsteps, if_false, Option.some.injEq] at hce
      rw [← hce]
      exact hborne

theorem directOne_holds {d : Dispatching σ τ} (h : Holds held d.sched) (f : ProgramId × WatchFire) :
    Holds held (directOne tk d f).1.sched :=
  h.lift (tame_silent fun rp _ => .refl rp)

theorem dispatchOne_alike (hB : Indistinct B B' S) (hheld : ∀ id p, held id = some p → S p)
    {d : Dispatching σ τ} (h : Holds held d.sched) {dec : Arbiter.Decision WatchFire}
    (hdec : Borne held dec.programId dec.payload) :
    dispatchOne B tk d dec = dispatchOne B' tk d dec ∧
      Holds held (dispatchOne B tk d dec).1.sched := by
  obtain ⟨p, hp, hsteps⟩ := hdec
  have hown : ∀ rp : RunningProgram, held dec.programId = some rp.program →
      Alike B B' rp.program ∧ ∀ s ∈ dec.payload.steps, s ∈ allSteps rp.program := by
    intro rp hrp
    obtain rfl := Option.some.inj (hp.symm.trans hrp)
    exact ⟨hB.alike _ (hheld _ _ hrp), hsteps⟩
  have hlift : d.sched.lift tk.nowMs (fun id => dispatchProgram B tk id dec.payload)
      dec.programId = d.sched.lift tk.nowMs (fun id => dispatchProgram B' tk id dec.payload)
      dec.programId :=
    h.lift_congr fun rp hrp _ => dispatchProgram_alike (hown rp hrp).1 (hown rp hrp).2
  have herrs : dispatchErrs B tk d dec = dispatchErrs B' tk d dec := by
    unfold dispatchErrs
    cases hid : d.sched.programs.lookup dec.programId with
    | none => rfl
    | some rp =>
      obtain ⟨halike, hmem⟩ := hown rp (h _ rp hid).1
      dsimp only
      rw [dispatchSteps_alike halike rfl hmem]
  refine ⟨by rw [dispatchOne, dispatchOne, hlift, herrs], ?_⟩
  unfold dispatchOne
  dsimp only
  split_ifs
  · exact h.lift (tame_dispatchProgram _ _)
  · exact h.lift (tame_dispatchProgram _ _)
  · cases dec.loserOf with
    | none => exact h
    | some winner => exact h.lift (tame_silent fun rp _ => .refl rp)

theorem dispatched_alike (hB : Indistinct B B' S) (hheld : ∀ id p, held id = some p → S p)
    (h : Holds held s) : dispatched B tk order s = dispatched B' tk order s ∧
      Holds held (dispatched B tk order s).1.sched := by
  have htriggered := (triggered_alike tk order hB hheld h).2
  obtain ⟨heval, hevaluated⟩ := evaluated_alike tk order hB hheld h
  have hfired : Holds held (fired B tk order s).1.sched :=
    run_invariant (I := fun d : Dispatching σ τ => Holds held d.sched)
      (fun _ f _ hd => directOne_holds tk hd f) hevaluated
  have hdecisions : decisions B tk order s = decisions B' tk order s := by
    rw [decisions, decisions, heval]
  have hstart : fired B tk order s = fired B' tk order s := by rw [fired, fired, heval]
  unfold dispatched
  rw [← hdecisions, ← hstart]
  have hborne : ∀ d ∈ decisions B tk order s, Borne held d.programId d.payload :=
    fun _ hd => borne_of_decision tk order htriggered hd
  exact run_congr (I := fun d : Dispatching σ τ => Holds held d.sched)
    (fun _ d hd hs => dispatchOne_alike tk hB hheld hs (hborne d hd)) hfired

theorem updated_alike (hB : Indistinct B B' S) (hheld : ∀ id p, held id = some p → S p)
    (h : Holds held s) : updated B tk order s = updated B' tk order s ∧
      Holds held (updated B tk order s) := by
  obtain ⟨hsame, hnext⟩ := dispatched_alike tk order hB hheld h
  have heval := (evaluated_alike tk order hB hheld h).1
  refine ⟨by rw [updated, updated, hsame, heval], ?_⟩
  have hupdate : ∀ (e : ProgEval) {t : Scheduler σ τ}, Holds held t →
      Holds held (updateOne tk t e).1 :=
    fun e _ ht => ht.lift (tame_silent fun rp _ => updateProgram_same e rp)
  have hfire : ∀ (f : ProgramId × Nat) {t : Scheduler σ τ}, Holds held t →
      Holds held (firedOne tk t f).1 :=
    fun f _ ht => ht.lift (tame_silent fun rp _ => firedProgram_same rp tk.nowMs f.2)
  exact run_invariant (fun _ f _ ht => hfire f ht)
    (run_invariant (fun _ e _ ht => hupdate e ht) hnext)

theorem stepped_alike (hB : Indistinct B B' S) (hheld : ∀ id p, held id = some p → S p)
    (h : Holds held s) : stepped B tk order s = stepped B' tk order s ∧
      Holds held (stepped B tk order s).1 := by
  have htriggered := (triggered_alike tk order hB hheld h).1
  have hdispatched := (dispatched_alike tk order hB hheld h).1
  obtain ⟨hsame, hnext⟩ := updated_alike tk order hB hheld h
  unfold stepped runningIds
  rw [← hsame, ← hdispatched, ← htriggered]
  refine run_congr (fun t id _ ht => ?_) hnext
  unfold bodyOne
  split_ifs
  · exact ⟨rfl, ht⟩
  · refine ⟨?_, ht.lift (tame_bodyProgram id)⟩
    exact ht.lift_congr fun rp hp hrp => bodyProgram_alike (hB.alike _ (hheld id _ hp)) hrp

theorem capturedTick_alike (hB : Indistinct B B' S) (hheld : ∀ id p, held id = some p → S p)
    (h : Holds held s) : capturedTick B tk order s = capturedTick B' tk order s ∧
      Holds held (capturedTick B tk order s).1 := by
  have htriggered := (triggered_alike tk order hB hheld h).1
  have heval := (evaluated_alike tk order hB hheld h).1
  have hdispatched := (dispatched_alike tk order hB hheld h).1
  obtain ⟨hstepped, hnext⟩ := stepped_alike tk order hB hheld h
  have hfired : fired B tk order s = fired B' tk order s := by rw [fired, fired, heval]
  refine ⟨?_, hnext⟩
  rw [capturedTick, capturedTick, htriggered, heval, hfired, hdispatched, hstepped]

end Tick

def brought : Input → Option Program
  | .command (.submitValidated _ p _) _ | .command (.resumeRunning _ _ p _) _ => some p
  | .command _ _ | .tick _ => none

section Runs
variable {B B' : Backends σ τ} {S : Program → Prop} {s : Scheduler σ τ}

def Stocked (S : Program → Prop) (s : Scheduler σ τ) : Prop :=
  ∀ id rp, s.programs.lookup id = some rp → S rp.program ∧ Awaits rp.program rp.bodyState

theorem Stocked.exists_held (h : Stocked S s) :
    ∃ held : ProgramId → Option Program, (∀ id p, held id = some p → S p) ∧ Holds held s := by
  refine ⟨fun id => (s.programs.lookup id).map RunningProgram.program, fun id p hp => ?_,
    fun id rp hrp => ⟨congrArg (Option.map RunningProgram.program) hrp, (h id rp hrp).2⟩⟩
  obtain ⟨rp, hrp, rfl⟩ := Option.map_eq_some_iff.mp hp
  exact (h id rp hrp).1

theorem Holds.stocked {held : ProgramId → Option Program} (h : Holds held s)
    (hheld : ∀ id p, held id = some p → S p) : Stocked S s :=
  fun id rp hrp => ⟨hheld id _ (h id rp hrp).1, (h id rp hrp).2⟩

theorem Stocked.lift {g : ProgramId → Stage σ τ} (h : Stocked S s) (hg : ∀ id, Tame (g id))
    (nowMs : UnixMs) (id : ProgramId) : Stocked S (s.lift nowMs g id).1 := by
  obtain ⟨held, hheld, hs⟩ := h.exists_held
  exact (hs.lift (hg id)).stocked hheld

theorem Stocked.insert (h : Stocked S s) {rp : RunningProgram} (hrp : S rp.program)
    (hrest : rp.bodyState = {}) (id : ProgramId) :
    Stocked S { s with programs := s.programs.insert id rp } := by
  intro p q hq
  by_cases hp : p = id
  · subst hp
    obtain rfl := Option.some.inj ((AList.lookup_insert _).symm.trans hq)
    refine ⟨hrp, fun n deadline onTimeout hwaits => ?_⟩
    rw [hrest] at hwaits
    cases hwaits
  · exact h p q ((AList.lookup_insert_ne hp).symm.trans hq)

theorem Stocked.drainOne (h : Stocked S s) {c : SchedulerCommand} {nowMs : UnixMs}
    (hc : ∀ p, brought (.command c nowMs) = some p → S p) :
    Stocked S (s.drainOne nowMs c).1 := by
  cases c with
  | submitValidated id program assets => exact h.insert (hc program rfl) rfl id
  | resumeRunning id fromStep program assets => exact h.insert (hc program rfl) rfl id
  | cancel id reason => exact h.lift (fun _ _ _ hrp => ⟨rfl, hrp⟩) nowMs id
  | start id => exact h.lift (fun _ _ _ hrp => ⟨rfl, hrp⟩) nowMs id
  | shutdown => exact h

theorem step_alike (hB : Indistinct B B' S) (h : Stocked S s) {i : Input}
    (hi : ∀ p, brought i = some p → S p) :
    step B s i = step B' s i ∧ Stocked S (step B s i).1 := by
  cases i with
  | command c nowMs => exact ⟨rfl, h.drainOne hi⟩
  | tick t =>
    obtain ⟨held, hheld, hs⟩ := h.exists_held
    unfold step tickOnce
    dsimp only
    cases t.capture with
    | none => exact ⟨rfl, h⟩
    | some frame =>
      obtain ⟨hsame, hnext⟩ := capturedTick_alike ⟨frame, t.nowMs⟩
        (t.arrange s.programs.keys).1 hB hheld hs
      exact ⟨hsame, hnext.stocked hheld⟩

/-- What is listed for the programs it is given is all that a run goes by. -/
theorem run_alike (hB : Indistinct B B' S) {is : List Input}
    (his : ∀ i ∈ is, ∀ p, brought i = some p → S p) (env : Env σ τ) :
    run (step B) (new env) is = run (step B') (new env) is := by
  have hstart : Stocked S (new env) := by
    intro id rp hrp
    cases hrp
  exact (run_congr (I := Stocked S) (fun _ i hi hs => step_alike hB hs (his i hi)) hstart).1

end Runs

section Perceiving

def perceiving (L : Libs) (fuel : Nat)
    (report : Except Crash (Except PerceptionError PredicateResult × Memory) →
      Except PerceptionError PredicateResult × Memory)
    (call : InputCall → τ → Except InputError Unit × τ) : Backends Memory τ where
  clear := Memory.clear
  evaluateNamed n predicates frame nowMs assets id m :=
    report (Perception.evaluateNamed L fuel ⟨frame, nowMs, predicates, assets, some id⟩ n m)
  call := call

/-- The evaluation has ended in a way that validation is there to rule out. -/
def Amiss : Except Crash (Except PerceptionError PredicateResult × Memory) → Prop
  | .error crash => Unsound (.inl crash)
  | .ok (.error e, _) => Unsound (.inr e)
  | .ok (.ok _, _) => False

theorem not_amiss {x : Eval PredicateResult} (h : Shuns Unsound x) (m : Memory) :
    ¬ Amiss (x m) := by
  intro hamiss
  cases hout : x m with
  | error crash =>
    rw [hout] at hamiss
    exact h.avoids hamiss m hout
  | ok out =>
    obtain ⟨r, m'⟩ := out
    rw [hout] at hamiss
    cases r with
    | ok r => exact hamiss
    | error e =>
      have hret : x.Returns m (.error e) m' := by rw [Returns, hout]
      exact h.error hamiss hret

def mapsOf (p : Program) : List Predicates :=
  p.predicates :: p.watches.zipIdx.filterMap fun w =>
    match w.1.when_ with
    | .inline q => some (p.predicates.insert (inlineKey w.2) q)
    | .byName _ => none

theorem Asked.mem_mapsOf {p : Program} {n : String} {predicates : Predicates}
    (h : Asked p n predicates) : predicates ∈ mapsOf p := by
  cases h with
  | @inline i w q hw hwhen =>
    refine List.mem_cons_of_mem _ (List.mem_filterMap.mpr ⟨(w, i), ?_, ?_⟩)
    · exact List.mk_mem_zipIdx_iff_getElem?.mpr hw
    · simp only [hwhen]
  | trigger | byName | until_ | step | target => exact List.mem_cons_self

def Lasts (p : Program) (fuel : Nat) : Prop :=
  ∀ n predicates, Asked p n predicates → ∀ (L : Libs) (frame : Frame) (nowMs : UnixMs)
    (assets : Assets) (id : ProgramId), Shuns Unsound
      (Perception.evaluateNamed L fuel ⟨frame, nowMs, predicates, assets, some id⟩ n)

/-- A program has finitely many names to be asked for, and each is evaluated with fuel enough. -/
theorem eventually_lasts {X : Crates} {p : Program} (haccepted : Accepted X p)
    (hp : Manageable p) : ∀ᶠ fuel in Filter.atTop, Lasts p fuel := by
  have hall : ∀ᶠ fuel in Filter.atTop, ∀ predicates ∈ {q | q ∈ mapsOf p},
      ∀ n ∈ {k | k ∈ predicates.keys}, Asked p n predicates → ∀ (L : Libs) (frame : Frame)
        (nowMs : UnixMs) (assets : Assets) (id : ProgramId), Shuns Unsound
          (Perception.evaluateNamed L fuel ⟨frame, nowMs, predicates, assets, some id⟩ n) := by
    refine (Filter.eventually_all_finite (List.finite_toSet _)).mpr fun predicates _ => ?_
    refine (Filter.eventually_all_finite (List.finite_toSet _)).mpr fun n _ => ?_
    by_cases hasked : Asked p n predicates
    · obtain ⟨bound, hbound⟩ := hasked.shuns haccepted hp
      exact Filter.eventually_atTop.mpr ⟨bound, fun fuel hfuel _ => hbound fuel hfuel⟩
    · exact Filter.Eventually.of_forall fun _ h => absurd h hasked
  refine hall.mono fun fuel hfuel n predicates hasked => ?_
  have hmem : n ∈ predicates.keys :=
    Std.ExtTreeMap.mem_keys.mpr (hasked.named haccepted.checked).1
  exact hfuel predicates hasked.mem_mapsOf n hmem hasked

theorem indistinct_perceiving {S : Program → Prop} {fuel : Nat} (hS : ∀ p, S p → Lasts p fuel)
    (L : Libs) (call : InputCall → τ → Except InputError Unit × τ)
    {report report' : Except Crash (Except PerceptionError PredicateResult × Memory) →
      Except PerceptionError PredicateResult × Memory}
    (hreport : ∀ out, ¬ Amiss out → report out = report' out) :
    Indistinct (perceiving L fuel report call) (perceiving L fuel report' call) S := by
  refine ⟨rfl, fun p hp => ⟨rfl, fun n predicates hasked => ?_⟩⟩
  funext frame nowMs assets id m
  exact hreport _ (not_amiss (hS p hp n predicates hasked L frame nowMs assets id) m)

/-- A run over programs that were accepted never comes upon an evaluation that goes amiss:
whatever would be reported of one, the run is the same. -/
theorem run_never_amiss {X : Crates} {is : List Input}
    (his : ∀ i ∈ is, ∀ p, brought i = some p → Accepted X p ∧ Manageable p) :
    ∃ bound, ∀ fuel, bound ≤ fuel → ∀ (L : Libs)
      (call : InputCall → τ → Except InputError Unit × τ) (env : Env Memory τ)
      (report report' : Except Crash (Except PerceptionError PredicateResult × Memory) →
        Except PerceptionError PredicateResult × Memory),
      (∀ out, ¬ Amiss out → report out = report' out) →
        run (step (perceiving L fuel report call)) (new env) is =
          run (step (perceiving L fuel report' call)) (new env) is := by
  have hall : ∀ᶠ fuel in Filter.atTop, ∀ i ∈ {j | j ∈ is}, ∀ p, brought i = some p →
      Lasts p fuel := by
    refine (Filter.eventually_all_finite (List.finite_toSet _)).mpr fun i hi => ?_
    cases hp : brought i with
    | none => exact Filter.Eventually.of_forall fun _ _ h => by cases h
    | some p =>
      obtain ⟨haccepted, hmanageable⟩ := his i hi p hp
      refine (eventually_lasts haccepted hmanageable).mono fun fuel hfuel q hq => ?_
      obtain rfl := Option.some.inj hq
      exact hfuel
  obtain ⟨bound, hbound⟩ := Filter.eventually_atTop.mp hall
  refine ⟨bound, fun fuel hfuel L call env report report' hreport => ?_⟩
  have hlasts := indistinct_perceiving (S := (Lasts · fuel)) (fun _ hp => hp) L call hreport
  exact run_alike hlasts (fun i hi p hp => hbound fuel hfuel i hi p hp) env

end Perceiving

end Vcli.Dsl

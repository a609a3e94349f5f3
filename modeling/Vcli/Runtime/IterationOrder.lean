import Vcli.Runtime.Projection

/-! A tick walks through the map of programs in an order that nothing fixes. As long as the
backends answer by their arguments alone, the order shows neither in the programs nor in what the
tick does on behalf of each of them. -/

namespace Vcli

open Transducer Interaction

variable {σ τ : Type}

structure Backends.Oracular (B : Backends σ τ) : Prop where
  perception : ∀ name predicates frame nowMs assets id env env',
    (B.evaluateNamed name predicates frame nowMs assets id env).1 =
      (B.evaluateNamed name predicates frame nowMs assets id env').1
  input : ∀ call env env', (B.call call env).1 = (B.call call env').1

section Steady
variable {B : Backends σ τ} (hB : B.Oracular) (tk : Tick) (c : Caller)
include hB

theorem steady_evaluateNamed (site : Site) (name : String) :
    Steady (evaluateNamed B tk c site name) := by
  intro env env'
  have hsame := hB.perception name c.predicates tk.frame tk.nowMs c.assets c.id env.perception
    env'.perception
  exact ⟨hsame, congrArg (fun r => [Obs.perceived c.id site r]) hsame⟩

theorem steady_callInput (call : InputCall) : Steady (callInput B c call) := by
  intro env env'
  have hsame := hB.input call env.input env'.input
  refine ⟨congrArg (Except.mapError fun e : InputError => RuntimeError.input e.toString) hsame, ?_⟩
  exact congrArg (fun r => [Obs.called c.id call r]) hsame

theorem steady_resolveTarget (target : Target) : Steady (resolveTarget B tk c target) := by
  cases target with
  | absolute p => exact steady_pure _
  | expression s =>
    rw [resolveTarget]
    cases Expr.parse s with
    | error e => exact steady_pure _
    | ok e =>
      refine steady_bind (steady_evaluateNamed hB tk c .body e.predicate) fun r => ?_
      cases r with
      | error err => exact steady_pure _
      | ok r => cases e.accessor <;> exact steady_pure _

theorem steady_dispatchAt (target : Target) (f : Point → InputCall) :
    Steady (dispatchAt B tk c target f) := by
  refine steady_bind (steady_resolveTarget hB tk c target) fun r => ?_
  cases r with
  | error e => exact steady_pure _
  | ok p => exact steady_callInput hB c (f p)

theorem steady_dispatchAction (step : Step) : Steady (dispatchAction B tk c step) := by
  cases step with
  | move at_ | click at_ button | scroll at_ dx dy => exact steady_dispatchAt hB tk c at_ _
  | type text | key key modifiers => exact steady_callInput hB c _
  | sleepMs | waitFor | assert => exact steady_pure _

theorem steady_dispatchSteps (steps : List Step) : Steady (dispatchSteps B tk c steps) := by
  induction steps with
  | nil => exact steady_pure _
  | cons step steps ih =>
    refine steady_bind (steady_tell _) fun _ => ?_
    refine steady_bind (steady_dispatchAction hB tk c step) fun r => ?_
    cases r with
    | error e => exact steady_pure _
    | ok u => exact ih

theorem steady_stepDeferred (d : BodyDefer) : Steady (stepDeferred B tk c d) := by
  cases d with
  | sleep wakeAtMs =>
    rw [stepDeferred]
    split_ifs <;> exact steady_pure _
  | waitFor predicate deadlineMs onTimeout =>
    refine steady_bind (steady_evaluateNamed hB tk c .body predicate) fun r => ?_
    cases r with
    | error e => exact steady_pure _
    | ok r =>
      dsimp only
      split_ifs
      · exact steady_pure _
      · cases onTimeout <;> exact steady_pure _
      · exact steady_pure _

theorem steady_stepFresh (step : Step) : Steady (stepFresh B tk c step) := by
  cases step with
  | sleepMs | waitFor => exact steady_pure _
  | assert predicate onFail =>
    refine steady_bind (steady_evaluateNamed hB tk c .body predicate) fun r => ?_
    cases r with
    | error e => exact steady_pure _
    | ok r =>
      dsimp only
      split_ifs
      · exact steady_pure _
      · cases onFail <;> exact steady_pure _
  | move | click | scroll | type | key =>
    exact steady_bind (steady_dispatchAction hB tk c _) fun _ => steady_pure _

theorem steady_stepOnce (body : List Step) (cursor : Nat) (state : BodyState) :
    Steady (stepOnce B tk c body cursor state) := by
  rw [stepOnce]
  cases state.deferred with
  | some d => exact steady_stepDeferred hB tk c d
  | none =>
    cases body[cursor]? with
    | none => exact steady_pure _
    | some step => exact steady_stepFresh hB tk c step

theorem steady_triggerFires (id : ProgramId) (rp : RunningProgram) :
    Steady (triggerFires B tk id rp) := by
  rw [triggerFires]
  cases rp.program.trigger with
  | onSubmit | manual => exact steady_pure _
  | onPredicate name =>
    refine steady_bind (steady_evaluateNamed hB tk _ .trigger name) fun r => ?_
    cases r <;> exact steady_pure _

theorem steady_evalCondition (id : ProgramId) (rp : RunningProgram) (idx : Nat) (w : Watch) :
    Steady (evalCondition B tk id rp idx w) := by
  refine steady_bind (steady_evaluateNamed hB tk _ _ _) fun r => ?_
  cases r with
  | error e => exact steady_pure _
  | ok r => exact steady_bind (steady_tell _) fun _ => steady_pure _

theorem steady_evalWatch (id : ProgramId) (rp : RunningProgram) (idx : Nat) (w : Watch) :
    Steady (evalWatch B tk id rp idx w) := by
  rw [evalWatch]
  split_ifs
  · exact steady_pure _
  · cases w.lifetime with
    | untilPredicate name =>
      refine steady_bind (steady_evaluateNamed hB tk _ _ name) fun r => ?_
      cases r with
      | error e => exact steady_evalCondition hB tk id rp idx w
      | ok r =>
        dsimp only
        split_ifs
        · exact steady_pure _
        · exact steady_evalCondition hB tk id rp idx w
    | _ => exact steady_evalCondition hB tk id rp idx w

theorem steady_evalWatches (id : ProgramId) (rp : RunningProgram) (ws : List (Watch × Nat)) :
    Steady (evalWatches B tk id rp ws) := by
  induction ws with
  | nil => exact steady_pure _
  | cons w ws ih =>
    refine steady_bind (steady_evalWatch hB tk id rp w.2 w.1) fun _ => ?_
    exact steady_bind ih fun _ => steady_pure _

end Steady

section Parts
variable {B : Backends σ τ} (hB : B.Oracular) (tk : Tick) (id : ProgramId) (rp : RunningProgram)
  (env env' : Env σ τ)
include hB

theorem triggerPart_steady : triggerPart B tk id env rp = triggerPart B tk id env' rp := by
  obtain ⟨hvalue, hrecord⟩ := steady_triggerFires hB tk id rp env env'
  rw [triggerPart, triggerPart]
  split_ifs
  · rw [triggerProgram, triggerProgram]
    dsimp only
    rw [hvalue, hrecord]
    cases (triggerFires B tk id rp env').1 with
    | error e => rfl
    | ok fires => cases fires <;> rfl
  · rfl

theorem evalProgram_steady : (evalProgram B tk id rp env).1 = (evalProgram B tk id rp env').1 := by
  obtain ⟨hvalue, hrecord⟩ := steady_evalWatches hB tk id rp rp.program.watches.zipIdx env env'
  rw [evalProgram, evalProgram]
  dsimp only
  rw [hvalue, hrecord]

theorem dispatchProgram_steady (fire : WatchFire) :
    (dispatchProgram B tk id fire rp env).1 = (dispatchProgram B tk id fire rp env').1 ∧
      (dispatchProgram B tk id fire rp env).2.2 = (dispatchProgram B tk id fire rp env').2.2 := by
  obtain ⟨hvalue, hrecord⟩ := steady_dispatchSteps hB tk (rp.caller id) fire.steps env env'
  rw [dispatchProgram, dispatchProgram]
  dsimp only
  rw [hvalue, hrecord]
  cases (dispatchSteps B tk (rp.caller id) fire.steps env').1 with
  | none => exact ⟨rfl, rfl⟩
  | some e => exact ⟨rfl, rfl⟩

theorem firePart_steady (loser : Option ProgramId) (e : ProgEval) :
    firePart B tk id env loser e rp = firePart B tk id env' loser e rp := by
  cases hf : e.fires with
  | nil => rw [firePart_nil B tk id env rp loser hf, firePart_nil B tk id env' rp loser hf]
  | cons f fs =>
    by_cases hs : f.steps = []
    · rw [firePart_direct B tk id env rp loser hf hs, firePart_direct B tk id env' rp loser hf hs]
      rfl
    · cases loser with
      | some winner =>
        rw [firePart_defer B tk id env rp winner hf hs, firePart_defer B tk id env' rp winner hf hs]
        rfl
      | none =>
        obtain ⟨hprogram, hseen⟩ := dispatchProgram_steady hB tk id rp env env' f
        obtain ⟨hvalue, -⟩ := steady_dispatchSteps hB tk (rp.caller id) f.steps env env'
        rw [firePart_dispatch B tk id env rp hf hs, firePart_dispatch B tk id env' rp hf hs,
          hprogram, hseen, hvalue]

theorem bodyProgram_steady :
    (bodyProgram B tk id rp env).1 = (bodyProgram B tk id rp env').1 ∧
      (bodyProgram B tk id rp env).2.2 = (bodyProgram B tk id rp env').2.2 := by
  obtain ⟨hvalue, hrecord⟩ :=
    steady_stepOnce hB tk (rp.caller id) rp.program.body rp.cursor rp.bodyState env env'
  rw [bodyProgram, bodyProgram]
  split_ifs
  · dsimp only
    rw [hvalue, hrecord]
    cases (stepOnce B tk (rp.caller id) rp.program.body rp.cursor rp.bodyState env').1.1 with
    | advanced => dsimp only; split_ifs <;> exact ⟨rfl, rfl⟩
    | stalled => exact ⟨rfl, rfl⟩
    | bodyComplete => dsimp only; split_ifs <;> exact ⟨rfl, rfl⟩
    | failed e => exact ⟨rfl, rfl⟩
  · exact ⟨rfl, rfl⟩

/-- What a tick does to a program does not depend on what it found the backends in. -/
theorem tickProgram_steady (sur sur' : Surroundings σ τ) (loser : Option ProgramId) :
    tickProgram B tk id sur loser rp = tickProgram B tk id sur' loser rp := by
  have hrun : ∀ rp, runPart B tk id sur loser rp = runPart B tk id sur' loser rp := by
    intro rp
    rw [runPart, runPart, evalProgram_steady hB tk id rp sur.eval sur'.eval,
      firePart_steady hB tk id _ sur.fire sur'.fire, (bodyProgram_steady hB tk id _ sur.body sur'.body).1,
      (bodyProgram_steady hB tk id _ sur.body sur'.body).2]
  rw [tickProgram, tickProgram, triggerPart_steady hB tk id rp sur.trigger sur'.trigger, hrun]

end Parts

namespace Scheduler

variable {B : Backends σ τ} {tk : Tick} {s : Scheduler σ τ} {order order' : List ProgramId}

def slice (B : Backends σ τ) (tk : Tick) (s : Scheduler σ τ) (id : ProgramId) : Option ProgEval :=
  match s.programs.lookup id with
  | none => none
  | some rp =>
    let triggered := (triggerPart B tk id s.env rp).1
    if triggered.state = .running then some (evalProgram B tk id triggered s.env).1 else none

theorem slice_some {id : ProgramId} {rp : RunningProgram} (h : s.programs.lookup id = some rp) :
    slice B tk s id = if (triggerPart B tk id s.env rp).1.state = .running then
      some (evalProgram B tk id (triggerPart B tk id s.env rp).1 s.env).1 else none := by
  rw [slice, h]

theorem triggered_lookup (tk : Tick) (hB : B.Oracular) (hn : order.Nodup) {id : ProgramId}
    (hid : id ∈ order) {rp : RunningProgram} (h : s.programs.lookup id = some rp) :
    (triggered B tk order s).1.programs.lookup id = some (triggerPart B tk id s.env rp).1 := by
  obtain ⟨env, hlookup, -⟩ := triggered_project B tk hn hid h
  rw [hlookup, triggerPart_steady hB tk id rp env s.env]

theorem evalOne_slice (hB : B.Oracular) (hn : order.Nodup) {id : ProgramId}
    (hid : id ∈ runningIds B tk order s) {t : Scheduler σ τ}
    (ht : t.programs = (triggered B tk order s).1.programs) :
    (evalOne B tk t id).2 = (slice B tk s id).toList := by
  obtain ⟨hmem, hrunning⟩ := List.mem_filter.mp hid
  rw [evalOne, ht]
  cases h : s.programs.lookup id with
  | none =>
    rw [(triggered_none B tk order h).1, slice, h]
    rfl
  | some rp =>
    have hlookup := triggered_lookup tk hB hn hmem h
    have hstate := (stateIs_iff hlookup).mp hrunning
    rw [hlookup, slice_some h, if_pos hstate]
    exact congrArg (fun e => [e]) (evalProgram_steady hB tk id _ t.env s.env)

theorem slice_of_not_running (hB : B.Oracular) (hn : order.Nodup) {id : ProgramId}
    (hmem : id ∈ order) (hid : id ∉ runningIds B tk order s) : slice B tk s id = none := by
  cases h : s.programs.lookup id with
  | none => rw [slice, h]
  | some rp =>
    have hlookup := triggered_lookup tk hB hn hmem h
    have hstate : (triggerPart B tk id s.env rp).1.state ≠ .running := fun hrun =>
      hid (List.mem_filter.mpr ⟨hmem, (stateIs_iff hlookup).mpr hrun⟩)
    rw [slice_some h, if_neg hstate]

theorem flatMap_toList_filter {α β : Type} {l : List α} {p : α → Bool} {h : α → Option β}
    (hnone : ∀ a ∈ l, ¬ p a = true → h a = none) :
    ((l.filter p).flatMap fun a => (h a).toList) = l.filterMap h := by
  induction l with
  | nil => rfl
  | cons a l ih =>
    have hrest := ih fun b hb => hnone b (List.mem_cons_of_mem _ hb)
    by_cases hp : p a = true
    · rw [List.filter_cons_of_pos hp, List.flatMap_cons, hrest]
      cases ha : h a with
      | none => rw [List.filterMap_cons_none ha]; rfl
      | some b => rw [List.filterMap_cons_some ha]; rfl
    · rw [List.filter_cons_of_neg hp, hrest,
        List.filterMap_cons_none (hnone a List.mem_cons_self hp)]

theorem evaluated_eq (hB : B.Oracular) (hn : order.Nodup) :
    (evaluated B tk order s).2 = order.filterMap (slice B tk s) := by
  have houtputs : (evaluated B tk order s).2 =
      (runningIds B tk order s).flatMap fun id => (slice B tk s id).toList :=
    run_flatMap (v := fun t : Scheduler σ τ => t.programs) (fun _ _ _ _ => evalOne_programs)
      fun t ht id hid => evalOne_slice hB hn hid ht
  rw [houtputs]
  refine flatMap_toList_filter fun id hid hrun => slice_of_not_running hB hn hid fun hmem => ?_
  exact hrun (List.mem_filter.mp hmem).2

theorem verdict_perm (hB : B.Oracular) (hn : order.Nodup) (hperm : order.Perm order')
    (id : ProgramId) : verdict B tk order s id = verdict B tk order' s id := by
  have hn' : order'.Nodup := hperm.nodup_iff.mp hn
  rw [verdict, verdict, evaluated_eq hB hn, evaluated_eq hB hn']
  exact Arbiter.loserOf_perm ((hperm.filterMap _).filterMap _) id

/-- Two walks through the map leave the same programs, and do the same on behalf of each. -/
theorem capturedTick_perm (hB : B.Oracular) (hn : order.Nodup) (hperm : order.Perm order')
    (hall : ∀ id, s.programs.lookup id ≠ none → id ∈ order) (id : ProgramId) :
    (capturedTick B tk order s).1.programs.lookup id =
        (capturedTick B tk order' s).1.programs.lookup id ∧
      traceOf id (capturedTick B tk order s).2 = traceOf id (capturedTick B tk order' s).2 := by
  have hn' : order'.Nodup := hperm.nodup_iff.mp hn
  cases h : s.programs.lookup id with
  | none =>
    obtain ⟨hlookup, htrace⟩ := capturedTick_none B tk order h
    obtain ⟨hlookup', htrace'⟩ := capturedTick_none B tk order' h
    rw [hlookup, htrace, hlookup', htrace']
    exact ⟨rfl, rfl⟩
  | some rp =>
    have hid : id ∈ order := hall id (by rw [h]; exact Option.some_ne_none rp)
    obtain ⟨sur, hlookup, htrace, -⟩ := capturedTick_project B tk hn hid h
    obtain ⟨sur', hlookup', htrace', -⟩ :=
      capturedTick_project B tk hn' (hperm.mem_iff.mp hid) h
    rw [hlookup, htrace, hlookup', htrace', verdict_perm hB hn hperm id,
      tickProgram_steady hB tk id rp sur sur']
    exact ⟨rfl, rfl⟩

end Scheduler

section Seen

def Obs.callOf (id : ProgramId) : Obs → Option (InputCall × Except InputError Unit)
  | called p call r => if p = id then some (call, r) else none
  | _ => none

def Obs.payloadOf (id : ProgramId) : Obs → Option EventData
  | emitted data => if data.programIdOf = some id then some data else none
  | _ => none

def callsOf (id : ProgramId) (ms : List (Moment ProgramMap)) :
    List (InputCall × Except InputError Unit) := ms.filterMap fun m => m.obs.callOf id

def payloadsOf (id : ProgramId) (ms : List (Moment ProgramMap)) : List EventData :=
  ms.filterMap fun m => m.obs.payloadOf id

variable {id : ProgramId} {ms ms' : List (Moment ProgramMap)}

theorem filterMap_eq_of_trace {α : Type} {f : Obs → Option α}
    (hf : ∀ o, o.subject ≠ some id → f o = none) (h : traceOf id ms = traceOf id ms') :
    (ms.filterMap fun m => f m.obs) = ms'.filterMap fun m => f m.obs := by
  have hread : ∀ ms : List (Moment ProgramMap),
      (ms.filterMap fun m => f m.obs) = (traceOf id ms).filterMap fun m => f m.obs := by
    intro ms
    rw [traceOf, List.filterMap_map, List.filterMap_filter]
    refine List.filterMap_congr fun m _ => ?_
    by_cases hm : m.obs.subject = some id
    · have hmine : Moment.mine id m = true := decide_eq_true hm
      rw [if_pos hmine]
      rfl
    · have hmine : ¬ Moment.mine id m = true := fun h => hm (of_decide_eq_true h)
      rw [if_neg hmine, hf _ hm]
  rw [hread ms, hread ms', h]

theorem callsOf_eq (h : traceOf id ms = traceOf id ms') : callsOf id ms = callsOf id ms' := by
  refine filterMap_eq_of_trace (fun o ho => ?_) h
  cases o with
  | called p call r => exact if_neg fun heq => ho (congrArg some heq)
  | perceived | decided | stepped | emitted => rfl

theorem payloadsOf_eq (h : traceOf id ms = traceOf id ms') :
    payloadsOf id ms = payloadsOf id ms' := by
  refine filterMap_eq_of_trace (fun o ho => ?_) h
  cases o with
  | emitted data => exact if_neg ho
  | perceived | decided | stepped | called => rfl

end Seen

namespace Scheduler

/-- The order in which a tick walks through the map of programs makes no difference to any
program: not to what becomes of it, nor to its input, nor to its events. -/
theorem tick_order_irrelevant (B : Backends σ τ) (hB : B.Oracular) (s : Scheduler σ τ)
    (capture : Option Frame) (nowMs : UnixMs)
    (arrange arrange' : (keys : List ProgramId) → { order : List ProgramId // order.Perm keys })
    (id : ProgramId) :
    (s.tickOnce B ⟨capture, nowMs, arrange⟩).1.programs.lookup id =
        (s.tickOnce B ⟨capture, nowMs, arrange'⟩).1.programs.lookup id ∧
      callsOf id (s.tickOnce B ⟨capture, nowMs, arrange⟩).2 =
        callsOf id (s.tickOnce B ⟨capture, nowMs, arrange'⟩).2 ∧
      payloadsOf id (s.tickOnce B ⟨capture, nowMs, arrange⟩).2 =
        payloadsOf id (s.tickOnce B ⟨capture, nowMs, arrange'⟩).2 := by
  cases capture with
  | none => exact ⟨rfl, rfl, rfl⟩
  | some frame =>
    have hn := (arrange s.programs.keys).2.nodup_iff.mpr s.programs.keys_nodup
    have hperm := (arrange s.programs.keys).2.trans (arrange' s.programs.keys).2.symm
    have hall : ∀ id, s.programs.lookup id ≠ none → id ∈ (arrange s.programs.keys).1 := by
      intro id hid
      have hsome := Option.isSome_iff_ne_none.mpr hid
      exact (arrange s.programs.keys).2.mem_iff.mpr (AList.lookup_isSome.mp hsome)
    obtain ⟨hlookup, htrace⟩ := capturedTick_perm hB hn hperm hall id
    exact ⟨hlookup, callsOf_eq htrace, payloadsOf_eq htrace⟩

def rivals : Scheduler Unit Unit :=
  let rival : Program := { Program.blank "rival" with
    watches := [{ when_ := .byName "go", steps := [.type "x"], throttleMs := 0,
                  lifetime := .persistent }] }
  let s := (drainOne (new ⟨(), ()⟩) 0 (.submitValidated ⟨1⟩ rival ∅)).1
  (s.drainOne 0 (.submitValidated ⟨2⟩ rival ∅)).1

theorem tick_order_irrelevant_rivals :
    callsOf ⟨1⟩ (rivals.tickOnce (.constant (.ok ⟨true, none, 5⟩))
        ⟨some .dot, 5, fun keys => ⟨keys, .refl keys⟩⟩).2 =
      callsOf ⟨1⟩ (rivals.tickOnce (.constant (.ok ⟨true, none, 5⟩))
        ⟨some .dot, 5, fun keys => ⟨keys.reverse, keys.reverse_perm⟩⟩).2 :=
  (tick_order_irrelevant _ ⟨fun _ _ _ _ _ _ _ _ => rfl, fun _ _ _ => rfl⟩ rivals (some .dot) 5
    (fun keys => ⟨keys, .refl keys⟩) (fun keys => ⟨keys.reverse, keys.reverse_perm⟩) ⟨1⟩).2.1

end Scheduler

end Vcli

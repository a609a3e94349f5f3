import Vcli.Lib.Keyed
import Vcli.Runtime.Ownership

/-! What the evaluation stage finds out about each watch of a program: the outcome and the
record of one watch, and how they sit in those of the whole program. -/

namespace Vcli

open Interaction

def Obs.watchOf : Obs → Option Nat
  | perceived _ (.until idx) _ | perceived _ (.watch idx) _ | decided _ idx _ => some idx
  | _ => none

def WatchOutcome.watchOf : WatchOutcome → Option Nat
  | inert => none
  | terminated idx | judged idx _ _ => some idx

section Judged
variable (tk : Tick) (id : ProgramId) (rp : RunningProgram) (idx : Nat)

inductive Passed : Lifetime → List Obs → Prop
  | without {l : Lifetime} (h : ∀ name, l ≠ .untilPredicate name) : Passed l []
  | until {name : String} {r : Except PerceptionError PredicateResult}
      (h : ∀ v, r = .ok v → v.truthy = false) :
      Passed (.untilPredicate name) [.perceived id (.until idx) r]

/-- What `decide` says about a watch of the program at this tick. -/
def verdictOn (w : Watch) (truthy : Bool) : WatchDecision :=
  decideWatch w (rp.watch idx) truthy tk.nowMs (rp.runningSinceMs.getD tk.nowMs)

inductive Judged (w : Watch) : WatchOutcome → List Obs → Prop
  | retired (h : (rp.watch idx).retired = true) : Judged w .inert []
  | terminated {name : String} {r : PredicateResult} (hr : (rp.watch idx).retired = false)
      (hl : w.lifetime = .untilPredicate name) (ht : r.truthy = true) :
      Judged w (.terminated idx) [.perceived id (.until idx) (.ok r)]
  | erred {pre : List Obs} {e : PerceptionError} (hr : (rp.watch idx).retired = false)
      (hp : Passed id idx w.lifetime pre) :
      Judged w .inert (pre ++ [.perceived id (.watch idx) (.error e)])
  | judged {pre : List Obs} {r : PredicateResult} (hr : (rp.watch idx).retired = false)
      (hp : Passed id idx w.lifetime pre) :
      Judged w (.judged idx r.truthy (verdictOn tk rp idx w r.truthy))
        (pre ++ [.perceived id (.watch idx) (.ok r),
          .decided id idx (verdictOn tk rp idx w r.truthy)])

end Judged

section Evaluation
variable {σ τ : Type} (B : Backends σ τ) (tk : Tick) (id : ProgramId) (rp : RunningProgram)

theorem evalCondition_judged {idx : Nat} {w : Watch} {pre : List Obs}
    (hr : (rp.watch idx).retired = false) (hp : Passed id idx w.lifetime pre) :
    Sat (fun o os => Judged tk id rp idx w o (pre ++ os)) (evalCondition B tk id rp idx w) := by
  intro env
  unfold evalCondition
  simp only [bind_apply, evaluateNamed, conditionOf_id]
  cases (B.evaluateNamed _ _ _ _ _ _ env.perception).1 with
  | error e => exact .erred hr hp
  | ok r => exact .judged hr hp

theorem evalWatch_judged (idx : Nat) (w : Watch) :
    Sat (Judged tk id rp idx w) (evalWatch B tk id rp idx w) := by
  unfold evalWatch
  split_ifs with hr
  · exact sat_pure (.retired hr)
  · rw [Bool.not_eq_true] at hr
    have hpass : (∀ name, w.lifetime ≠ .untilPredicate name) →
        Sat (Judged tk id rp idx w) (evalCondition B tk id rp idx w) :=
      fun h => evalCondition_judged B tk id rp hr (.without h)
    cases hl : w.lifetime with
    | oneShot | persistent | timeoutMs =>
      exact hpass fun name hn => Lifetime.noConfusion (hl.symm.trans hn)
    | untilPredicate name =>
      refine sat_bind (q := fun r os => os = [.perceived id (.until idx) r])
        -- a terminator that errs or does not hold leaves the watch to its condition
        (fun env => rfl) ?_
      rintro r os rfl
      have hnext : (∀ v, r = .ok v → v.truthy = false) →
          Sat (fun o os => Judged tk id rp idx w o ([.perceived id (.until idx) r] ++ os))
            (evalCondition B tk id rp idx w) := by
        intro h
        exact evalCondition_judged B tk id rp hr (hl ▸ .until h)
      cases r with
      | error e => exact hnext fun v hv => by cases hv
      | ok r =>
        dsimp only
        split_ifs with ht
        · exact sat_pure (.terminated hr hl ht)
        · refine hnext fun v hv => ?_
          rw [← Except.ok.inj hv]
          exact Bool.not_eq_true _ ▸ ht

inductive JudgedAll (tk : Tick) (id : ProgramId) (rp : RunningProgram) :
    List (Watch × Nat) → List WatchOutcome → List Obs → Prop
  | nil : JudgedAll tk id rp [] [] []
  | cons {w : Watch × Nat} {ws : List (Watch × Nat)} {o : WatchOutcome}
      {outcomes : List WatchOutcome} {l r : List Obs} (h : Judged tk id rp w.2 w.1 o l)
      (t : JudgedAll tk id rp ws outcomes r) :
      JudgedAll tk id rp (w :: ws) (o :: outcomes) (l ++ r)

theorem evalWatches_judged (ws : List (Watch × Nat)) :
    Sat (JudgedAll tk id rp ws) (evalWatches B tk id rp ws) := by
  induction ws with
  | nil => exact sat_pure .nil
  | cons w ws ih =>
    refine sat_bind (evalWatch_judged B tk id rp w.2 w.1) fun o l hl => ?_
    refine sat_bind ih fun outcomes r hr => sat_pure ?_
    rw [List.append_nil]
    exact .cons hl hr

end Evaluation

section Membership
variable {tk : Tick} {id : ProgramId} {rp : RunningProgram} {idx : Nat} {w : Watch}
  {ws : List (Watch × Nat)} {o : WatchOutcome} {outcomes : List WatchOutcome} {os : List Obs}

theorem Passed.of_mem {l : Lifetime} (h : Passed id idx l os) {x : Obs} (hx : x ∈ os) :
    ∃ r, x = .perceived id (.until idx) r ∧ ∀ v, r = .ok v → v.truthy = false := by
  cases h with
  | without => exact absurd hx List.not_mem_nil
  | @«until» name r h => exact ⟨r, List.mem_singleton.mp hx, h⟩

theorem Passed.watchOf {l : Lifetime} (h : Passed id idx l os) :
    ∀ x ∈ os, x.watchOf = some idx := by
  intro x hx
  obtain ⟨r, rfl, _⟩ := h.of_mem hx
  rfl

theorem Judged.watchOf (h : Judged tk id rp idx w o os) :
    (∀ x ∈ os, x.watchOf = some idx) ∧ ∀ i, o.watchOf = some i → i = idx := by
  cases h with
  | retired => exact ⟨fun x hx => absurd hx List.not_mem_nil, fun i hi => nomatch hi⟩
  | terminated =>
    refine ⟨fun x hx => ?_, fun i hi => (Option.some.inj hi).symm⟩
    rw [List.mem_singleton.mp hx]
    rfl
  | erred hr hp =>
    refine ⟨fun x hx => ?_, fun i hi => nomatch hi⟩
    rcases List.mem_append.mp hx with hx | hx
    · exact hp.watchOf x hx
    · rw [List.mem_singleton.mp hx]
      rfl
  | judged hr hp =>
    refine ⟨fun x hx => ?_, fun i hi => (Option.some.inj hi).symm⟩
    rcases List.mem_append.mp hx with hx | hx
    · exact hp.watchOf x hx
    · rcases List.mem_cons.mp hx with rfl | hx
      · rfl
      · rw [List.mem_singleton.mp hx]
        rfl

theorem JudgedAll.watchOf (h : JudgedAll tk id rp ws outcomes os) :
    (∀ x ∈ os, ∃ w ∈ ws, x.watchOf = some w.2) ∧
      ∀ o ∈ outcomes, ∀ i, o.watchOf = some i → ∃ w ∈ ws, w.2 = i := by
  induction h with
  | nil => exact ⟨fun x hx => absurd hx List.not_mem_nil, fun o ho => absurd ho List.not_mem_nil⟩
  | cons h _ ih =>
    constructor
    · intro x hx
      rcases List.mem_append.mp hx with hx | hx
      · exact ⟨_, List.mem_cons_self, h.watchOf.1 x hx⟩
      · obtain ⟨w, hw, hx⟩ := ih.1 x hx
        exact ⟨w, List.mem_cons_of_mem _ hw, hx⟩
    · intro o ho i hi
      rcases List.mem_cons.mp ho with rfl | ho
      · exact ⟨_, List.mem_cons_self, (h.watchOf.2 i hi).symm⟩
      · obtain ⟨w, hw, hx⟩ := ih.2 o ho i hi
        exact ⟨w, List.mem_cons_of_mem _ hw, hx⟩

/-- The part of an evaluation that is about one watch: its outcome is the only one for that
watch, and its record is all there is about it. -/
structure Isolated (tk : Tick) (id : ProgramId) (rp : RunningProgram) (idx : Nat) (w : Watch)
    (o : WatchOutcome) (own : List Obs) (outcomes : List WatchOutcome) (os : List Obs) : Prop where
  judged : Judged tk id rp idx w o own
  outcome : Keyed.Sole WatchOutcome.watchOf (some idx) o outcomes
  record : ∃ l r, os = l ++ own ++ r ∧ ∀ x ∈ l ++ r, x.watchOf ≠ some idx

theorem JudgedAll.isolate (h : JudgedAll tk id rp ws outcomes os)
    (hs : Keyed.Sole Prod.snd idx (w, idx) ws) :
    ∃ o own, Isolated tk id rp idx w o own outcomes os := by
  obtain ⟨l, r, rfl, hne⟩ := hs
  -- the induction is on the watches judged before, none of which is the one looked for
  induction l generalizing outcomes os with
  | nil =>
    cases h with
    | @cons _ _ o outs own os h t =>
      refine ⟨o, own, h, ⟨[], outs, rfl, ?_⟩, ⟨[], os, rfl, ?_⟩⟩
      · intro x hx hi
        obtain ⟨v, hv, hi⟩ := t.watchOf.2 x hx idx hi
        exact hne v hv hi
      · intro x hx hi
        obtain ⟨v, hv, hx⟩ := t.watchOf.1 x hx
        exact hne v hv (Option.some.inj (hx.symm.trans hi))
  | cons v l ih =>
    cases h with
    | @cons _ _ o₀ outs own₀ os h t =>
      obtain ⟨o, own, hj, ⟨lo, ro, rfl, ho⟩, ⟨ls, rs, rfl, hr⟩⟩ :=
        ih (fun y hy => hne y (List.mem_cons_of_mem _ hy)) t
      have hv : v.2 ≠ idx := hne v List.mem_cons_self
      refine ⟨o, own, hj, ⟨o₀ :: lo, ro, rfl, ?_⟩, ⟨own₀ ++ ls, rs, by simp, ?_⟩⟩
      · intro x hx hi
        rcases List.mem_cons.mp hx with rfl | hx
        · exact hv (h.watchOf.2 idx hi).symm
        · exact ho x hx hi
      · intro x hx hi
        rw [List.append_assoc] at hx
        rcases List.mem_append.mp hx with hx | hx
        · exact hv (Option.some.inj ((h.watchOf.1 x hx).symm.trans hi))
        · exact hr x hx hi

theorem zipIdx_sole {l : List Watch} (hw : l[idx]? = some w) :
    Keyed.Sole Prod.snd idx (w, idx) l.zipIdx := by
  have hn : (l.zipIdx.map Prod.snd).Nodup := by
    rw [List.zipIdx_map_snd]
    exact List.nodup_range'
  exact Keyed.sole_of_nodup hn (List.mem_zipIdx_iff_getElem?.mpr hw)

theorem Isolated.own_subset {own : List Obs} (h : Isolated tk id rp idx w o own outcomes os) :
    ∀ x ∈ own, x ∈ os := by
  intro x hx
  obtain ⟨l, r, rfl, _⟩ := h.record
  exact List.mem_append_left _ (List.mem_append_right _ hx)

theorem Isolated.mem_own {own : List Obs} (h : Isolated tk id rp idx w o own outcomes os) {x : Obs}
    (hx : x ∈ os) (hi : x.watchOf = some idx) : x ∈ own := by
  obtain ⟨l, r, rfl, hne⟩ := h.record
  rcases List.mem_append.mp hx with hx | hx
  · rcases List.mem_append.mp hx with hx | hx
    · exact absurd hi (hne x (List.mem_append_left _ hx))
    · exact hx
  · exact absurd hi (hne x (List.mem_append_right _ hx))

theorem JudgedAll.isolate_watch (h : JudgedAll tk id rp rp.program.watches.zipIdx outcomes os)
    (hw : rp.program.watches[idx]? = some w) :
    ∃ o own, Isolated tk id rp idx w o own outcomes os := h.isolate (zipIdx_sole hw)

theorem JudgedAll.watch_of_mem (h : JudgedAll tk id rp rp.program.watches.zipIdx outcomes os)
    {x : Obs} (hx : x ∈ os) (hi : x.watchOf = some idx) :
    ∃ w, rp.program.watches[idx]? = some w := by
  obtain ⟨w, hw, hi'⟩ := h.watchOf.1 x hx
  obtain rfl : w.2 = idx := Option.some.inj (hi'.symm.trans hi)
  exact ⟨w.1, List.mem_zipIdx_iff_getElem?.mp hw⟩

/-- The record of a watch holds a decision only if its outcome is that decision, taken on
the perceived condition before it. -/
theorem Judged.of_decided (h : Judged tk id rp idx w o os) {i : ProgramId} {j : Nat}
    {d : WatchDecision} (hx : .decided i j d ∈ os) :
    ∃ r, o = .judged idx r.truthy d ∧ .perceived id (.watch idx) (.ok r) ∈ os ∧
      d = verdictOn tk rp idx w r.truthy := by
  cases h with
  | retired => exact absurd hx List.not_mem_nil
  | terminated => simp at hx
  | erred hr hp =>
    rcases List.mem_append.mp hx with hpre | hlast
    · obtain ⟨_, heq, _⟩ := hp.of_mem hpre
      cases heq
    · simp at hlast
  | @judged pre r hr hp =>
    rcases List.mem_append.mp hx with hpre | hlast
    · obtain ⟨_, heq, _⟩ := hp.of_mem hpre
      cases heq
    · have hd : d = verdictOn tk rp idx w r.truthy := by
        simp only [List.mem_cons, reduceCtorEq, Obs.decided.injEq, List.not_mem_nil, or_false,
          false_or] at hlast
        exact hlast.2.2
      exact ⟨r, by rw [hd], List.mem_append_right _ List.mem_cons_self, hd⟩

theorem JudgedAll.of_decided (h : JudgedAll tk id rp rp.program.watches.zipIdx outcomes os)
    {i : ProgramId} {d : WatchDecision} (hx : .decided i idx d ∈ os) :
    ∃ w r, rp.program.watches[idx]? = some w ∧ .judged idx r.truthy d ∈ outcomes ∧
      .perceived id (.watch idx) (.ok r) ∈ os ∧ d = verdictOn tk rp idx w r.truthy := by
  obtain ⟨w, hw⟩ := h.watch_of_mem hx rfl
  obtain ⟨o, own, hiso⟩ := h.isolate_watch hw
  obtain ⟨r, rfl, hr, hd⟩ := hiso.judged.of_decided (hiso.mem_own hx rfl)
  exact ⟨w, r, hw, hiso.outcome.mem, hiso.own_subset _ hr, hd⟩

theorem JudgedAll.decided_mem (h : JudgedAll tk id rp rp.program.watches.zipIdx outcomes os)
    {t : Bool} {d : WatchDecision} (ho : .judged idx t d ∈ outcomes) :
    .decided id idx d ∈ os := by
  obtain ⟨w, hw, hi⟩ := h.watchOf.2 _ ho idx rfl
  obtain ⟨o, own, hiso⟩ := h.isolate_watch (w := w.1) (hi ▸ List.mem_zipIdx_iff_getElem?.mp hw)
  have heq := hiso.outcome.eq_of_mem ho rfl
  have hsub := hiso.own_subset
  cases hiso.judged with
  | retired | terminated | erred => exact nomatch heq
  | judged hr hp =>
    obtain ⟨-, -, rfl⟩ := WatchOutcome.judged.inj heq
    exact hsub _ (List.mem_append_right _ (List.mem_cons_of_mem _ List.mem_cons_self))

end Membership

section Bookkeeping
variable {rp : RunningProgram} {idx : Nat}

theorem watch_modifyWatch_self (f : WatchRuntime → WatchRuntime) :
    (rp.modifyWatch idx f).watch idx = f (rp.watch idx) := by
  simp [RunningProgram.modifyWatch, RunningProgram.watch]

theorem watch_modifyWatch_ne {i : Nat} (f : WatchRuntime → WatchRuntime) (h : i ≠ idx) :
    (rp.modifyWatch i f).watch idx = rp.watch idx := by
  simp [RunningProgram.modifyWatch, RunningProgram.watch, Std.ExtTreeMap.getElem?_insert, h]

def SameButWatches (a b : RunningProgram) : Prop := ∃ m, a = { b with watchState := m }

theorem SameButWatches.refl (a : RunningProgram) : SameButWatches a a := ⟨a.watchState, rfl⟩

theorem SameButWatches.trans {a b c : RunningProgram} (h : SameButWatches a b)
    (h' : SameButWatches b c) : SameButWatches a c := by
  obtain ⟨m, rfl⟩ := h
  obtain ⟨n, rfl⟩ := h'
  exact ⟨m, rfl⟩

section Fold
variable {α : Type} (k : α → Nat) (g : α → WatchRuntime → WatchRuntime)

def sweep (rp : RunningProgram) (as : List α) : RunningProgram :=
  as.foldl (fun rp a => rp.modifyWatch (k a) (g a)) rp

theorem sweep_append (as bs : List α) :
    sweep k g rp (as ++ bs) = sweep k g (sweep k g rp as) bs := List.foldl_append

theorem sweep_same (rp : RunningProgram) (as : List α) : SameButWatches (sweep k g rp as) rp := by
  induction as generalizing rp with
  | nil => exact .refl rp
  | cons a as ih => exact (ih _).trans ⟨_, rfl⟩

theorem watch_sweep_ne (rp : RunningProgram) {as : List α} (h : ∀ a ∈ as, k a ≠ idx) :
    (sweep k g rp as).watch idx = rp.watch idx := by
  induction as generalizing rp with
  | nil => rfl
  | cons a as ih =>
    have hrest := ih (rp.modifyWatch (k a) (g a)) fun b hb => h b (List.mem_cons_of_mem _ hb)
    exact hrest.trans (watch_modifyWatch_ne _ (h a List.mem_cons_self))

theorem watch_sweep_sole (rp : RunningProgram) {as : List α} {a : α}
    (h : Keyed.Sole k idx a as) (ha : k a = idx) :
    (sweep k g rp as).watch idx = g a (rp.watch idx) := by
  obtain ⟨l, r, rfl, hne⟩ := h
  have hl := watch_sweep_ne k g rp fun b hb => hne b (List.mem_append_left r hb)
  have hr := watch_sweep_ne k g ((sweep k g rp l).modifyWatch (k a) (g a))
    fun b hb => hne b (List.mem_append_right l hb)
  have hsplit : sweep k g rp (l ++ a :: r) =
      sweep k g ((sweep k g rp l).modifyWatch (k a) (g a)) r := sweep_append k g l (a :: r)
  rw [hsplit, hr, ha, watch_modifyWatch_self, hl]

end Fold

theorem updateProgram_eq (e : ProgEval) (rp : RunningProgram) :
    updateProgram e rp = sweep (fun i => i) (fun _ wr => { wr with retired := true })
      (sweep Prod.fst (fun t wr => { wr with lastTruthy := t.2 }) rp e.truthies) e.retires := rfl

def WatchOutcome.settle : WatchOutcome → WatchRuntime → WatchRuntime
  | inert, wr => wr
  | terminated _, wr => { wr with retired := true }
  | judged _ t .retire, wr => { wr with lastTruthy := t, retired := true }
  | judged _ t _, wr => { wr with lastTruthy := t }

section Settle
variable {e : ProgEval} {o : WatchOutcome}

theorem truthyEdge_key {y : WatchOutcome} {z : Nat × Bool} (h : y.truthyEdge = some z) :
    some z.1 = y.watchOf := by
  cases y with
  | inert | terminated => simp [WatchOutcome.truthyEdge] at h
  | judged i t d =>
    rw [← Option.some.inj h]
    rfl

theorem retirement_key {y : WatchOutcome} {z : Nat} (h : y.retirement = some z) :
    some z = y.watchOf := by
  cases y with
  | inert => simp [WatchOutcome.retirement] at h
  | terminated i =>
    rw [← Option.some.inj h]
    rfl
  | judged i t d =>
    cases d with
    | skip | fire => simp [WatchOutcome.retirement] at h
    | retire =>
      rw [← Option.some.inj h]
      rfl

theorem watch_updateProgram (hs : Keyed.Sole WatchOutcome.watchOf (some idx) o e.outcomes)
    (ho : ∀ i, o.watchOf = some i → i = idx) (rp : RunningProgram) :
    (updateProgram e rp).watch idx = o.settle (rp.watch idx) := by
  have hts : ∀ {t : Nat × Bool}, o.truthyEdge = some t → Keyed.Sole Prod.fst idx t e.truthies :=
    fun h => (hs.filterMap_some (fun _ _ => truthyEdge_key) h).of_some
  have hta : o.truthyEdge = none → Keyed.Absent Prod.fst idx e.truthies :=
    fun h => (hs.filterMap_none (fun _ _ => truthyEdge_key) h).of_some
  have hrs : ∀ {i : Nat}, o.retirement = some i → Keyed.Sole (fun i => i) idx i e.retires :=
    fun h => (hs.filterMap_some (fun _ _ => retirement_key) h).of_some
  have hra : o.retirement = none → Keyed.Absent (fun i => i) idx e.retires :=
    fun h => (hs.filterMap_none (fun _ _ => retirement_key) h).of_some
  rw [updateProgram_eq]
  cases o with
  | inert => rw [watch_sweep_ne _ _ _ (hra rfl), watch_sweep_ne _ _ _ (hta rfl)]; rfl
  | terminated i =>
    obtain rfl := ho i rfl
    rw [watch_sweep_sole _ _ _ (hrs rfl) rfl, watch_sweep_ne _ _ _ (hta rfl)]
    rfl
  | judged i t d =>
    obtain rfl := ho i rfl
    cases d with
    | skip | fire =>
      rw [watch_sweep_ne _ _ _ (hra rfl), watch_sweep_sole _ _ _ (hts rfl) rfl]
      rfl
    | retire =>
      rw [watch_sweep_sole _ _ _ (hrs rfl) rfl, watch_sweep_sole _ _ _ (hts rfl) rfl]
      rfl

end Settle

theorem updateProgram_same (e : ProgEval) (rp : RunningProgram) :
    SameButWatches (updateProgram e rp) rp := by
  rw [updateProgram_eq]
  exact (sweep_same _ _ _ _).trans (sweep_same _ _ _ _)

end Bookkeeping

section Fires
variable {tk : Tick} {id : ProgramId} {rp : RunningProgram} {idx : Nat} {w : Watch}
  {outcomes : List WatchOutcome}

theorem mem_firesOf {f : WatchFire} :
    f ∈ firesOf rp outcomes ↔ ∃ idx t w, WatchOutcome.judged idx t .fire ∈ outcomes ∧
      rp.program.watches[idx]? = some w ∧ f = ⟨idx, w.steps, decide (w.lifetime = .oneShot)⟩ := by
  unfold firesOf
  rw [List.mem_filterMap]
  constructor
  · rintro ⟨o, ho, hf⟩
    cases o with
    | inert | terminated => simp at hf
    | judged idx t d =>
      cases d with
      | skip | retire => simp at hf
      | fire =>
        obtain ⟨w, hw, rfl⟩ := Option.map_eq_some_iff.mp hf
        exact ⟨idx, t, w, ho, hw, rfl⟩
  · rintro ⟨idx, t, w, ho, hw, rfl⟩
    exact ⟨_, ho, by simp [hw]⟩

end Fires

end Vcli

import Vcli.Perception.Isolation
import Vcli.Perception.Tick

/-! The clocks of `elapsed_ms_since_true` over a run of captured ticks. A clock is looked at when
a predicate over its child is evaluated, and only then; in a tick that does so, it says since
when the child has been true, as far as it was looked at. -/

namespace Vcli

open Fallible

namespace Perception

structure Query where
  program : ProgramId
  predicates : Predicates
  assets : Assets
  name : String

structure Pass where
  frame : Frame
  nowMs : UnixMs
  queries : List Query

def Pass.ctx (t : Pass) (x : Query) : EvalCtx :=
  ⟨t.frame, t.nowMs, x.predicates, x.assets, some x.program⟩

def Pass.run (L : Libs) (fuel : Nat) (t : Pass) : List Query → Memory → Except Crash Memory
  | [], m => .ok m
  | x :: rest, m => do
    let r ← evaluateNamed L fuel (t.ctx x) x.name m
    t.run L fuel rest r.2

structure Passage where
  pass : Pass
  before : Memory
  after : Memory

def runPasses (L : Libs) (fuel : Nat) : List Pass → Memory → Except Crash (List Passage)
  | [], _ => .ok []
  | t :: ts, m => do
    let m' ← t.run L fuel t.queries m.clear
    let rest ← runPasses L fuel ts m'
    return ⟨t, m, m'⟩ :: rest

def Passage.Holds (L : Libs) (fuel : Nat) (w : Profile) (key : ProgramPredKey) (x : Passage) :
    Prop :=
  ∃ r m', (evaluateNamed L fuel
    ⟨x.pass.frame, x.pass.nowMs, w.predicates, w.assets, some key.program⟩
    key.predicate).Returns x.after (.ok r) m' ∧ r.truthy = true

instance (L : Libs) (fuel : Nat) (w : Profile) (key : ProgramPredKey) (x : Passage) :
    Decidable (x.Holds L fuel w key) :=
  match h : evaluateNamed L fuel
      ⟨x.pass.frame, x.pass.nowMs, w.predicates, w.assets, some key.program⟩
      key.predicate x.after with
  | .ok (.ok r, m') =>
    if htrue : r.truthy = true then isTrue ⟨r, m', h, htrue⟩
    else isFalse fun ⟨_, _, hret, htrue'⟩ => htrue (Except.ok.inj (Returns.unique h hret).1 ▸ htrue')
  | .ok (.error _, _) => isFalse fun ⟨_, _, hret, _⟩ => nomatch (Returns.unique h hret).1
  | .error _ => isFalse fun ⟨_, _, hret, _⟩ => nomatch h.symm.trans hret

/-- The digest of `elapsed_ms_since_true` over the predicate of `key`. -/
def dial (L : Libs) (key : ProgramPredKey) (ms : UInt32) : PredicateHash :=
  hashPredicate L (.elapsedMsSinceTrue key.predicate ms)

/-- For `ms` milliseconds up to the end of `past`, in every captured tick, the predicate of `key`
would be evaluated to true. -/
def Sustained (L : Libs) (fuel : Nat) (w : Profile) (key : ProgramPredKey) (ms : UInt32)
    (past : List Passage) (nowMs : UnixMs) : Prop :=
  ∃ earlier first since, past = earlier ++ first :: since ∧
    (ms.toNat : Int) ≤ nowMs - first.pass.nowMs ∧
    ∀ x ∈ first :: since, x.Holds L fuel w key

/-- The clock of `key` runs into the tick and is not looked at, although its predicate does not
hold in the tick. `D` are the delays that are asked for. -/
structure Passage.Overlooks (L : Libs) (fuel : Nat) (w : Profile) (key : ProgramPredKey)
    (D : UInt32 → Prop) (x : Passage) : Prop where
  running : (x.before.firstTrueAt.lookup key).isSome = true
  unseen : ∀ ms, D ms → x.after.cache.lookup (dial L key ms) = none
  fallen : ¬ x.Holds L fuel w key

section Still
variable {L : Libs} {key : ProgramPredKey} {D : UInt32 → Prop} {c : EvalCtx}
  {program : ProgramId} {S : String → Prop} {m₀ : Memory}

/-- The clock of `key` and the answers read from it are those of `m₀`. -/
structure Still (L : Libs) (key : ProgramPredKey) (D : UInt32 → Prop) (m₀ m : Memory) : Prop where
  timer : m.firstTrueAt.lookup key = m₀.firstTrueAt.lookup key
  answers : ∀ ms, D ms → m.cache.lookup (dial L key ms) = m₀.cache.lookup (dial L key ms)

/-- Evaluations of names of `S` neither turn the clock of `key` nor answer in its place. -/
structure Silent (L : Libs) (key : ProgramPredKey) (D : UInt32 → Prop) (program : ProgramId)
    (predicates : Predicates) (S : String → Prop) : Prop where
  closed : Closed predicates S
  clock : ∀ child ms, Held predicates S (.elapsedMsSinceTrue child ms) →
    (⟨program, child⟩ : ProgramPredKey) ≠ key
  digest : ∀ s, Held predicates S s → ∀ ms, D ms → hashPredicate L s ≠ dial L key ms

theorem Still.remember {m : Memory} (h : Still L key D m₀ m) {hash : PredicateHash}
    (hne : ∀ ms, D ms → hash ≠ dial L key ms) (v : PredicateResult) :
    Still L key D m₀ (m.remember hash v) where
  timer := h.timer
  answers := by
    intro ms hms
    rw [lookup_remember_ne (hne ms hms).symm]
    exact h.answers ms hms

theorem still_untouched {p : PredicateKind}
    (hne : ∀ child ms, p = .elapsedMsSinceTrue child ms →
      (⟨program, child⟩ : ProgramPredKey) ≠ key) :
    Untouched program p (Still L key D m₀) where
  setTimer := by
    intro child ms hp m atMs hm
    refine ⟨?_, fun ms hms => ?_⟩
    · rw [lookup_setFirstTrueAt_ne (hne child ms hp).symm]
      exact hm.timer
    · rw [setFirstTrueAt_cache]
      exact hm.answers ms hms
  clearTimer := by
    intro child ms hp m hm
    refine ⟨?_, hm.answers⟩
    rw [lookup_clearFirstTrueAt_ne (hne child ms hp).symm]
    exact hm.timer
  snapshot := fun m _ _ hm => ⟨hm.timer, hm.answers⟩

theorem node_still (hS : Silent L key D program c.predicates S) (hc : c.program = some program)
    {ev : String → Nat → Eval PredicateResult}
    (hev : ∀ n, S n → ∀ depth, Yields (Still L key D m₀) (ev n depth) fun _ => True)
    {p : PredicateKind} (hp : Held c.predicates S p) (depth : Nat) :
    Yields (Still L key D m₀) (memoize (hashPredicate L p) (dispatch L c ev depth p))
      fun _ => True := by
  refine yields_memoize (fun _ _ _ _ => trivial) ?_ fun m v hm _ => ?_
  · refine node_keeps hc (still_untouched fun child ms heq => ?_) (fun n hn d => ?_) depth
    · exact hS.clock child ms (heq ▸ hp)
    · exact hev n (hS.closed p hp n hn) d
  · exact hm.remember (hS.digest p hp) v

theorem nodes_still (hS : Silent L key D program c.predicates S) (hc : c.program = some program) :
    NodesKeep L c S (Still L key D m₀) :=
  fun _ hev _ hp depth => node_still hS hc hev hp depth

end Still

section Clocked
variable {L : Libs} {key : ProgramPredKey} {D : UInt32 → Prop} {q : PredicateKind}
  {τ : Option UnixMs} {nowMs : UnixMs} {c : EvalCtx} {S : String → Prop} {m m' : Memory}

def settled (τ : Option UnixMs) (nowMs : UnixMs) (truthy : Bool) : Option UnixMs :=
  if truthy then some (τ.getD nowMs) else none

/-- In this tick the child `q` has the value `truthy`, and the clock was set accordingly. -/
structure Judged (L : Libs) (key : ProgramPredKey) (q : PredicateKind) (τ : Option UnixMs)
    (nowMs : UnixMs) (truthy : Bool) (m : Memory) : Prop where
  shown : (m.cache.lookup (hashPredicate L q)).map (·.truthy) = some truthy
  timer : m.firstTrueAt.lookup key = settled τ nowMs truthy

/-- At any moment of a tick: the clock is as it was before the tick, or was looked at; every
answer read from it came from such a look. -/
structure Clocked (L : Libs) (key : ProgramPredKey) (D : UInt32 → Prop) (q : PredicateKind)
    (τ : Option UnixMs) (nowMs : UnixMs) (m : Memory) : Prop where
  edge : m.firstTrueAt.lookup key = τ ∨ ∃ truthy, Judged L key q τ nowMs truthy m
  answer : ∀ ms, D ms → ∀ r, m.cache.lookup (dial L key ms) = some r →
    ∃ truthy, Judged L key q τ nowMs truthy m ∧
      (r.truthy = true → truthy = true ∧ (ms.toNat : Int) ≤ nowMs - τ.getD nowMs)

/-- The evaluations that the program of `key` asks for on names of `S`. The child of the clock is
`q`, and nothing that shares the digest of `q` depends on it. -/
structure Reads (L : Libs) (key : ProgramPredKey) (D : UInt32 → Prop) (q : PredicateKind)
    (predicates : Predicates) (S : String → Prop) : Prop where
  closed : Closed predicates S
  delay : ∀ ms, Held predicates S (.elapsedMsSinceTrue key.predicate ms) → D ms
  own : ∀ s, Held predicates S s → ∀ ms, D ms → hashPredicate L s = dial L key ms →
    s = .elapsedMsSinceTrue key.predicate ms
  child : ∀ ms, Held predicates S (.elapsedMsSinceTrue key.predicate ms) →
    predicates[key.predicate]? = some q
  above : ∀ s, Held predicates S s → hashPredicate L s = hashPredicate L q →
    ∀ k ∈ s.children, ¬ Reaches predicates k key.predicate

theorem Judged.congr {truthy : Bool} (h : Judged L key q τ nowMs truthy m)
    (hq : ∀ v, m.cache.lookup (hashPredicate L q) = some v →
      m'.cache.lookup (hashPredicate L q) = some v)
    (htimer : m'.firstTrueAt.lookup key = m.firstTrueAt.lookup key) :
    Judged L key q τ nowMs truthy m' := by
  obtain ⟨v, hv, htruthy⟩ := Option.map_eq_some_iff.mp h.shown
  refine ⟨?_, htimer.trans h.timer⟩
  rw [hq v hv, Option.map_some, htruthy]

theorem Clocked.congr (h : Clocked L key D q τ nowMs m) (hstill : Still L key D m m')
    (hq : ∀ v, m.cache.lookup (hashPredicate L q) = some v →
      m'.cache.lookup (hashPredicate L q) = some v) : Clocked L key D q τ nowMs m' where
  edge := by
    rcases h.edge with hτ | ⟨truthy, hjudged⟩
    · exact .inl (hstill.timer.trans hτ)
    · exact .inr ⟨truthy, hjudged.congr hq hstill.timer⟩
  answer := by
    intro ms hms r hr
    rw [hstill.answers ms hms] at hr
    obtain ⟨truthy, hjudged, htrue⟩ := h.answer ms hms r hr
    exact ⟨truthy, hjudged.congr hq hstill.timer, htrue⟩

theorem still_self : Still L key D m m := ⟨rfl, fun _ _ => rfl⟩

theorem clocked_untouched {program : ProgramId} {p : PredicateKind}
    (hne : ∀ child ms, p = .elapsedMsSinceTrue child ms →
      (⟨program, child⟩ : ProgramPredKey) ≠ key) :
    Untouched program p (Clocked L key D q τ nowMs) where
  setTimer := by
    intro child ms hp m atMs hm
    refine hm.congr ((still_untouched hne).setTimer child ms hp m atMs still_self) fun v hv => ?_
    rwa [setFirstTrueAt_cache]
  clearTimer := by
    intro child ms hp m hm
    exact hm.congr ((still_untouched hne).clearTimer child ms hp m still_self) fun v hv => hv
  snapshot := by
    intro m k snapshot hm
    exact hm.congr ⟨rfl, fun _ _ => rfl⟩ fun v hv => hv

theorem evaluateNamed_clocked_foreign {program : ProgramId}
    (hS : Silent L key D program c.predicates S) (hc : c.program = some program) {fuel : Nat}
    {name : String} (hname : S name) :
    Yields (Clocked L key D q τ nowMs) (evaluateNamed L fuel c name) fun _ => True := by
  intro m r m' hm hret
  have hstill := evaluateNamed_keeps (nodes_still hS hc) _ hname still_self hret
  refine ⟨hm.congr hstill.1 fun v hv => ?_, trivial⟩
  exact (evaluateNamed_persists hc name hv hret).1

theorem Clocked.unseen (h : Clocked L key D q τ nowMs m)
    (hq : m.cache.lookup (hashPredicate L q) = none) :
    m.firstTrueAt.lookup key = τ ∧ ∀ ms, D ms → m.cache.lookup (dial L key ms) = none := by
  have hjudged : ∀ truthy, ¬ Judged L key q τ nowMs truthy m := by
    intro truthy hjudged
    have hshown := hjudged.shown
    rw [hq] at hshown
    exact nomatch hshown
  refine ⟨h.edge.resolve_right fun ⟨truthy, ht⟩ => hjudged truthy ht, fun ms hms => ?_⟩
  cases hr : m.cache.lookup (dial L key ms) with
  | none => rfl
  | some r =>
    obtain ⟨truthy, ht, -⟩ := h.answer ms hms r hr
    exact absurd ht (hjudged truthy)

theorem clocked_of_unseen (htimer : m.firstTrueAt.lookup key = τ)
    (hnone : ∀ ms, D ms → m.cache.lookup (dial L key ms) = none) :
    Clocked L key D q τ nowMs m where
  edge := .inl htimer
  answer := by
    intro ms hms r hr
    rw [hnone ms hms] at hr
    exact nomatch hr

end Clocked

section Look
variable {L : Libs} {key : ProgramPredKey} {D : UInt32 → Prop} {q : PredicateKind}
  {τ : Option UnixMs} {c : EvalCtx} {m m' : Memory} {v : PredicateResult}

theorem evalElapsed_returns {program : ProgramId} (hc : c.program = some program)
    {child : String} {ms : UInt32} {x : Eval PredicateResult}
    {r : Except PerceptionError PredicateResult}
    (h : (evalElapsed c child ms x).Returns m r m') :
    (∃ e, r = .error e ∧ x.Returns m (.error e) m') ∨
      ∃ v m₁, x.Returns m (.ok v) m₁ ∧
        (v.truthy = true ∧ m' = m₁.setFirstTrueAt ⟨program, child⟩ c.nowMs ∧
            r = .ok ⟨decide ((ms.toNat : Int) ≤ UnixMs.saturatingSub c.nowMs
              ((m₁.firstTrueAt.lookup ⟨program, child⟩).getD c.nowMs)), none, c.nowMs⟩ ∨
          v.truthy = false ∧ m' = m₁.clearFirstTrueAt ⟨program, child⟩ ∧
            r = .ok ⟨false, none, c.nowMs⟩) := by
  rw [evalElapsed, hc] at h
  rcases returns_bind.mp h with ⟨e, hx, hr⟩ | ⟨v, m₁, hx, hrest⟩
  · exact .inl ⟨e, hr, hx⟩
  refine .inr ⟨v, m₁, hx, ?_⟩
  split_ifs at hrest with hv
  · have hret : r = .ok _ ∧ m' = m₁.setFirstTrueAt ⟨program, child⟩ c.nowMs :=
      returns_pure.mp hrest
    refine .inl ⟨hv, hret.2, ?_⟩
    rw [hret.1, lookup_setFirstTrueAt_self]
    rfl
  · have hret : r = .ok _ ∧ m' = m₁.clearFirstTrueAt ⟨program, child⟩ := returns_pure.mp hrest
    exact .inr ⟨Bool.eq_false_iff.mpr hv, hret.2, hret.1⟩

theorem Judged.eq {nowMs : UnixMs} {truthy : Bool} (h : Judged L key q τ nowMs truthy m)
    (hv : m.cache.lookup (hashPredicate L q) = some v) : truthy = v.truthy := by
  have hshown := h.shown
  rw [hv] at hshown
  exact (Option.some.inj hshown).symm

theorem Clocked.getD_timer {nowMs : UnixMs} (h : Clocked L key D q τ nowMs m)
    (hv : m.cache.lookup (hashPredicate L q) = some v) (htrue : v.truthy = true) :
    (m.firstTrueAt.lookup key).getD nowMs = τ.getD nowMs := by
  rcases h.edge with hτ | ⟨truthy, hjudged⟩
  · rw [hτ]
  · rw [hjudged.timer, hjudged.eq hv, htrue]
    rfl

theorem Clocked.look {nowMs : UnixMs} (h : Clocked L key D q τ nowMs m)
    (hv : m.cache.lookup (hashPredicate L q) = some v) (hcache : m'.cache = m.cache)
    (htimer : m'.firstTrueAt.lookup key = settled τ nowMs v.truthy) :
    Judged L key q τ nowMs v.truthy m' ∧ Clocked L key D q τ nowMs m' := by
  have hjudged : Judged L key q τ nowMs v.truthy m' := by
    refine ⟨?_, htimer⟩
    rw [hcache, hv]
    rfl
  refine ⟨hjudged, .inr ⟨v.truthy, hjudged⟩, fun ms hms r hr => ⟨v.truthy, hjudged, ?_⟩⟩
  rw [hcache] at hr
  obtain ⟨truthy, hbefore, htrue⟩ := h.answer ms hms r hr
  rwa [← hbefore.eq hv]

theorem Clocked.remember_answer {nowMs : UnixMs} (h : Clocked L key D q τ nowMs m) {truthy : Bool}
    (hjudged : Judged L key q τ nowMs truthy m) {ms : UInt32} (hne : hashPredicate L q ≠ dial L key ms)
    (hv : v.truthy = true → truthy = true ∧ (ms.toNat : Int) ≤ nowMs - τ.getD nowMs) :
    Clocked L key D q τ nowMs (m.remember (dial L key ms) v) := by
  have hafter : ∀ {truthy}, Judged L key q τ nowMs truthy m →
      Judged L key q τ nowMs truthy (m.remember (dial L key ms) v) := by
    intro truthy ht
    refine ht.congr (fun w hw => ?_) rfl
    rwa [lookup_remember_ne hne]
  refine ⟨.inr ⟨truthy, hafter hjudged⟩, fun ms' hms' r hr => ?_⟩
  by_cases heq : dial L key ms' = dial L key ms
  · have hms : ms' = ms := by
      have hnode := congrArg PredicateHash.digested heq
      exact (PredicateKind.elapsedMsSinceTrue.inj hnode).2
    rw [heq, lookup_remember_self] at hr
    rw [← Option.some.inj hr, hms]
    exact ⟨truthy, hafter hjudged, hv⟩
  · rw [lookup_remember_ne heq] at hr
    obtain ⟨truthy', ht, htrue⟩ := h.answer ms' hms' r hr
    exact ⟨truthy', hafter ht, htrue⟩

end Look

section Own
variable {L : Libs} {key : ProgramPredKey} {D : UInt32 → Prop} {q s : PredicateKind}
  {τ : Option UnixMs} {c : EvalCtx} {S : String → Prop} {fuel : Nat}

theorem Closed.reaches {predicates : Predicates} (h : Closed predicates S) {n k : String}
    (hn : S n) (hreach : Reaches predicates n k) : S k := by
  induction hreach with
  | refl => exact hn
  | tail _ hstep ih =>
    obtain ⟨p, hp, hk⟩ := hstep
    exact h p ⟨_, ih, hp⟩ _ hk

theorem Reads.silent {predicates : Predicates} (hR : Reads L key D q predicates S)
    (hs : Held predicates S s) (hsame : hashPredicate L s = hashPredicate L q) :
    Silent L key D key.program predicates (Needed predicates s.children) := by
  have hsub : ∀ k, Needed predicates s.children k → S k := by
    rintro k ⟨n, hn, hreach⟩
    exact hR.closed.reaches (hR.closed s hs n hn) hreach
  have hnot : ∀ ms, ¬ Held predicates (Needed predicates s.children)
      (.elapsedMsSinceTrue key.predicate ms) := by
    intro ms hheld
    obtain ⟨n, hn, hreach⟩ :=
      needed_closed predicates s.children _ hheld key.predicate List.mem_cons_self
    exact hR.above s hs hsame n hn hreach
  refine ⟨needed_closed predicates s.children, ?_, ?_⟩
  · intro child ms hheld heq
    obtain rfl : child = key.predicate := congrArg ProgramPredKey.predicate heq
    exact hnot ms hheld
  · intro p hp ms hms hdigest
    obtain rfl := hR.own p (hp.mono hsub) ms hms hdigest
    exact hnot ms hp

theorem node_clocked_child (hR : Reads L key D q c.predicates S)
    (hc : c.program = some key.program) (hs : Held c.predicates S s)
    (hsame : hashPredicate L s = hashPredicate L q) (depth : Nat) :
    Yields (Clocked L key D q τ c.nowMs)
      (memoize (hashPredicate L s) (dispatch L c (evaluateNamedWithDepth L c fuel) depth s))
      fun _ => True := by
  have hclock : ∀ child ms, s = .elapsedMsSinceTrue child ms →
      (⟨key.program, child⟩ : ProgramPredKey) ≠ key := by
    rintro child ms rfl heq
    obtain rfl : child = key.predicate := congrArg ProgramPredKey.predicate heq
    exact hR.above _ hs hsame _ List.mem_cons_self .refl
  have hdial : ∀ ms, D ms → hashPredicate L s ≠ dial L key ms := by
    intro ms hms hdigest
    exact hclock _ ms (hR.own s hs ms hms hdigest) rfl
  have hstill : ∀ m, Yields (Still L key D m)
      (dispatch L c (evaluateNamedWithDepth L c fuel) depth s) fun _ => True := by
    intro m
    refine node_keeps hc (still_untouched hclock) (fun n hn d => ?_) depth
    exact evaluateNamedWithDepth_keeps (nodes_still (hR.silent hs hsame) hc) _ (needed_self hn) d
  intro m r m' hm hret
  refine ⟨?_, trivial⟩
  rcases memoize_returns hret with ⟨v, -, -, rfl⟩ | ⟨hnone, hmiss⟩
  · exact hm
  -- the child has no value yet, so the clock has not been looked at
  rw [hsame] at hnone
  obtain ⟨htimer, hunseen⟩ := hm.unseen hnone
  rcases hmiss with ⟨e, -, hx⟩ | ⟨v, m₁, -, hx, rfl⟩
  · have hafter := (hstill m still_self hx).1
    exact clocked_of_unseen (hafter.timer.trans htimer)
      fun ms hms => (hafter.answers ms hms).trans (hunseen ms hms)
  · have hafter := (hstill m still_self hx).1.remember hdial v
    exact clocked_of_unseen (hafter.timer.trans htimer)
      fun ms hms => (hafter.answers ms hms).trans (hunseen ms hms)

theorem evaluateNamedWithDepth_cached {name : String} {p : PredicateKind} {depth : Nat}
    {v : PredicateResult} {m m' : Memory} (hp : c.predicates[name]? = some p)
    (h : (evaluateNamedWithDepth L c fuel name depth).Returns m (.ok v) m') :
    m'.cache.lookup (hashPredicate L p) = some v := by
  cases fuel with
  | zero => exact absurd h not_returns_crash
  | succ fuel =>
    rw [evaluateNamedWithDepth, hp] at h
    split_ifs at h
    · cases (returns_fail.mp h).1
    · exact memoize_cached h

theorem node_clocked_look (hR : Reads L key D q c.predicates S)
    (hc : c.program = some key.program) {ms : UInt32}
    (hs : Held c.predicates S (.elapsedMsSinceTrue key.predicate ms))
    (hev : Yields (Clocked L key D q τ c.nowMs)
      (evaluateNamedWithDepth L c fuel key.predicate 0) fun _ => True) (depth : Nat) :
    Yields (Clocked L key D q τ c.nowMs)
      (memoize (dial L key ms) (dispatch L c (evaluateNamedWithDepth L c fuel) depth
        (.elapsedMsSinceTrue key.predicate ms))) fun _ => True := by
  have hchild := hR.child ms hs
  have hq : Held c.predicates S q :=
    ⟨key.predicate, hR.closed _ hs _ List.mem_cons_self, hchild⟩
  have hne : hashPredicate L q ≠ dial L key ms := by
    intro hdigest
    obtain rfl := hR.own q hq ms (hR.delay ms hs) hdigest
    exact hR.above _ hq rfl _ List.mem_cons_self .refl
  intro m r m' hm hret
  refine ⟨?_, trivial⟩
  -- a cached answer leaves everything as it is, and an error can only be one of the child
  rcases memoize_returns hret with ⟨v, -, -, rfl⟩ | ⟨-, ⟨e, rfl, hx⟩ | ⟨v, m₁, rfl, hx, rfl⟩⟩
  · exact hm
  · rcases evalElapsed_returns hc hx with ⟨_, -, hev'⟩ | ⟨_, _, _, ⟨_, _, hr⟩ | ⟨_, _, hr⟩⟩
    · exact (hev hm hev').1
    · exact nomatch hr
    · exact nomatch hr
  · rcases evalElapsed_returns hc hx with ⟨_, hr, -⟩ | ⟨w, m₂, hev', hlook⟩
    · exact nomatch hr
    have hm₂ := (hev hm hev').1
    have hw : m₂.cache.lookup (hashPredicate L q) = some w :=
      evaluateNamedWithDepth_cached hchild hev'
    rcases hlook with ⟨htrue, rfl, hr⟩ | ⟨hfalse, rfl, hr⟩
    -- the timer keeps the first time it saw the child hold, now being that time if there was none
    · have hfirst := hm₂.getD_timer hw htrue
      have htimer : (m₂.setFirstTrueAt key c.nowMs).firstTrueAt.lookup key =
          settled τ c.nowMs w.truthy := by
        rw [lookup_setFirstTrueAt_self, hfirst, htrue]
        rfl
      obtain ⟨hjudged, hlooked⟩ := hm₂.look hw setFirstTrueAt_cache htimer
      refine hlooked.remember_answer hjudged hne fun hv => ⟨htrue, ?_⟩
      rw [Except.ok.inj hr] at hv
      rw [← hfirst]
      exact (UnixMs.le_saturatingSub_iff _ _ _).mp (of_decide_eq_true hv)
    · have htimer : (m₂.clearFirstTrueAt key).firstTrueAt.lookup key =
          settled τ c.nowMs w.truthy := by
        rw [lookup_clearFirstTrueAt_self, hfalse]
        rfl
      have hcleared : Judged L key q τ c.nowMs w.truthy (m₂.clearFirstTrueAt key) ∧
          Clocked L key D q τ c.nowMs (m₂.clearFirstTrueAt key) := hm₂.look hw rfl htimer
      obtain ⟨hjudged, hlooked⟩ := hcleared
      refine hlooked.remember_answer hjudged hne fun hv => ?_
      rw [Except.ok.inj hr] at hv
      exact nomatch hv

theorem node_clocked_other (hR : Reads L key D q c.predicates S)
    (hc : c.program = some key.program) (hs : Held c.predicates S s)
    (hsame : hashPredicate L s ≠ hashPredicate L q)
    (hlook : ∀ ms, s ≠ .elapsedMsSinceTrue key.predicate ms)
    (hev : ∀ n ∈ s.children, ∀ depth, Yields (Clocked L key D q τ c.nowMs)
      (evaluateNamedWithDepth L c fuel n depth) fun _ => True) (depth : Nat) :
    Yields (Clocked L key D q τ c.nowMs)
      (memoize (hashPredicate L s) (dispatch L c (evaluateNamedWithDepth L c fuel) depth s))
      fun _ => True := by
  refine yields_memoize (fun _ _ _ _ => trivial) ?_ fun m v hm _ => ?_
  · refine node_keeps hc (clocked_untouched ?_) hev depth
    rintro child ms rfl heq
    obtain rfl : child = key.predicate := congrArg ProgramPredKey.predicate heq
    exact hlook ms rfl
  · refine hm.congr (still_self.remember ?_ v) fun w hw => ?_
    · exact fun ms hms hdigest => hlook ms (hR.own s hs ms hms hdigest)
    · rwa [lookup_remember_ne hsame.symm]

theorem node_clocked (hR : Reads L key D q c.predicates S)
    (hc : c.program = some key.program) (hs : Held c.predicates S s)
    (hev : ∀ n ∈ s.children, ∀ depth, Yields (Clocked L key D q τ c.nowMs)
      (evaluateNamedWithDepth L c fuel n depth) fun _ => True) (depth : Nat) :
    Yields (Clocked L key D q τ c.nowMs)
      (memoize (hashPredicate L s) (dispatch L c (evaluateNamedWithDepth L c fuel) depth s))
      fun _ => True := by
  by_cases hsame : hashPredicate L s = hashPredicate L q
  · exact node_clocked_child hR hc hs hsame depth
  by_cases hlook : ∃ ms, s = .elapsedMsSinceTrue key.predicate ms
  · obtain ⟨ms, rfl⟩ := hlook
    exact node_clocked_look hR hc hs (hev _ List.mem_cons_self 0) depth
  · exact node_clocked_other hR hc hs hsame (fun ms heq => hlook ⟨ms, heq⟩) hev depth

theorem evaluateNamed_clocked (hR : Reads L key D q c.predicates S)
    (hc : c.program = some key.program) {name : String} (hname : S name) :
    Yields (Clocked L key D q τ c.nowMs) (evaluateNamed L fuel c name) fun _ => True := by
  refine evaluateNamed_keeps (fun fuel hev p hheld depth => ?_) fuel hname
  exact node_clocked hR hc hheld (fun n hn d => hev n (hR.closed p hheld n hn) d) depth

end Own

section Run
variable {L : Libs} {fuel : Nat} {w : Profile} {key : ProgramPredKey} {D : UInt32 → Prop}
  {q : PredicateKind}

def Pass.Orderly (L : Libs) (key : ProgramPredKey) (D : UInt32 → Prop) (q : PredicateKind)
    (t : Pass) : Prop :=
  ∀ x ∈ t.queries,
    (x.program = key.program ∧ Reads L key D q x.predicates (Reaches x.predicates x.name)) ∨
      Silent L key D x.program x.predicates (Reaches x.predicates x.name)

theorem run_clocked {t : Pass} {τ : Option UnixMs} {l : List Query}
    (hl : ∀ x ∈ l,
      (x.program = key.program ∧ Reads L key D q x.predicates (Reaches x.predicates x.name)) ∨
        Silent L key D x.program x.predicates (Reaches x.predicates x.name))
    {m m' : Memory} (hm : Clocked L key D q τ t.nowMs m) (hrun : t.run L fuel l m = .ok m') :
    Clocked L key D q τ t.nowMs m' := by
  induction l generalizing m with
  | nil => rwa [← Except.ok.inj hrun]
  | cons x l ih =>
    obtain ⟨r, hcall, hrest⟩ := bind_eq_ok.mp hrun
    refine ih (fun y hy => hl y (List.mem_cons_of_mem x hy)) ?_ hrest
    rcases hl x List.mem_cons_self with ⟨hown, hR⟩ | hS
    · have hc : (t.ctx x).program = some key.program := congrArg some hown
      exact (evaluateNamed_clocked (c := t.ctx x) hR hc .refl hm hcall).1
    · exact (evaluateNamed_clocked_foreign (c := t.ctx x) hS rfl .refl hm hcall).1

theorem Pass.Orderly.clocked {t : Pass} (ht : t.Orderly L key D q) {m m' : Memory}
    (hrun : t.run L fuel t.queries m.clear = .ok m') :
    Clocked L key D q (m.firstTrueAt.lookup key) t.nowMs m' := by
  have hstart : Clocked L key D q (m.firstTrueAt.lookup key) t.nowMs m.clear :=
    clocked_of_unseen rfl fun _ _ => rfl
  exact run_clocked ht hstart hrun

/-- A clock that runs was started in a tick of the past, and in no tick since then has its
predicate been false. -/
def Started (L : Libs) (fuel : Nat) (w : Profile) (key : ProgramPredKey) (past : List Passage)
    (τ : Option UnixMs) : Prop :=
  ∀ startMs ∈ τ, ∃ earlier first since, past = earlier ++ first :: since ∧
    first.pass.nowMs = startMs ∧ ∀ x ∈ first :: since, x.Holds L fuel w key

theorem Judged.holds {x : Passage} {τ : Option UnixMs} {nowMs : UnixMs}
    (hq : w.predicates[key.predicate]? = some q) (h : Judged L key q τ nowMs true x.after) :
    x.Holds L fuel w key := by
  obtain ⟨v, hv, htrue⟩ := Option.map_eq_some_iff.mp h.shown
  exact ⟨v, x.after, evaluateNamed_hit hq hv, htrue⟩

theorem Started.extend {past : List Passage} {x : Passage} {τ : Option UnixMs}
    (h : Started L fuel w key past τ) (hx : x.Holds L fuel w key) :
    Started L fuel w key (past ++ [x]) (some (τ.getD x.pass.nowMs)) := by
  rintro startMs ⟨⟩
  cases hτ : τ with
  | none =>
    refine ⟨past, x, [], rfl, rfl, fun y hy => ?_⟩
    rwa [List.mem_singleton.mp hy]
  | some startMs =>
    obtain ⟨earlier, first, since, rfl, hfirst, hholds⟩ := h startMs hτ
    refine ⟨earlier, first, since ++ [x], by simp, hfirst, fun y hy => ?_⟩
    rw [← List.cons_append] at hy
    rcases List.mem_append.mp hy with hy | hy
    · exact hholds y hy
    · rwa [List.mem_singleton.mp hy]

theorem started_step {past : List Passage} {x : Passage}
    (hq : w.predicates[key.predicate]? = some q)
    (hclocked : Clocked L key D q (x.before.firstTrueAt.lookup key) x.pass.nowMs x.after)
    (hseen : ¬ x.Overlooks L fuel w key D)
    (h : Started L fuel w key past (x.before.firstTrueAt.lookup key)) :
    Started L fuel w key (past ++ [x]) (x.after.firstTrueAt.lookup key) := by
  have hjudge : ∀ truthy,
      Judged L key q (x.before.firstTrueAt.lookup key) x.pass.nowMs truthy x.after →
      Started L fuel w key (past ++ [x]) (x.after.firstTrueAt.lookup key) := by
    intro truthy hjudged
    rw [hjudged.timer]
    cases truthy with
    | true => exact h.extend (hjudged.holds hq)
    | false => exact fun _ hstart => nomatch hstart
  rcases hclocked.edge with hsame | ⟨truthy, hjudged⟩
  · rw [hsame]
    intro startMs hstart
    by_cases hunseen : ∀ ms, D ms → x.after.cache.lookup (dial L key ms) = none
    · -- nobody looked, so the predicate still holds
      have hholds : x.Holds L fuel w key := by
        by_contra hfallen
        exact hseen ⟨by rw [Option.mem_def.mp hstart]; rfl, hunseen, hfallen⟩
      have hext := h.extend hholds
      rw [Option.mem_def.mp hstart] at hext
      exact hext startMs rfl
    · push Not at hunseen
      obtain ⟨ms, hms, hanswer⟩ := hunseen
      obtain ⟨r, hr⟩ := Option.ne_none_iff_exists'.mp hanswer
      obtain ⟨truthy, hjudged, -⟩ := hclocked.answer ms hms r hr
      refine hjudge truthy hjudged startMs ?_
      rwa [hsame]
  · exact hjudge truthy hjudged

theorem Clocked.sustained {past : List Passage} {x : Passage}
    (hq : w.predicates[key.predicate]? = some q)
    (hclocked : Clocked L key D q (x.before.firstTrueAt.lookup key) x.pass.nowMs x.after)
    (h : Started L fuel w key past (x.before.firstTrueAt.lookup key)) {ms : UInt32} (hms : D ms)
    {r : PredicateResult} (hr : x.after.cache.lookup (dial L key ms) = some r)
    (htrue : r.truthy = true) :
    Sustained L fuel w key ms (past ++ [x]) x.pass.nowMs := by
  obtain ⟨truthy, hjudged, hlong⟩ := hclocked.answer ms hms r hr
  obtain ⟨rfl, hms'⟩ := hlong htrue
  obtain ⟨earlier, first, since, hpast, hfirst, hholds⟩ := h.extend (hjudged.holds hq) _ rfl
  exact ⟨earlier, first, since, hpast, by rwa [hfirst], hholds⟩

/-- Tick after tick, as long as no fall of the predicate is overlooked. -/
theorem runPasses_sustained (hq : w.predicates[key.predicate]? = some q) {ts : List Pass}
    {m : Memory} {trail : List Passage} (hrun : runPasses L fuel ts m = .ok trail)
    (horderly : ∀ t ∈ ts, t.Orderly L key D q) (hseen : ∀ x ∈ trail, ¬ x.Overlooks L fuel w key D)
    {past : List Passage} (hpast : Started L fuel w key past (m.firstTrueAt.lookup key))
    {front : List Passage} {x : Passage} {rest : List Passage} (htrail : trail = front ++ x :: rest)
    {ms : UInt32} (hms : D ms) {r : PredicateResult}
    (hr : x.after.cache.lookup (dial L key ms) = some r) (htrue : r.truthy = true) :
    Sustained L fuel w key ms (past ++ front ++ [x]) x.pass.nowMs := by
  -- tick by tick, with what the timer shows as the invariant
  induction ts generalizing m trail past front with
  | nil =>
    obtain rfl := Except.ok.inj hrun
    exact absurd htrail.symm (by simp)
  | cons t ts ih =>
    obtain ⟨m', hpass, htail⟩ := bind_eq_ok.mp hrun
    obtain ⟨trail', hrest, hout⟩ := bind_eq_ok.mp htail
    have hfirst : trail = ⟨t, m, m'⟩ :: trail' := (Except.ok.inj hout).symm
    have hclocked := (horderly t List.mem_cons_self).clocked hpass
    cases front with
    | nil =>
      obtain ⟨rfl, -⟩ := List.cons.inj (hfirst.symm.trans htrail)
      rw [List.append_nil]
      exact Clocked.sustained hq hclocked hpast hms hr htrue
    | cons y front =>
      obtain ⟨rfl, htrail'⟩ := List.cons.inj (hfirst.symm.trans htrail)
      rw [hfirst] at hseen
      have hstep : Started L fuel w key (past ++ [⟨t, m, m'⟩]) (m'.firstTrueAt.lookup key) :=
        started_step (x := ⟨t, m, m'⟩) hq hclocked (hseen _ List.mem_cons_self) hpast
      have hmore := ih hrest (fun t' ht' => horderly t' (List.mem_cons_of_mem t ht'))
        (fun z hz => hseen z (List.mem_cons_of_mem _ hz)) hstep htrail'
      simpa using hmore

end Run

end Perception

end Vcli

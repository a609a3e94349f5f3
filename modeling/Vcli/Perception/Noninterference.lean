import Vcli.Perception.Meaning

/-! Programs that share the cache of a tick. The key of a cached result is the digest of a node
alone, so a program can be given the result of another program's predicate; it is not, as long
as the nodes that two programs have in common are decided by the frame in the same way for
both. -/

namespace Vcli

open Fallible

namespace Perception

section Memory
variable {m : Memory} {hash hash' : PredicateHash} {v : PredicateResult} {key key' : ProgramPredKey}
  {atMs : UnixMs}

theorem lookup_remember_self : (m.remember hash v).cache.lookup hash = some v :=
  AList.lookup_insert _

theorem lookup_remember_ne (h : hash' ≠ hash) :
    (m.remember hash v).cache.lookup hash' = m.cache.lookup hash' := AList.lookup_insert_ne h

theorem setFirstTrueAt_cache : (m.setFirstTrueAt key atMs).cache = m.cache := by
  unfold Memory.setFirstTrueAt
  split <;> rfl

theorem setFirstTrueAt_priorSnapshots :
    (m.setFirstTrueAt key atMs).priorSnapshots = m.priorSnapshots := by
  unfold Memory.setFirstTrueAt
  split <;> rfl

theorem lookup_setFirstTrueAt_self :
    (m.setFirstTrueAt key atMs).firstTrueAt.lookup key =
      some ((m.firstTrueAt.lookup key).getD atMs) := by
  unfold Memory.setFirstTrueAt
  split
  · rename_i h
    rw [h]
    rfl
  · rename_i h
    rw [h]
    exact AList.lookup_insert _

theorem lookup_setFirstTrueAt_ne (h : key' ≠ key) :
    (m.setFirstTrueAt key atMs).firstTrueAt.lookup key' = m.firstTrueAt.lookup key' := by
  unfold Memory.setFirstTrueAt
  split
  · rfl
  · exact AList.lookup_insert_ne h

theorem lookup_clearFirstTrueAt_self :
    (m.clearFirstTrueAt key).firstTrueAt.lookup key = none := AList.lookup_erase _ _

theorem lookup_clearFirstTrueAt_ne (h : key' ≠ key) :
    (m.clearFirstTrueAt key).firstTrueAt.lookup key' = m.firstTrueAt.lookup key' :=
  AList.lookup_erase_ne h

end Memory

/-- A node of `S` keeps `I` as long as the calls below it do. -/
def NodesKeep (L : Libs) (c : EvalCtx) (S : String → Prop) (I : Memory → Prop) : Prop :=
  ∀ fuel, (∀ n, S n → ∀ depth, Yields I (evaluateNamedWithDepth L c fuel n depth) fun _ => True) →
    ∀ p, Held c.predicates S p → ∀ depth, Yields I
      (memoize (hashPredicate L p) (dispatch L c (evaluateNamedWithDepth L c fuel) depth p))
      fun _ => True

section Calls
variable {L : Libs} {c : EvalCtx} {S : String → Prop} {I : Memory → Prop}

theorem evaluateNamedWithDepth_keeps (h : NodesKeep L c S I) (fuel : Nat) {name : String}
    (hname : S name) (depth : Nat) :
    Yields I (evaluateNamedWithDepth L c fuel name depth) fun _ => True := by
  induction fuel generalizing name depth with
  | zero => exact yields_crash
  | succ fuel ih =>
    rw [evaluateNamedWithDepth]
    split_ifs
    · exact yields_fail trivial
    · split
      · exact yields_fail trivial
      next p hp => exact h fuel (fun n hn d => ih hn d) p ⟨name, hname, hp⟩ _

theorem evaluateNamed_keeps (h : NodesKeep L c S I) (fuel : Nat) {name : String}
    (hname : S name) : Yields I (evaluateNamed L fuel c name) fun _ => True := by
  unfold evaluateNamed
  split
  · exact yields_fail trivial
  next p hp =>
    exact h fuel (fun n hn d => evaluateNamedWithDepth_keeps h fuel hn d) p ⟨name, hname, hp⟩ 0

end Calls

section Memoize
variable {hash : PredicateHash} {x y : Eval PredicateResult}

theorem memoize_returns {m m' : Memory} {r : Except PerceptionError PredicateResult}
    (h : (memoize hash x).Returns m r m') :
    (∃ v, m.cache.lookup hash = some v ∧ r = .ok v ∧ m' = m) ∨
      (m.cache.lookup hash = none ∧ ((∃ e, r = .error e ∧ x.Returns m r m') ∨
        ∃ v m₁, r = .ok v ∧ x.Returns m r m₁ ∧ m' = m₁.remember hash v)) := by
  rcases returns_bind.mp h with ⟨e, hget, _⟩ | ⟨m₀, m₁, hget, hrest⟩
  · exact nomatch (returns_get.mp hget).1
  obtain ⟨hm₀, rfl⟩ := returns_get.mp hget
  obtain rfl := Except.ok.inj hm₀
  cases hlook : m₀.cache.lookup hash with
  | some v =>
    rw [hlook] at hrest
    obtain ⟨rfl, rfl⟩ := returns_pure.mp hrest
    exact .inl ⟨v, rfl, rfl, rfl⟩
  | none =>
    rw [hlook] at hrest
    refine .inr ⟨rfl, ?_⟩
    rcases returns_bind.mp hrest with ⟨e, hx, rfl⟩ | ⟨v, m₂, hx, hput⟩
    · exact .inl ⟨e, rfl, hx⟩
    · rcases returns_bind.mp hput with ⟨e, hmod, _⟩ | ⟨_, m₃, hmod, hpure⟩
      · exact nomatch (returns_modify.mp hmod).1
      · obtain ⟨_, rfl⟩ := returns_modify.mp hmod
        obtain ⟨rfl, rfl⟩ := returns_pure.mp hpure
        exact .inr ⟨v, m₂, rfl, hx, rfl⟩

theorem yields_memoize {I : Memory → Prop} {Q : Except PerceptionError PredicateResult → Prop}
    (hhit : ∀ m v, I m → m.cache.lookup hash = some v → Q (.ok v)) (hx : Yields I x Q)
    (hput : ∀ m v, I m → Q (.ok v) → I (m.remember hash v)) : Yields I (memoize hash x) Q := by
  intro m r m' hI hret
  rcases memoize_returns hret with ⟨v, hv, rfl, rfl⟩ | ⟨_, ⟨e, _, hx'⟩ | ⟨v, m₁, rfl, hx', rfl⟩⟩
  · exact ⟨hI, hhit m' v hI hv⟩
  · exact hx hI hx'
  · obtain ⟨hI₁, hQ⟩ := hx hI hx'
    exact ⟨hput m₁ v hI₁ hQ, hQ⟩

theorem lockstep_memoize {R : Memory → Memory → Prop}
    (hsame : ∀ m n, R m n → m.cache.lookup hash = n.cache.lookup hash) (hx : Lockstep R x y)
    (hput : ∀ m n v, R m n → R (m.remember hash v) (n.remember hash v)) :
    Lockstep R (memoize hash x) (memoize hash y) := by
  intro m n r r' m' n' hR hret hret'
  have hlook := hsame m n hR
  rcases memoize_returns hret with ⟨v, hv, rfl, rfl⟩ | ⟨hnone, hmiss⟩
  · rcases memoize_returns hret' with ⟨v', hv', rfl, rfl⟩ | ⟨hnone', _⟩
    · rw [hv, hv'] at hlook
      exact ⟨by rw [Option.some.inj hlook], hR⟩
    · rw [hv, hnone'] at hlook
      exact nomatch hlook
  · rcases memoize_returns hret' with ⟨v', hv', _, _⟩ | ⟨_, hmiss'⟩
    · rw [hnone, hv'] at hlook
      exact nomatch hlook
    · rcases hmiss with ⟨e, rfl, hx₁⟩ | ⟨v, m₁, rfl, hx₁, rfl⟩ <;>
        rcases hmiss' with ⟨e', rfl, hy₁⟩ | ⟨v', n₁, rfl, hy₁, rfl⟩
      · exact hx hR hx₁ hy₁
      · exact nomatch (hx hR hx₁ hy₁).1
      · exact nomatch (hx hR hx₁ hy₁).1
      · obtain ⟨heq, hR'⟩ := hx hR hx₁ hy₁
        obtain rfl := Except.ok.inj heq
        exact ⟨rfl, hput m₁ n₁ v hR'⟩

end Memoize

/-- The nodes `C` of a program are decided by the frame: they have no memory and refer to each
other only. Among the names `S` no other node has their key. -/
structure Decided (L : Libs) (predicates : Predicates) (S : String → Prop)
    (C : PredicateKind → Prop) : Prop where
  names : Closed predicates S
  timeless : ∀ p, C p → p.isTimeless = true
  shallow : ∀ p, C p → p.isLogical = true → Shallow predicates S
  closed : ∀ p, C p → p.isLogical = true → ∀ n ∈ p.children, ∀ q, predicates[n]? = some q → C q
  sole : ∀ p q, Held predicates S p → Held predicates S q → C p →
    hashPredicate L p = hashPredicate L q → p = q

/-- Results cached for nodes of `C` are what these nodes mean. -/
def Sound (L : Libs) (c : EvalCtx) (S : String → Prop) (C : PredicateKind → Prop) (m : Memory) :
    Prop :=
  ∀ p, Held c.predicates S p → C p → ∀ v,
    m.cache.lookup (hashPredicate L p) = some v → Means L c p (.ok v)

/-- `m` is `m₀` as far as calls of the program on names of `S` can tell. -/
structure Intact (L : Libs) (c : EvalCtx) (id : ProgramId) (S : String → Prop)
    (C : PredicateKind → Prop) (m₀ m : Memory) : Prop where
  sound : Sound L c S C m
  timers : ∀ n, m.firstTrueAt.lookup ⟨id, n⟩ = m₀.firstTrueAt.lookup ⟨id, n⟩
  rest : ∀ p, Held c.predicates S p → ¬ C p →
    m.cache.lookup (hashPredicate L p) = m₀.cache.lookup (hashPredicate L p)

section Own
variable {L : Libs} {c : EvalCtx} {id : ProgramId} {S : String → Prop} {C : PredicateKind → Prop}
  {m₀ : Memory}

theorem Sound.remember {m : Memory} (hD : Decided L c.predicates S C) (h : Sound L c S C m)
    {p : PredicateKind} (hp : Held c.predicates S p) {v : PredicateResult}
    (hv : C p → Means L c p (.ok v)) : Sound L c S C (m.remember (hashPredicate L p) v) := by
  intro q hq hC v' hv'
  by_cases heq : hashPredicate L q = hashPredicate L p
  · obtain rfl := hD.sole q p hq hp hC heq
    rw [lookup_remember_self] at hv'
    rw [← Option.some.inj hv']
    exact hv hC
  · rw [lookup_remember_ne heq] at hv'
    exact h q hq hC v' hv'

/-- The program's own evaluation of a node that the frame decides. -/
theorem node_yields (hD : Decided L c.predicates S C) {ev : String → Nat → Eval PredicateResult}
    {depth : Nat} {p : PredicateKind} (hp : Held c.predicates S p) (hC : C p)
    (hev : p.isLogical = true → ∀ n ∈ p.children,
      Yields (Intact L c id S C m₀) (ev n depth) (NameMeans L c n)) :
    Yields (Intact L c id S C m₀) (memoize (hashPredicate L p) (dispatch L c ev depth p))
      (Means L c p) := by
  refine yields_memoize ?_ ?_ ?_
  · exact fun m v hI hv => hI.sound p hp hC v hv
  · cases hl : p.isLogical with
    | false => exact dispatch_yields_leaf rfl rfl (hD.timeless p hC) hl fun _ _ _ _ _ => rfl
    | true =>
      have hchildren : ∀ n ∈ p.children, Yields (Intact L c id S C m₀) (ev n depth)
          fun r => Accounted (fun _ => True) r → NameMeans L c n r :=
        fun n hn => (hev hl n hn).mono fun r hr _ => hr
      refine (dispatch_yields_logical rfl hl hchildren).mono ?_
      exact fun r hr => hr fun _ _ => trivial
  · intro m v hI hv
    refine ⟨hI.sound.remember hD hp fun _ => hv, hI.timers, ?_⟩
    intro q hq hnot
    have hne : hashPredicate L q ≠ hashPredicate L p := by
      intro heq
      rw [hD.sole p q hp hq hC heq.symm] at hC
      exact hnot hC
    rw [lookup_remember_ne hne]
    exact hI.rest q hq hnot

theorem name_yields (hD : Decided L c.predicates S C) (fuel : Nat) {n : String} {depth : Nat}
    (hS : S n) (hfits : Fits c.predicates (maxRecursionDepth - depth) n)
    (hC : ∀ p, c.predicates[n]? = some p → C p) :
    Yields (Intact L c id S C m₀) (evaluateNamedWithDepth L c fuel n depth)
      (NameMeans L c n) := by
  induction fuel generalizing n depth with
  | zero => exact yields_crash
  | succ fuel ih =>
    have hdepth : ¬ maxRecursionDepth ≤ depth := by
      intro hle
      rw [Nat.sub_eq_zero_of_le hle] at hfits
      exact hfits
    rw [evaluateNamedWithDepth, if_neg hdepth]
    cases hn : c.predicates[n]? with
    | none => exact yields_fail (nameMeans_none hn)
    | some p =>
      have hp : Held c.predicates S p := ⟨n, hS, hn⟩
      refine (node_yields hD hp (hC p hn) ?_).mono fun r hr => (nameMeans_some hn).mpr hr
      intro hl n' hn'
      apply ih (hD.names p hp n' hn')
      · have hsucc : maxRecursionDepth - depth = maxRecursionDepth - (depth + 1) + 1 := by omega
        rw [hsucc] at hfits
        exact hfits p hn hl n' hn'
      · exact hD.closed p (hC p hn) hl n' hn'

end Own

section Keeps
variable {L : Libs} {c : EvalCtx} {I : Memory → Prop}

/-- Conditions on the memory that the bookkeeping for `program` does not touch. -/
structure Unaffected (program : ProgramId) (I : Memory → Prop) : Prop where
  setTimer : ∀ m n atMs, I m → I (m.setFirstTrueAt ⟨program, n⟩ atMs)
  clearTimer : ∀ m n, I m → I (m.clearFirstTrueAt ⟨program, n⟩)
  snapshot : ∀ m key snapshot, I m → I (m.recordSnapshot key snapshot)

/-- Conditions on the memory that the bookkeeping for `program` at the node `p` does not touch. -/
structure Untouched (program : ProgramId) (p : PredicateKind) (I : Memory → Prop) : Prop where
  setTimer : ∀ child ms, p = .elapsedMsSinceTrue child ms → ∀ m atMs, I m →
    I (m.setFirstTrueAt ⟨program, child⟩ atMs)
  clearTimer : ∀ child ms, p = .elapsedMsSinceTrue child ms → ∀ m, I m →
    I (m.clearFirstTrueAt ⟨program, child⟩)
  snapshot : ∀ m key snapshot, I m → I (m.recordSnapshot key snapshot)

theorem Unaffected.untouched {program : ProgramId} (hI : Unaffected program I)
    (p : PredicateKind) : Untouched program p I where
  setTimer := fun child _ _ m atMs => hI.setTimer m child atMs
  clearTimer := fun child _ _ m => hI.clearTimer m child
  snapshot := hI.snapshot

theorem evalUntil_keeps {stop : Bool} {nowMs : UnixMs} {ev : String → Eval PredicateResult}
    {of : List String} (hev : ∀ n ∈ of, Yields I (ev n) fun _ => True) :
    Yields I (evalUntil stop nowMs ev of) fun _ => True := by
  induction of with
  | nil => exact yields_pure trivial
  | cons n of ih =>
    refine yields_bind (hev n List.mem_cons_self) (fun _ _ => trivial) fun a _ => ?_
    split_ifs
    · exact yields_pure trivial
    · exact ih fun m hm => hev m (List.mem_cons_of_mem _ hm)

theorem evalElapsed_keeps {program : ProgramId} (hc : c.program = some program)
    {child : String} {ms : UInt32} {x : Eval PredicateResult}
    (hset : ∀ m atMs, I m → I (m.setFirstTrueAt ⟨program, child⟩ atMs))
    (hclear : ∀ m, I m → I (m.clearFirstTrueAt ⟨program, child⟩))
    (hx : Yields I x fun _ => True) : Yields I (evalElapsed c child ms x) fun _ => True := by
  rw [evalElapsed, hc]
  refine yields_bind hx (fun _ _ => trivial) fun a _ => ?_
  split_ifs
  · refine yields_bind (yields_modify (Q := fun _ => True) ?_ trivial) (fun _ _ => trivial)
      fun _ _ => ?_
    · exact fun m hm => hset m c.nowMs hm
    · refine yields_bind (yields_get (Q := fun _ => True) fun _ _ => trivial) (fun _ _ => trivial)
        fun m _ => ?_
      exact yields_pure trivial
  · refine yields_bind (yields_modify (Q := fun _ => True) ?_ trivial) (fun _ _ => trivial)
      fun _ _ => yields_pure trivial
    exact fun m hm => hclear m hm

theorem evalPixelDiff_keeps {region : Region} {baseline : String} {threshold : F64}
    (hI : ∀ m key snapshot, I m → I (m.recordSnapshot key snapshot)) :
    Yields I (evalPixelDiff L c region baseline threshold) fun _ => True := by
  unfold evalPixelDiff
  split
  · refine yields_bind (yields_beside (Q := fun _ => True) fun _ _ => trivial) (fun _ _ => trivial)
      fun crop _ => ?_
    refine yields_bind (yields_get (Q := fun _ => True) fun _ _ => trivial) (fun _ _ => trivial)
      fun m _ => ?_
    refine yields_bind (yields_modify (Q := fun _ => True) ?_ trivial) (fun _ _ => trivial)
      fun _ _ => ?_
    · exact fun m hm => hI m _ _ hm
    · split <;> exact yields_pure trivial
  · exact yields_pure trivial

theorem node_keeps {program : ProgramId} (hc : c.program = some program)
    {ev : String → Nat → Eval PredicateResult} {p : PredicateKind}
    (hI : Untouched program p I)
    (hev : ∀ n ∈ p.children, ∀ depth, Yields I (ev n depth) fun _ => True)
    (depth : Nat) : Yields I (dispatch L c ev depth p) fun _ => True := by
  cases p with
  | colorAt | template => exact yields_beside fun _ _ => trivial
  | pixelDiff => exact evalPixelDiff_keeps hI.snapshot
  | allOf of | anyOf of => exact evalUntil_keeps fun n hn => hev n hn depth
  | not of =>
    refine yields_bind (hev of List.mem_cons_self depth) (fun _ _ => trivial) fun _ _ => ?_
    exact yields_pure trivial
  | elapsedMsSinceTrue child ms =>
    exact evalElapsed_keeps hc (hI.setTimer child ms rfl) (hI.clearTimer child ms rfl)
      (hev child List.mem_cons_self 0)

theorem dispatch_keeps {program : ProgramId} (hc : c.program = some program)
    (hI : Unaffected program I) {ev : String → Nat → Eval PredicateResult}
    {p : PredicateKind} (hev : ∀ n ∈ p.children, ∀ depth, Yields I (ev n depth) fun _ => True)
    (depth : Nat) : Yields I (dispatch L c ev depth p) fun _ => True :=
  node_keeps hc (hI.untouched p) hev depth

theorem timers_foreign {id program : ProgramId} (hne : program ≠ id) (m₀ : Memory) :
    Unaffected program fun m =>
      ∀ n, m.firstTrueAt.lookup ⟨id, n⟩ = m₀.firstTrueAt.lookup ⟨id, n⟩ := by
  have hkey : ∀ n n', (⟨id, n'⟩ : ProgramPredKey) ≠ ⟨program, n⟩ := by
    intro n n' heq
    exact hne (congrArg ProgramPredKey.program heq).symm
  refine ⟨?_, ?_, fun m _ _ hm => hm⟩
  · intro m n atMs hm n'
    rw [lookup_setFirstTrueAt_ne (hkey n n')]
    exact hm n'
  · intro m n hm n'
    rw [lookup_clearFirstTrueAt_ne (hkey n n')]
    exact hm n'

end Keeps

section Foreign
variable {L : Libs} {c c' : EvalCtx} {id program : ProgramId} {S S' : String → Prop}
  {C : PredicateKind → Prop} {m₀ : Memory}

/-- Nodes of `c` and `c'` with the same key are the same nodes, and `C` has them; the images and
the names they refer to are the same in both. -/
structure Apart (L : Libs) (c c' : EvalCtx) (S S' : String → Prop) (C : PredicateKind → Prop) :
    Prop where
  frame : c'.frame = c.frame
  nowMs : c'.nowMs = c.nowMs
  names : Closed c'.predicates S'
  nodes : ∀ p q, Held c.predicates S p → Held c'.predicates S' q →
    hashPredicate L p = hashPredicate L q → p = q ∧ C p
  images : ∀ image confidence region throttleMs,
    Held c.predicates S (.template image confidence region throttleMs) →
    Held c'.predicates S' (.template image confidence region throttleMs) →
    c.assets[assetKey image]? = c'.assets[assetKey image]?
  children : ∀ p, Held c.predicates S p → Held c'.predicates S' p → p.isLogical = true →
    ∀ k ∈ p.children, c.predicates[k]? = c'.predicates[k]?

theorem intact_foreign (hne : program ≠ id) (m₀ : Memory) :
    Unaffected program (Intact L c id S C m₀) := by
  have htimers := timers_foreign hne m₀
  refine ⟨?_, ?_, fun m _ _ hm => ⟨hm.sound, hm.timers, hm.rest⟩⟩
  · intro m n atMs hm
    refine ⟨?_, htimers.setTimer m n atMs hm.timers, ?_⟩
    · intro p hp hC v
      rw [setFirstTrueAt_cache]
      exact hm.sound p hp hC v
    · intro p hp hC
      rw [setFirstTrueAt_cache]
      exact hm.rest p hp hC
  · intro m n hm
    exact ⟨hm.sound, htimers.clearTimer m n hm.timers, hm.rest⟩

/-- What another program's evaluation of `name` says to the program of `c`: a result for a node
the two have in common is what the node means to either. -/
def Common (L : Libs) (c c' : EvalCtx) (S : String → Prop) (name : String)
    (r : Except PerceptionError PredicateResult) : Prop :=
  ∀ v, r = .ok v → ∃ q, c'.predicates[name]? = some q ∧
    (Held c.predicates S q → Means L c q (.ok v))

theorem foreign_node_yields (hD : Decided L c.predicates S C) (hA : Apart L c c' S S' C)
    (hc : c'.program = some program) (hne : program ≠ id)
    {ev : String → Nat → Eval PredicateResult} {depth : Nat} {q : PredicateKind} {n' : String}
    (hS' : S' n') (hn' : c'.predicates[n']? = some q)
    (hev : ∀ n depth, S' n → Yields (Intact L c id S C m₀) (ev n depth) (Common L c c' S n)) :
    Yields (Intact L c id S C m₀) (memoize (hashPredicate L q) (dispatch L c' ev depth q))
      (Common L c c' S n') := by
  have hq : Held c'.predicates S' q := ⟨n', hS', hn'⟩
  refine yields_memoize ?_ ?_ ?_
  · intro m v hI hv v' hv'
    obtain rfl := Except.ok.inj hv'
    refine ⟨q, hn', fun hp => ?_⟩
    exact hI.sound q hp (hA.nodes q q hp hq rfl).2 v hv
  -- a node that both programs have means the same to both, and any other concerns one of them only
  · by_cases hp : Held c.predicates S q
    · have hC : C q := (hA.nodes q q hp hq rfl).2
      have hmeans : Yields (Intact L c id S C m₀) (dispatch L c' ev depth q)
          fun r => Accounted (fun _ => False) r → Means L c q r := by
        cases hl : q.isLogical with
        | false =>
          refine (dispatch_yields_leaf hA.frame hA.nowMs (hD.timeless q hC) hl ?_).mono
            fun r hr _ => hr
          rintro image confidence region throttleMs rfl
          exact hA.images image confidence region throttleMs hp hq
        | true =>
          refine dispatch_yields_logical hA.nowMs hl fun k hk =>
            (hev k depth (hA.names q hq k hk)).mono ?_
          intro r hr hacc
          cases r with
          | error e => exact (hacc e rfl).elim
          | ok v =>
            obtain ⟨p, hpk, hmeans⟩ := hr v rfl
            have hpc : c.predicates[k]? = some p := (hA.children q hp hq hl k hk).trans hpk
            exact (nameMeans_some hpc).mpr (hmeans ⟨k, hD.names q hp k hk, hpc⟩)
      refine hmeans.mono ?_
      rintro r hr v rfl
      exact ⟨q, hn', fun _ => hr nofun⟩
    · have hkeeps : Yields (Intact L c id S C m₀) (dispatch L c' ev depth q) fun _ => True :=
        dispatch_keeps hc (intact_foreign hne m₀) (fun n hn depth =>
          (hev n depth (hA.names q hq n hn)).mono fun _ _ => trivial) depth
      exact hkeeps.mono fun r _ v _ => ⟨q, hn', fun h => absurd h hp⟩
  · intro m v hI hv
    obtain ⟨q', hq', hmeans⟩ := hv v rfl
    obtain rfl := Option.some.inj (hn'.symm.trans hq')
    refine ⟨?_, hI.timers, ?_⟩
    · intro p hp hC v' hv'
      -- the node itself is in the cache now, and another entry only if its key is another
      by_cases heq : hashPredicate L p = hashPredicate L q
      · obtain rfl := (hA.nodes p q hp hq heq).1
        rw [lookup_remember_self] at hv'
        rw [← Option.some.inj hv']
        exact hmeans hp
      · rw [lookup_remember_ne heq] at hv'
        exact hI.sound p hp hC v' hv'
    · intro p hp hC
      have hdiff : hashPredicate L p ≠ hashPredicate L q :=
        fun heq => hC (hA.nodes p q hp hq heq).2
      rw [lookup_remember_ne hdiff]
      exact hI.rest p hp hC

theorem foreign_name_yields (hD : Decided L c.predicates S C) (hA : Apart L c c' S S' C)
    (hc : c'.program = some program) (hne : program ≠ id) (fuel : Nat) (n : String) (depth : Nat)
    (hS' : S' n) :
    Yields (Intact L c id S C m₀) (evaluateNamedWithDepth L c' fuel n depth)
      (Common L c c' S n) := by
  induction fuel generalizing n depth with
  | zero => exact yields_crash
  | succ fuel ih =>
    rw [evaluateNamedWithDepth]
    split_ifs
    · exact yields_fail nofun
    · cases hn : c'.predicates[n]? with
      | none => exact yields_fail nofun
      | some q => exact foreign_node_yields hD hA hc hne hS' hn ih

end Foreign

structure Twin (L : Libs) (c : EvalCtx) (id : ProgramId) (S : String → Prop)
    (C : PredicateKind → Prop) (m n : Memory) : Prop where
  sound : Sound L c S C m
  intact : Intact L c id S C m n

section Twins
variable {L : Libs} {c : EvalCtx} {id : ProgramId} {S : String → Prop} {C : PredicateKind → Prop}
  {m n : Memory}

theorem Twin.left (h : Twin L c id S C m n) : Intact L c id S C m m :=
  ⟨h.sound, fun _ => rfl, fun _ _ _ => rfl⟩

theorem Twin.right (h : Twin L c id S C m n) : Intact L c id S C n n :=
  ⟨h.intact.sound, fun _ => rfl, fun _ _ _ => rfl⟩

theorem Twin.fewer {T : String → Prop} (h : Twin L c id S C m n) (hT : ∀ k, T k → S k) :
    Twin L c id T C m n := by
  refine ⟨?_, ?_, h.intact.timers, ?_⟩
  · exact fun p hp => h.sound p (hp.mono hT)
  · exact fun p hp => h.intact.sound p (hp.mono hT)
  · exact fun p hp => h.intact.rest p (hp.mono hT)

theorem Twin.after (h : Twin L c id S C m n) {m' n' : Memory} (hm : Intact L c id S C m m')
    (hn : Intact L c id S C n n') : Twin L c id S C m' n' := by
  refine ⟨hm.sound, hn.sound, ?_, ?_⟩
  · intro k
    rw [hn.timers k, h.intact.timers k, hm.timers k]
  · intro p hp hC
    rw [hn.rest p hp hC, h.intact.rest p hp hC, hm.rest p hp hC]

theorem Twin.remember (hD : Decided L c.predicates S C) (h : Twin L c id S C m n)
    {p : PredicateKind} (hp : Held c.predicates S p) (hC : ¬ C p) (v : PredicateResult) :
    Twin L c id S C (m.remember (hashPredicate L p) v) (n.remember (hashPredicate L p) v) := by
  refine ⟨h.sound.remember hD hp fun hnot => absurd hnot hC,
    h.intact.sound.remember hD hp fun hnot => absurd hnot hC, h.intact.timers, ?_⟩
  intro q hq hnot
  by_cases heq : hashPredicate L q = hashPredicate L p
  · rw [heq, lookup_remember_self, lookup_remember_self]
  · rw [lookup_remember_ne heq, lookup_remember_ne heq]
    exact h.intact.rest q hq hnot

theorem Twin.setTimer (h : Twin L c id S C m n) (k : String) (atMs : UnixMs) :
    Twin L c id S C (m.setFirstTrueAt ⟨id, k⟩ atMs) (n.setFirstTrueAt ⟨id, k⟩ atMs) := by
  refine ⟨?_, ?_, ?_, ?_⟩
  · intro p hp hC v
    rw [setFirstTrueAt_cache]
    exact h.sound p hp hC v
  · intro p hp hC v
    rw [setFirstTrueAt_cache]
    exact h.intact.sound p hp hC v
  · intro k'
    by_cases heq : k' = k
    · rw [heq, lookup_setFirstTrueAt_self, lookup_setFirstTrueAt_self, h.intact.timers k]
    · have hne : (⟨id, k'⟩ : ProgramPredKey) ≠ ⟨id, k⟩ :=
        fun he => heq (congrArg ProgramPredKey.predicate he)
      rw [lookup_setFirstTrueAt_ne hne, lookup_setFirstTrueAt_ne hne]
      exact h.intact.timers k'
  · intro p hp hC
    rw [setFirstTrueAt_cache, setFirstTrueAt_cache]
    exact h.intact.rest p hp hC

theorem Twin.clearTimer (h : Twin L c id S C m n) (k : String) :
    Twin L c id S C (m.clearFirstTrueAt ⟨id, k⟩) (n.clearFirstTrueAt ⟨id, k⟩) := by
  refine ⟨h.sound, h.intact.sound, ?_, h.intact.rest⟩
  intro k'
  by_cases heq : k' = k
  · rw [heq, lookup_clearFirstTrueAt_self, lookup_clearFirstTrueAt_self]
  · have hne : (⟨id, k'⟩ : ProgramPredKey) ≠ ⟨id, k⟩ :=
      fun he => heq (congrArg ProgramPredKey.predicate he)
    rw [lookup_clearFirstTrueAt_ne hne, lookup_clearFirstTrueAt_ne hne]
    exact h.intact.timers k'

theorem evalUntil_lockstep {R : Memory → Memory → Prop} {stop : Bool} {nowMs : UnixMs}
    {ev ev' : String → Eval PredicateResult} {of : List String}
    (h : ∀ k ∈ of, Lockstep R (ev k) (ev' k)) :
    Lockstep R (evalUntil stop nowMs ev of) (evalUntil stop nowMs ev' of) := by
  induction of with
  | nil => exact lockstep_pure _
  | cons k of ih =>
    refine lockstep_bind (h k List.mem_cons_self) fun a => ?_
    split_ifs
    · exact lockstep_pure _
    · exact ih fun k' hk' => h k' (List.mem_cons_of_mem _ hk')

theorem evalElapsed_lockstep (hc : c.program = some id) {child : String} {ms : UInt32}
    {x y : Eval PredicateResult} (h : Lockstep (Twin L c id S C) x y) :
    Lockstep (Twin L c id S C) (evalElapsed c child ms x) (evalElapsed c child ms y) := by
  rw [evalElapsed, evalElapsed, hc]
  refine lockstep_bind h fun a => ?_
  split_ifs
  · refine lockstep_bind (lockstep_modify fun m n hT => hT.setTimer child c.nowMs) fun _ => ?_
    refine lockstep_read ?_ lockstep_pure
    intro m n hT
    rw [hT.intact.timers child]
  · exact lockstep_bind (lockstep_modify fun m n hT => hT.clearTimer child) fun _ =>
      lockstep_pure _

theorem node_lockstep (hD : Decided L c.predicates S C) (hc : c.program = some id)
    {fuel fuel' depth : Nat} {p : PredicateKind} (hp : Held c.predicates S p)
    (hkind : ∀ region baseline threshold, p ≠ .pixelDiff region baseline threshold)
    (hfits : Shallow c.predicates S → p.isLogical = true →
      ∀ k ∈ p.children, Fits c.predicates (maxRecursionDepth - depth) k)
    (hev : ∀ k depth, S k →
      (Shallow c.predicates S → Fits c.predicates (maxRecursionDepth - depth) k) →
      Lockstep (Twin L c id S C) (evaluateNamedWithDepth L c fuel k depth)
        (evaluateNamedWithDepth L c fuel' k depth)) :
    Lockstep (Twin L c id S C)
      (memoize (hashPredicate L p) (dispatch L c (evaluateNamedWithDepth L c fuel) depth p))
      (memoize (hashPredicate L p) (dispatch L c (evaluateNamedWithDepth L c fuel') depth p)) := by
  by_cases hC : C p
  · -- both sides return what the node means
    have hown : ∀ fuel m₀, Yields (Intact L c id S C m₀)
        (memoize (hashPredicate L p) (dispatch L c (evaluateNamedWithDepth L c fuel) depth p))
        (Means L c p) := by
      intro fuel m₀
      refine node_yields hD hp hC fun hl k hk => ?_
      exact name_yields hD fuel (hD.names p hp k hk) (hfits (hD.shallow p hC hl) hl k hk)
        (hD.closed p hC hl k hk)
    intro m n r r' m' n' hT hret hret'
    obtain ⟨hm, hr⟩ := hown fuel m hT.left hret
    obtain ⟨hn, hr'⟩ := hown fuel' n hT.right hret'
    exact ⟨hr.unique hr', hT.after hm hn⟩
  · refine lockstep_memoize ?_ ?_ fun m n v hT => hT.remember hD hp hC v
    · exact fun m n hT => (hT.intact.rest p hp hC).symm
    · have hS := hD.names p hp
      cases p with
      | colorAt | template => exact lockstep_beside _
      | pixelDiff region baseline threshold => exact absurd rfl (hkind region baseline threshold)
      | allOf of | anyOf of =>
        exact evalUntil_lockstep fun k hk => hev k depth (hS k hk) fun hs => hfits hs rfl k hk
      | not of =>
        have hof := List.mem_cons_self (a := of) (l := [])
        refine lockstep_bind (hev of depth (hS of hof) fun hs => hfits hs rfl of hof) ?_
        exact fun _ => lockstep_pure _
      | elapsedMsSinceTrue child ms =>
        -- below a timer the depth starts over
        have hchild := List.mem_cons_self (a := child) (l := [])
        exact evalElapsed_lockstep hc (hev child 0 (hS child hchild) fun hs => hs _ hp child hchild)

theorem name_lockstep (hD : Decided L c.predicates S C) (hc : c.program = some id)
    (hkinds : ∀ (k : String) region baseline threshold,
      c.predicates[k]? ≠ some (.pixelDiff region baseline threshold))
    (fuel fuel' : Nat) {k : String} {depth : Nat} (hS : S k)
    (hfits : Shallow c.predicates S → Fits c.predicates (maxRecursionDepth - depth) k) :
    Lockstep (Twin L c id S C) (evaluateNamedWithDepth L c fuel k depth)
      (evaluateNamedWithDepth L c fuel' k depth) := by
  induction fuel generalizing fuel' k depth with
  | zero => exact lockstep_crash_left
  | succ fuel ih =>
    cases fuel' with
    | zero => exact lockstep_crash_right
    | succ fuel' =>
      rw [evaluateNamedWithDepth, evaluateNamedWithDepth]
      split_ifs with hdepth
      · exact lockstep_fail _
      · cases hk : c.predicates[k]? with
        | none => exact lockstep_fail _
        | some p =>
          refine node_lockstep hD hc ⟨k, hS, hk⟩ ?_ ?_ fun k' depth' hS' hfits' =>
            ih fuel' hS' hfits'
          · rintro region baseline threshold rfl
            exact hkinds k region baseline threshold hk
          · intro hs hl k' hk'
            have hsucc : maxRecursionDepth - depth = maxRecursionDepth - (depth + 1) + 1 := by
              omega
            have hfits' := hfits hs
            rw [hsucc] at hfits'
            exact hfits' p hk hl k' hk'

theorem evaluateNamed_lockstep (hD : Decided L c.predicates S C) (hc : c.program = some id)
    (hkinds : ∀ (k : String) region baseline threshold,
      c.predicates[k]? ≠ some (.pixelDiff region baseline threshold))
    (fuel fuel' : Nat) {k : String} (hS : S k) :
    Lockstep (Twin L c id S C) (evaluateNamed L fuel c k) (evaluateNamed L fuel' c k) := by
  unfold evaluateNamed
  cases hk : c.predicates[k]? with
  | none => exact lockstep_fail _
  | some p =>
    have hp : Held c.predicates S p := ⟨k, hS, hk⟩
    refine node_lockstep hD hc hp ?_ ?_ fun k' depth hS' hfits =>
      name_lockstep hD hc hkinds fuel fuel' hS' hfits
    · rintro region baseline threshold rfl
      exact hkinds k region baseline threshold hk
    · exact fun hs _ k' hk' => hs p hp k' hk'

end Twins

section ForeignCalls
variable {L : Libs} {c c' : EvalCtx} {id program : ProgramId} {S S' : String → Prop}
  {C : PredicateKind → Prop}

theorem evaluateNamed_intact (hD : Decided L c.predicates S C) (hA : Apart L c c' S S' C)
    (hc : c'.program = some program) (hne : program ≠ id) (m₀ : Memory) (fuel : Nat) {k : String}
    (hS' : S' k) : Yields (Intact L c id S C m₀) (evaluateNamed L fuel c' k) fun _ => True := by
  unfold evaluateNamed
  cases hk : c'.predicates[k]? with
  | none => exact yields_fail trivial
  | some q =>
    refine (foreign_node_yields hD hA hc hne hS' hk ?_).mono fun _ _ => trivial
    exact foreign_name_yields hD hA hc hne fuel

end ForeignCalls

end Perception

end Vcli

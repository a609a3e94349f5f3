import Mathlib.Logic.Relation
import Vcli.Perception.Noninterference

/-! The evaluations of one tick, by any programs over any maps. A result that has come into the
cache stays there until the tick is over, and only templates come with a match. -/

namespace Vcli

open Fallible Relation

def PredicateKind.isTemplate : PredicateKind → Bool
  | template .. => true
  | _ => false

namespace Perception

section Persistence
variable {L : Libs} {fuel : Nat} {c : EvalCtx} {program : ProgramId} {hash : PredicateHash}
  {v : PredicateResult}

theorem memoize_persists {hash' : PredicateHash} {x : Eval PredicateResult}
    (hx : Yields (fun m => m.cache.lookup hash = some v) x fun _ => True) :
    Yields (fun m => m.cache.lookup hash = some v) (memoize hash' x) fun _ => True := by
  intro m r m' hm hret
  rcases memoize_returns hret with ⟨_, _, _, rfl⟩ | ⟨hnone, ⟨e, _, hx'⟩ | ⟨v', m₁, rfl, hx', rfl⟩⟩
  · exact ⟨hm, trivial⟩
  · exact hx hm hx'
  · have hne : hash ≠ hash' := by
      rintro rfl
      exact nomatch hnone.symm.trans hm
    exact ⟨(lookup_remember_ne hne).trans (hx hm hx').1, trivial⟩

theorem cache_unaffected (program : ProgramId) (hash : PredicateHash) (v : PredicateResult) :
    Unaffected program fun m => m.cache.lookup hash = some v := by
  refine ⟨fun m n atMs hm => ?_, fun m n hm => hm, fun m key snapshot hm => hm⟩
  rwa [setFirstTrueAt_cache]

theorem evaluateNamed_persists (hc : c.program = some program) (name : String) :
    Yields (fun m => m.cache.lookup hash = some v) (evaluateNamed L fuel c name)
      fun _ => True := by
  refine evaluateNamed_keeps (S := fun _ => True) (fun fuel hev p _ depth => ?_) fuel trivial
  refine memoize_persists ?_
  exact dispatch_keeps hc (cache_unaffected program hash v) (fun n _ d => hev n trivial d) _

theorem memoize_cached {x : Eval PredicateResult} {m m' : Memory}
    (h : (memoize hash x).Returns m (.ok v) m') : m'.cache.lookup hash = some v := by
  rcases memoize_returns h with ⟨v', hv', hr, rfl⟩ | ⟨_, ⟨e, hr, _⟩ | ⟨v', m₁, hr, _, rfl⟩⟩
  · rw [Except.ok.inj hr]
    exact hv'
  · exact nomatch hr
  · rw [Except.ok.inj hr]
    exact lookup_remember_self

theorem evaluateNamed_cached {name : String} {p : PredicateKind} {m m' : Memory}
    (hp : c.predicates[name]? = some p)
    (h : (evaluateNamed L fuel c name).Returns m (.ok v) m') :
    m'.cache.lookup (hashPredicate L p) = some v := by
  rw [evaluateNamed, hp] at h
  exact memoize_cached h

theorem evaluateNamed_hit {name : String} {p : PredicateKind} {m : Memory}
    (hp : c.predicates[name]? = some p) (h : m.cache.lookup (hashPredicate L p) = some v) :
    (evaluateNamed L fuel c name).Returns m (.ok v) m := by
  rw [evaluateNamed, hp]
  refine returns_bind.mpr (.inr ⟨m, m, returns_get.mpr ⟨rfl, rfl⟩, ?_⟩)
  rw [h]
  exact returns_pure.mpr ⟨rfl, rfl⟩

end Persistence

section Matches
variable {L : Libs} {fuel : Nat} {c : EvalCtx} {program : ProgramId}

def Matched (p : PredicateKind) (r : PredicateResult) : Prop :=
  r.matchData.isSome = (p.isTemplate && r.truthy)

def Fitting (p : PredicateKind) (r : Except PerceptionError PredicateResult) : Prop :=
  ∀ v, r = .ok v → Matched p v

theorem fitting_error (p : PredicateKind) (e : PerceptionError) : Fitting p (.error e) := nofun

theorem fitting_plain {p : PredicateKind} (hp : p.isTemplate = false) (truthy : Bool)
    (at_ : UnixMs) : Fitting p (.ok ⟨truthy, none, at_⟩) := by
  rintro v ⟨⟩
  rw [Matched, hp]
  rfl

theorem yields_of_bind {S α β : Type} {I : S → Prop} {x : Fallible S PerceptionError Crash α}
    {f : α → Fallible S PerceptionError Crash β} {Q : Except PerceptionError β → Prop}
    (hx : Yields I x fun _ => True) (he : ∀ e, Q (.error e)) (hf : ∀ a, Yields I (f a) Q) :
    Yields I (x >>= f) Q := yields_bind hx (fun e _ => he e) fun a _ => hf a

theorem yields_anything {S α : Type} (x : Fallible S PerceptionError Crash α) :
    Yields (fun _ => True) x fun _ => True := fun _ _ _ _ _ => ⟨trivial, trivial⟩

theorem evalColorAt_fitting {frame : Frame} {nowMs : UnixMs} {point : Point} {rgb : Rgb}
    {tolerance : UInt16} : Yields (fun _ => True) (evalColorAt frame nowMs point rgb tolerance)
      (Fitting (.colorAt point rgb tolerance)) := by
  refine yields_of_bind (yields_anything _) (fitting_error _) fun fx => ?_
  refine yields_of_bind (yields_anything _) (fitting_error _) fun fy => ?_
  refine yields_of_bind (yields_anything _) (fitting_error _) fun truthy => ?_
  exact yields_pure (fitting_plain rfl truthy nowMs)

theorem matchImage_fitting {frame : Frame} {nowMs : UnixMs} {bytes : List UInt8}
    {confidence : F64} {region : Region} {image : String} {throttleMs : UInt32} :
    Yields (fun _ => True) (matchImage L frame nowMs bytes confidence region)
      (Fitting (.template image confidence region throttleMs)) := by
  have hmiss : Fitting (.template image confidence region throttleMs)
      (.ok ⟨false, none, nowMs⟩) := by
    rintro v ⟨⟩
    rfl
  unfold matchImage
  split
  · exact yields_fail (fitting_error _ _)
  · refine yields_of_bind (yields_anything _) (fitting_error _) fun hay => ?_
    dsimp only
    split_ifs
    · exact yields_pure hmiss
    · exact yields_pure hmiss
    · refine yields_of_bind (yields_anything _) (fitting_error _) fun x => ?_
      refine yields_of_bind (yields_anything _) (fitting_error _) fun y => ?_
      refine yields_pure ?_
      rintro v ⟨⟩
      rfl

theorem evalTemplate_fitting {frame : Frame} {nowMs : UnixMs} {assets : Assets} {image : String}
    {confidence : F64} {region : Region} {throttleMs : UInt32} :
    Yields (fun _ => True) (evalTemplate L frame nowMs assets image confidence region)
      (Fitting (.template image confidence region throttleMs)) := by
  unfold evalTemplate
  split
  · exact yields_fail (fitting_error _ _)
  · exact matchImage_fitting

theorem evalUntil_fitting {I : Memory → Prop} {stop : Bool} {nowMs : UnixMs} {p : PredicateKind}
    (hp : p.isTemplate = false) {ev : String → Eval PredicateResult} {of : List String}
    (hev : ∀ n ∈ of, Yields I (ev n) fun _ => True) :
    Yields I (evalUntil stop nowMs ev of) (Fitting p) := by
  induction of with
  | nil => exact yields_pure (fitting_plain hp _ _)
  | cons n of ih =>
    refine yields_of_bind (hev n List.mem_cons_self) (fitting_error _) fun r => ?_
    split_ifs
    · exact yields_pure (fitting_plain hp _ _)
    · exact ih fun k hk => hev k (List.mem_cons_of_mem _ hk)

def Kinded (m : Memory) : Prop :=
  ∀ hash r, m.cache.lookup hash = some r → Matched hash.digested r

theorem isTemplate_canonical (nfc : String → String) (p : PredicateKind) :
    (p.canonical nfc).isTemplate = p.isTemplate := by
  cases p <;> rfl

theorem matched_digested {p : PredicateKind} {r : PredicateResult} :
    Matched (hashPredicate L p).digested r ↔ Matched p r := by
  rw [Matched, Matched, hashPredicate, isTemplate_canonical]

theorem kinded_unaffected (program : ProgramId) : Unaffected program Kinded := by
  refine ⟨fun m n atMs hm => ?_, fun m n hm => hm, fun m key snapshot hm => hm⟩
  rwa [Kinded, setFirstTrueAt_cache]

theorem Kinded.remember {m : Memory} (h : Kinded m) {p : PredicateKind} {v : PredicateResult}
    (hv : Matched p v) : Kinded (m.remember (hashPredicate L p) v) := by
  intro hash r hr
  by_cases heq : hash = hashPredicate L p
  · subst heq
    rw [lookup_remember_self] at hr
    rw [← Option.some.inj hr]
    exact matched_digested.mpr hv
  · rw [lookup_remember_ne heq] at hr
    exact h hash r hr

theorem evalPixelDiff_fitting {region : Region} {baseline : String} {threshold : F64} :
    Yields Kinded (evalPixelDiff L c region baseline threshold)
      (Fitting (.pixelDiff region baseline threshold)) := by
  unfold evalPixelDiff
  split
  · refine yields_of_bind (yields_beside fun _ _ => trivial) (fitting_error _) fun crop => ?_
    refine yields_of_bind (yields_get fun _ _ => trivial) (fitting_error _) fun m => ?_
    refine yields_of_bind (yields_modify (fun _ hm => hm) trivial) (fitting_error _) fun _ => ?_
    split <;> exact yields_pure (fitting_plain rfl _ _)
  · exact yields_pure (fitting_plain rfl _ _)

theorem evalElapsed_fitting (hc : c.program = some program) {child : String} {ms : UInt32}
    {x : Eval PredicateResult} (hx : Yields Kinded x fun _ => True) :
    Yields Kinded (evalElapsed c child ms x) (Fitting (.elapsedMsSinceTrue child ms)) := by
  rw [evalElapsed, hc]
  refine yields_of_bind hx (fitting_error _) fun r => ?_
  split_ifs
  · refine yields_of_bind (yields_modify ?_ trivial) (fitting_error _) fun _ => ?_
    · exact fun m hm => (kinded_unaffected program).setTimer m child c.nowMs hm
    · refine yields_of_bind (yields_get fun _ _ => trivial) (fitting_error _) fun m => ?_
      exact yields_pure (fitting_plain rfl _ _)
  · refine yields_of_bind (yields_modify ?_ trivial) (fitting_error _) fun _ => ?_
    · exact fun m hm => (kinded_unaffected program).clearTimer m child hm
    · exact yields_pure (fitting_plain rfl _ _)

theorem dispatch_fitting (hc : c.program = some program)
    {ev : String → Nat → Eval PredicateResult} {p : PredicateKind}
    (hev : ∀ n ∈ p.children, ∀ depth, Yields Kinded (ev n depth) fun _ => True) (depth : Nat) :
    Yields Kinded (dispatch L c ev depth p) (Fitting p) := by
  cases p with
  | colorAt => exact yields_beside fun r hr => (evalColorAt_fitting trivial hr).2
  | template => exact yields_beside fun r hr => (evalTemplate_fitting trivial hr).2
  | pixelDiff => exact evalPixelDiff_fitting
  | allOf of | anyOf of => exact evalUntil_fitting rfl fun n hn => hev n hn depth
  | not of =>
    refine yields_of_bind (hev of List.mem_cons_self depth) (fitting_error _) fun r => ?_
    exact yields_pure (fitting_plain rfl _ _)
  | elapsedMsSinceTrue child ms => exact evalElapsed_fitting hc (hev child List.mem_cons_self 0)

theorem memoize_fitting {p : PredicateKind} {x : Eval PredicateResult}
    (hx : Yields Kinded x (Fitting p)) :
    Yields Kinded (memoize (hashPredicate L p) x) (Fitting p) := by
  refine yields_memoize (fun m v hm hv => ?_) hx fun m v hm hv => hm.remember (hv v rfl)
  rintro _ ⟨⟩
  exact matched_digested.mp (hm _ v hv)

theorem evaluateNamedWithDepth_kinded (hc : c.program = some program) (name : String)
    (depth : Nat) :
    Yields Kinded (evaluateNamedWithDepth L c fuel name depth) fun _ => True := by
  have hnodes : NodesKeep L c (fun _ => True) Kinded := fun fuel hev p _ depth =>
    (memoize_fitting (dispatch_fitting hc (fun n _ d => hev n trivial d) _)).mono
      fun _ _ => trivial
  exact evaluateNamedWithDepth_keeps hnodes fuel trivial depth

theorem evaluateNamed_kinded (hc : c.program = some program) (name : String) :
    Yields Kinded (evaluateNamed L fuel c name)
      fun r => ∀ p, c.predicates[name]? = some p → Fitting p r := by
  unfold evaluateNamed
  cases hp : c.predicates[name]? with
  | none => exact yields_fail nofun
  | some p =>
    refine (memoize_fitting ?_).mono fun r hr q hq => ?_
    · exact dispatch_fitting hc (fun n _ d => evaluateNamedWithDepth_kinded hc n d) _
    · rwa [← Option.some.inj hq]

end Matches

section Within

def Evaluates (L : Libs) (fuel : Nat) (frame : Frame) (nowMs : UnixMs) (m m' : Memory) : Prop :=
  ∃ predicates assets id name r,
    (evaluateNamed L fuel ⟨frame, nowMs, predicates, assets, some id⟩ name).Returns m r m'

def Within (L : Libs) (fuel : Nat) (frame : Frame) (nowMs : UnixMs) : Memory → Memory → Prop :=
  ReflTransGen (Evaluates L fuel frame nowMs)

variable {L : Libs} {fuel : Nat} {frame : Frame} {nowMs : UnixMs} {m m' : Memory}

theorem Within.persists (h : Within L fuel frame nowMs m m') {hash : PredicateHash}
    {v : PredicateResult} (hv : m.cache.lookup hash = some v) : m'.cache.lookup hash = some v := by
  induction h with
  | refl => exact hv
  | tail _ hstep ih =>
    obtain ⟨predicates, assets, id, name, r, hret⟩ := hstep
    exact (evaluateNamed_persists rfl name ih hret).1

theorem kinded_of_empty (h : m.cache = ∅) : Kinded m := by
  intro hash r hr
  rw [h] at hr
  exact nomatch hr

theorem Within.kinded (h : Within L fuel frame nowMs m m') (hm : Kinded m) : Kinded m' := by
  induction h with
  | refl => exact hm
  | tail _ hstep ih =>
    obtain ⟨predicates, assets, id, name, r, hret⟩ := hstep
    exact (evaluateNamed_kinded rfl name ih hret).1

end Within

end Perception

end Vcli

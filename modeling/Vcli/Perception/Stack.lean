import Vcli.Lib.Descent
import Vcli.Perception.Meaning

/-! How deep the calls of an evaluation nest. The recursion limit holds between two elapsed
predicates only, since below each of them the depth starts over; the nesting is bounded by the
map unless an elapsed predicate depends on itself. -/

namespace Vcli

open Fallible

structure Deep (B : Crash ⊕ PerceptionError → Prop) : Prop where
  panic : ¬ B (.inl .panic)
  outside : ¬ B (.inr .regionOutOfBounds)
  decode : ∀ e, ¬ B (.inr (.assetDecode e))
  missing : ∀ e, ¬ B (.inr (.assetNotMaterialized e))

section Leaves
variable {frame : Frame} {B : Crash ⊕ PerceptionError → Prop}

theorem checkedI32_shuns (hB : Deep B) (n : Int) : Shuns B (checkedI32 n) := by
  unfold checkedI32
  split_ifs
  · exact shuns_pure _
  · exact shuns_crash hB.panic

theorem pixelRgb_shuns (hB : Deep B) (x y : Int) : Shuns B (pixelRgb frame x y) := by
  unfold pixelRgb
  split_ifs
  · exact shuns_fail hB.outside
  · split
    · split <;> exact shuns_pure _
    · exact shuns_crash hB.panic

theorem cropRgb_shuns (hB : Deep B) (region : Rect) : Shuns B (cropRgb frame region) := by
  have hchecked := checkedI32_shuns hB
  unfold cropRgb
  refine shuns_bind (hchecked _) fun xr => shuns_bind (hchecked _) fun xf => ?_
  refine shuns_bind (hchecked _) fun yr => shuns_bind (hchecked _) fun yf => ?_
  dsimp only
  split_ifs
  · exact shuns_fail hB.outside
  · refine shuns_bind (hchecked _) fun w => shuns_bind (hchecked _) fun h => ?_
    refine shuns_bind ?_ fun rows => shuns_pure _
    refine shuns_mapM fun row => shuns_mapM fun col => ?_
    refine shuns_bind (hchecked _) fun dx => shuns_bind (hchecked _) fun fx => ?_
    refine shuns_bind (hchecked _) fun dy => shuns_bind (hchecked _) fun fy => ?_
    exact pixelRgb_shuns hB fx fy

theorem frameToRgb_shuns (hB : Deep B) : Shuns B (frameToRgb frame) := by
  unfold frameToRgb
  split_ifs
  · exact shuns_crash hB.panic
  · refine shuns_bind ?_ fun rows => shuns_pure _
    exact shuns_mapM fun y => shuns_mapM fun x => pixelRgb_shuns hB x y

theorem evalColorAt_shuns (hB : Deep B) (nowMs : UnixMs) (point : Point) (rgb : Rgb)
    (tolerance : UInt16) : Shuns B (evalColorAt frame nowMs point rgb tolerance) := by
  refine shuns_bind (checkedI32_shuns hB _) fun fx => ?_
  refine shuns_bind (checkedI32_shuns hB _) fun fy => ?_
  refine shuns_bind ?_ fun truthy => shuns_pure _
  refine shuns_bind (pixelRgb_shuns hB fx fy) fun c => ?_
  exact shuns_bind (checkedI32_shuns hB _) fun tolSq => shuns_pure _

theorem haystack_shuns (hB : Deep B) (region : Region) : Shuns B (haystack frame region) := by
  cases region with
  | absolute rect => exact shuns_bind (cropRgb_shuns hB rect) fun _ => shuns_pure _
  | window | relativeTo => exact shuns_bind (frameToRgb_shuns hB) fun _ => shuns_pure _

theorem evalTemplate_shuns (hB : Deep B) (L : Libs) (nowMs : UnixMs) (assets : Assets)
    (image : String) (confidence : F64) (region : Region) :
    Shuns B (evalTemplate L frame nowMs assets image confidence region) := by
  unfold evalTemplate
  split
  · exact shuns_fail (hB.missing _)
  · unfold matchImage
    split
    · exact shuns_fail (hB.decode _)
    · refine shuns_bind (haystack_shuns hB region) fun hay => ?_
      dsimp only
      split_ifs
      · exact shuns_pure _
      · exact shuns_pure _
      · refine shuns_bind (checkedI32_shuns hB _) fun x => ?_
        exact shuns_bind (checkedI32_shuns hB _) fun y => shuns_pure _

end Leaves

def PredicateKind.calledAt (p : PredicateKind) (depth : Nat) : Nat :=
  if p.isLogical then depth else 0

namespace Perception

open Relation

section Steps
variable {L : Libs} {c : EvalCtx} {B : Crash ⊕ PerceptionError → Prop}

theorem memoize_shuns {hash : PredicateHash} {x : Eval PredicateResult} (hx : Shuns B x) :
    Shuns B (memoize hash x) := by
  refine shuns_bind shuns_get fun m => ?_
  split
  · exact shuns_pure _
  · exact shuns_bind hx fun r => shuns_bind (shuns_modify _) fun _ => shuns_pure _

theorem evalUntil_shuns {stop : Bool} {nowMs : UnixMs} {ev : String → Eval PredicateResult}
    {of : List String} (hev : ∀ n ∈ of, Shuns B (ev n)) :
    Shuns B (evalUntil stop nowMs ev of) := by
  induction of with
  | nil => exact shuns_pure _
  | cons n of ih =>
    refine shuns_bind (hev n List.mem_cons_self) fun r => ?_
    split_ifs
    · exact shuns_pure _
    · exact ih fun k hk => hev k (List.mem_cons_of_mem _ hk)

theorem evalElapsed_shuns (hB : ∀ e, ¬ B (.inr (.assetDecode e))) {child : String} {ms : UInt32}
    {x : Eval PredicateResult} (hx : Shuns B x) : Shuns B (evalElapsed c child ms x) := by
  unfold evalElapsed
  split
  · exact shuns_fail (hB _)
  · refine shuns_bind hx fun r => ?_
    split_ifs
    · exact shuns_bind (shuns_modify _) fun _ => shuns_bind shuns_get fun m => shuns_pure _
    · exact shuns_bind (shuns_modify _) fun _ => shuns_pure _

theorem evalPixelDiff_shuns (hB : Deep B) (region : Region) (baseline : String) (threshold : F64) :
    Shuns B (evalPixelDiff L c region baseline threshold) := by
  unfold evalPixelDiff
  split
  · refine shuns_bind (shuns_beside (cropRgb_shuns hB _)) fun crop => ?_
    refine shuns_bind shuns_get fun m => shuns_bind (shuns_modify _) fun _ => ?_
    split <;> exact shuns_pure _
  · exact shuns_pure _

theorem leaf_shuns (hB : Deep B) {p : PredicateKind} (hp : p.children = [])
    (hl : p.isLogical = false) (ev : String → Nat → Eval PredicateResult) (depth : Nat) :
    Shuns B (dispatch L c ev depth p) := by
  cases p with
  | colorAt point rgb tolerance =>
    exact shuns_beside (evalColorAt_shuns hB c.nowMs point rgb tolerance)
  | template image confidence region =>
    exact shuns_beside (evalTemplate_shuns hB L c.nowMs c.assets image confidence region)
  | pixelDiff region baseline threshold => exact evalPixelDiff_shuns hB region baseline threshold
  | allOf | anyOf | not => exact nomatch hl
  | elapsedMsSinceTrue => exact nomatch hp

theorem dispatch_shuns {ev : String → Nat → Eval PredicateResult} {p : PredicateKind} {depth : Nat}
    (hB : ∀ e, ¬ B (.inr (.assetDecode e)))
    (hleaf : p.children = [] → p.isLogical = false → Shuns B (dispatch L c ev depth p))
    (hev : ∀ n ∈ p.children, Shuns B (ev n (p.calledAt depth))) :
    Shuns B (dispatch L c ev depth p) := by
  cases p with
  | colorAt | template | pixelDiff => exact hleaf rfl rfl
  | allOf of | anyOf of => exact evalUntil_shuns hev
  | not of => exact shuns_bind (hev of List.mem_cons_self) fun _ => shuns_pure _
  | elapsedMsSinceTrue child ms => exact evalElapsed_shuns hB (hev child List.mem_cons_self)

end Steps

def Overflow (k : Crash ⊕ PerceptionError) : Prop := k = .inl .stackOverflow

theorem deep_overflow : Deep Overflow := ⟨nofun, nofun, nofun, nofun⟩

def Calls (predicates : Predicates) (x y : String × Nat) : Prop :=
  x.2 < maxRecursionDepth ∧ ∃ p, predicates[x.1]? = some p ∧ y.1 ∈ p.children ∧
    y.2 = p.calledAt (x.2 + 1)

/-- No call leads back to itself: an elapsed predicate that depends on itself does so beyond the
recursion limit. -/
def NoReturn (predicates : Predicates) : Prop := ∀ x, ¬ TransGen (Calls predicates) x x

def callers (predicates : Predicates) : Set (String × Nat) :=
  {n | n ∈ predicates.keys} ×ˢ {depth | depth < maxRecursionDepth}

theorem callers_finite (predicates : Predicates) : (callers predicates).Finite :=
  (List.finite_toSet predicates.keys).prod (Set.finite_lt_nat maxRecursionDepth)

theorem Calls.mem_callers {predicates : Predicates} {x y : String × Nat}
    (h : Calls predicates x y) : x ∈ callers predicates := by
  obtain ⟨hdepth, p, hp, _⟩ := h
  refine ⟨Std.ExtTreeMap.mem_keys.mpr ?_, hdepth⟩
  rw [Std.ExtTreeMap.mem_iff_isSome_getElem?, hp]
  rfl

section Graph
variable {L : Libs} {c : EvalCtx}

theorem evaluateNamedWithDepth_shuns {rank : String × Nat → Nat}
    (hrank : ∀ x y, Calls c.predicates x y → rank y < rank x) {fuel : Nat} {name : String}
    {depth : Nat} (hfuel : rank (name, depth) < fuel) :
    Shuns Overflow (evaluateNamedWithDepth L c fuel name depth) := by
  induction fuel generalizing name depth with
  | zero => exact absurd hfuel (Nat.not_lt_zero _)
  | succ fuel ih =>
    rw [evaluateNamedWithDepth]
    split_ifs with hdepth
    · exact shuns_fail nofun
    · cases hp : c.predicates[name]? with
      | none => exact shuns_fail nofun
      | some p =>
        refine memoize_shuns (dispatch_shuns nofun
          (fun hc hl => leaf_shuns deep_overflow hc hl _ _) fun k hk => ?_)
        apply ih
        have hcall : Calls c.predicates (name, depth) (k, p.calledAt (depth + 1)) :=
          ⟨Nat.not_le.mp hdepth, p, hp, hk, rfl⟩
        have hlt := hrank _ _ hcall
        omega

/-- With enough fuel for its map, no evaluation overflows. -/
theorem evaluateNamed_avoids (h : NoReturn c.predicates) {fuel : Nat}
    (hfuel : (callers c.predicates).ncard < fuel) (name : String) :
    Avoids .stackOverflow (evaluateNamed L fuel c name) := by
  obtain ⟨rank, hrank, hbound⟩ := Descent.exists_rank (callers_finite c.predicates)
    (fun _ _ hcall => hcall.mem_callers) h
  refine Shuns.avoids (B := Overflow) ?_ rfl
  unfold evaluateNamed
  cases hp : c.predicates[name]? with
  | none => exact shuns_fail nofun
  | some p =>
    refine memoize_shuns (dispatch_shuns nofun (fun hc hl => leaf_shuns deep_overflow hc hl _ _)
      fun k _ => ?_)
    exact evaluateNamedWithDepth_shuns hrank (Nat.lt_of_le_of_lt (hbound _) hfuel)

def LeavesReturn (L : Libs) (c : EvalCtx) : Prop :=
  ∀ (n : String) p, c.predicates[n]? = some p → p.children = [] → p.isLogical = false →
    ∀ ev depth, Avoids .panic (dispatch L c ev depth p)

def Panic (k : Crash ⊕ PerceptionError) : Prop := k = .inl .panic

theorem LeavesReturn.shuns (h : LeavesReturn L c) {n : String} {p : PredicateKind}
    (hp : c.predicates[n]? = some p) (hc : p.children = []) (hl : p.isLogical = false)
    (ev : String → Nat → Eval PredicateResult) (depth : Nat) :
    Shuns Panic (dispatch L c ev depth p) :=
  shuns_of_avoids (h n p hp hc hl ev depth) fun _ hk => hk

theorem evaluateNamedWithDepth_ne_panic (h : LeavesReturn L c) (fuel : Nat) (name : String)
    (depth : Nat) : Shuns Panic (evaluateNamedWithDepth L c fuel name depth) := by
  induction fuel generalizing name depth with
  | zero => exact shuns_crash nofun
  | succ fuel ih =>
    rw [evaluateNamedWithDepth]
    split_ifs
    · exact shuns_fail nofun
    · cases hp : c.predicates[name]? with
      | none => exact shuns_fail nofun
      | some p =>
        exact memoize_shuns (dispatch_shuns nofun (fun hc hl => h.shuns hp hc hl _ _)
          fun k _ => ih k _)

theorem evaluateNamed_ne_panic (h : LeavesReturn L c) (fuel : Nat) (name : String) :
    Avoids .panic (evaluateNamed L fuel c name) := by
  refine Shuns.avoids (B := Panic) ?_ rfl
  unfold evaluateNamed
  cases hp : c.predicates[name]? with
  | none => exact shuns_fail nofun
  | some p =>
    exact memoize_shuns (dispatch_shuns nofun (fun hc hl => h.shuns hp hc hl _ _)
      fun k _ => evaluateNamedWithDepth_ne_panic h fuel k _)

end Graph

/-- An evaluation ends, with a result or an error, whatever the frame, the assets and the memory
are; the nesting of its calls is bounded by the map. -/
theorem recursion_guard (predicates : Predicates) (h : NoReturn predicates) :
    ∃ fuel, ∀ (L : Libs) (frame : Frame) (nowMs : UnixMs) (assets : Assets) (id : ProgramId)
      (name : String) (m : Memory),
      LeavesReturn L ⟨frame, nowMs, predicates, assets, some id⟩ →
      ∃ out, evaluateNamed L fuel ⟨frame, nowMs, predicates, assets, some id⟩ name m = .ok out := by
  refine ⟨(callers predicates).ncard + 1, ?_⟩
  intro L frame nowMs assets id name m hleaf
  have hstack := evaluateNamed_avoids (L := L) (c := ⟨frame, nowMs, predicates, assets, some id⟩) h
    (Nat.lt_succ_self _) name m
  have hpanic := evaluateNamed_ne_panic hleaf ((callers predicates).ncard + 1) name m
  cases hout : evaluateNamed L ((callers predicates).ncard + 1)
      ⟨frame, nowMs, predicates, assets, some id⟩ name m with
  | ok out => exact ⟨out, rfl⟩
  | error crash =>
    cases crash with
    | stackOverflow => exact absurd hout hstack
    | panic => exact absurd hout hpanic

theorem noReturn_of_rank {predicates : Predicates} (rank : String × Nat → Nat)
    (h : ∀ x y, Calls predicates x y → rank y < rank x) : NoReturn predicates := by
  have htrans : ∀ {x y}, TransGen (Calls predicates) x y → rank y < rank x := by
    intro x y hxy
    induction hxy with
    | single hcall => exact h _ _ hcall
    | tail _ hcall ih => exact Nat.lt_trans (h _ _ hcall) ih
  exact fun x hx => Nat.lt_irrefl _ (htrans hx)

section Looping

def selfNegation : Predicates :=
  ((∅ : Predicates).insert "a" (.not "a")).insert "e" (.elapsedMsSinceTrue "a" 5)

theorem selfNegation_getElem? {n : String} {p : PredicateKind} (h : selfNegation[n]? = some p) :
    n = "a" ∧ p = .not "a" ∨ n = "e" ∧ p = .elapsedMsSinceTrue "a" 5 := by
  simp only [selfNegation, Std.ExtTreeMap.getElem?_insert] at h
  split_ifs at h with he ha
  · exact .inr ⟨(Std.compare_eq_iff_eq.mp he).symm, (Option.some.inj h).symm⟩
  · exact .inl ⟨(Std.compare_eq_iff_eq.mp ha).symm, (Option.some.inj h).symm⟩
  · exact nomatch h

theorem selfNegation_noReturn : NoReturn selfNegation := by
  apply noReturn_of_rank fun x => if x.1 = "e" then maxRecursionDepth + 1 else maxRecursionDepth - x.2
  rintro ⟨n, depth⟩ ⟨k, depth'⟩ ⟨hdepth, p, hp, hk, hd⟩
  have hdepth : depth < maxRecursionDepth := hdepth
  rcases selfNegation_getElem? hp with ⟨rfl, rfl⟩ | ⟨rfl, rfl⟩
  · obtain rfl : k = "a" := List.mem_singleton.mp hk
    obtain rfl : depth' = depth + 1 := hd
    show maxRecursionDepth - (depth + 1) < maxRecursionDepth - depth
    omega
  · obtain rfl : k = "a" := List.mem_singleton.mp hk
    obtain rfl : depth' = 0 := hd
    show maxRecursionDepth - 0 < maxRecursionDepth + 1
    omega

theorem recursion_guard_selfNegation :
    ∃ fuel, ∀ m : Memory, ∃ out,
      evaluateNamed plainLibs fuel ⟨.dot, 10, selfNegation, ∅, some ⟨1⟩⟩ "e" m = .ok out := by
  obtain ⟨fuel, hfuel⟩ := recursion_guard selfNegation selfNegation_noReturn
  refine ⟨fuel, fun m => hfuel plainLibs .dot 10 ∅ ⟨1⟩ "e" m ?_⟩
  intro n p hp hc
  rcases selfNegation_getElem? hp with ⟨_, rfl⟩ | ⟨_, rfl⟩ <;> exact nomatch hc

variable {L : Libs} {c : EvalCtx} {id : ProgramId}

def Leads (predicates : Predicates) (x y : String × Nat) : Prop :=
  x.2 < maxRecursionDepth ∧ ∃ p, predicates[x.1]? = some p ∧ p.children.head? = some y.1 ∧
    y.2 = p.calledAt (x.2 + 1)

theorem memoize_crashes {m : Memory} {hash : PredicateHash} {x : Eval PredicateResult}
    {crash : Crash} (hm : m.cache = ∅) (h : x m = .error crash) :
    memoize hash x m = .error crash := by
  rw [memoize, Fallible.bind_apply_eq]
  dsimp only [Fallible.get]
  rw [hm]
  exact bind_crashes h _

theorem dispatch_crashes {m : Memory} {ev : String → Nat → Eval PredicateResult} {depth : Nat}
    {p : PredicateKind} {k : String} {crash : Crash} (hc : c.program = some id)
    (hk : p.children.head? = some k) (h : ev k (p.calledAt depth) m = .error crash) :
    dispatch L c ev depth p m = .error crash := by
  cases p with
  | colorAt | template | pixelDiff => exact nomatch hk
  | allOf of | anyOf of =>
    cases of with
    | nil => exact nomatch hk
    | cons n of =>
      obtain rfl : n = k := Option.some.inj hk
      exact bind_crashes h _
  | not of =>
    obtain rfl : of = k := Option.some.inj hk
    exact bind_crashes h _
  | elapsedMsSinceTrue child ms =>
    obtain rfl : child = k := Option.some.inj hk
    rw [dispatch, evalElapsed, hc]
    exact bind_crashes h _

theorem leads_overflows (hc : c.program = some id) {m : Memory} (hm : m.cache = ∅) (fuel : Nat)
    {x : String × Nat} (hx : TransGen (Leads c.predicates) x x) :
    evaluateNamedWithDepth L c fuel x.1 x.2 m = .error .stackOverflow := by
  induction fuel generalizing x with
  | zero => rfl
  | succ fuel ih =>
    obtain ⟨y, hlead, hback⟩ := TransGen.head'_iff.mp hx
    obtain ⟨hdepth, p, hp, hk, hd⟩ := hlead
    have hy := ih (TransGen.tail' hback ⟨hdepth, p, hp, hk, hd⟩)
    rw [hd] at hy
    rw [evaluateNamedWithDepth, if_neg (Nat.not_le.mpr hdepth), hp]
    exact memoize_crashes hm (dispatch_crashes hc hk hy)

/-- An elapsed predicate whose child comes back to it, first call by first call, overflows any
stack in the first evaluation of a tick. -/
theorem elapsed_cycle_overflows {e child : String} {ms : UInt32} (hc : c.program = some id)
    (he : c.predicates[e]? = some (.elapsedMsSinceTrue child ms))
    (hcycle : TransGen (Leads c.predicates) (child, 0) (child, 0)) (fuel : Nat) {m : Memory}
    (hm : m.cache = ∅) : evaluateNamed L fuel c e m = .error .stackOverflow := by
  rw [evaluateNamed, he]
  refine memoize_crashes hm (dispatch_crashes (k := child) hc rfl ?_)
  exact leads_overflows hc hm fuel hcycle

/-- An elapsed predicate of itself. -/
theorem recursion_without_guard :
    ¬ ∀ predicates : Predicates, ∃ fuel, ∀ (L : Libs) (frame : Frame) (nowMs : UnixMs)
      (assets : Assets) (id : ProgramId) (name : String) (m : Memory),
      LeavesReturn L ⟨frame, nowMs, predicates, assets, some id⟩ →
      ∃ out, evaluateNamed L fuel ⟨frame, nowMs, predicates, assets, some id⟩ name m = .ok out := by
  intro h
  obtain ⟨fuel, hfuel⟩ := h ((∅ : Predicates).insert "e" (.elapsedMsSinceTrue "e" 0))
  have hself : ((∅ : Predicates).insert "e" (.elapsedMsSinceTrue "e" 0))["e"]? =
      some (.elapsedMsSinceTrue "e" 0) := rfl
  have hcycle : TransGen (Leads ((∅ : Predicates).insert "e" (.elapsedMsSinceTrue "e" 0)))
      ("e", 0) ("e", 0) := .single ⟨by decide, _, hself, rfl, rfl⟩
  obtain ⟨out, hout⟩ := hfuel plainLibs .dot 10 ∅ ⟨1⟩ "e" .new (by
    intro n p hp hc
    simp only [Std.ExtTreeMap.getElem?_insert] at hp
    split_ifs at hp
    · rw [← Option.some.inj hp] at hc
      exact nomatch hc
    · exact nomatch hp)
  exact nomatch (elapsed_cycle_overflows rfl hself hcycle fuel rfl).symm.trans hout

end Looping

section Runs
variable {L : Libs} {fuel : Nat} {w : ProgramId → Profile}

theorem runCalls_ne_stackOverflow
    (hw : ∀ id, NoReturn (w id).predicates ∧ (callers (w id).predicates).ncard < fuel) (t : Round)
    (l : List (ProgramId × String)) (m : Memory) :
    runCalls L fuel w t l m ≠ .error .stackOverflow := by
  induction l generalizing m with
  | nil => exact nofun
  | cons call l ih =>
    have hcall : Avoids .stackOverflow (evaluateNamed L fuel (t.ctx w call.1) call.2) :=
      evaluateNamed_avoids (c := t.ctx w call.1) (hw call.1).1 (hw call.1).2 call.2
    intro h
    rcases bind_eq_error.mp h with hfirst | ⟨r, _, hrest⟩
    · exact hcall m hfirst
    · rcases bind_eq_error.mp hrest with hrest | ⟨_, _, hpure⟩
      · exact ih r.2 hrest
      · exact nomatch hpure

theorem runRounds_ne_stackOverflow
    (hw : ∀ id, NoReturn (w id).predicates ∧ (callers (w id).predicates).ncard < fuel)
    (ts : List Round) (m : Memory) : runRounds L fuel w ts m ≠ .error .stackOverflow := by
  induction ts generalizing m with
  | nil => exact nofun
  | cons t ts ih =>
    intro h
    rcases bind_eq_error.mp h with hfirst | ⟨r, _, hrest⟩
    · exact runCalls_ne_stackOverflow hw t t.calls m.clear hfirst
    · rcases bind_eq_error.mp hrest with hrest | ⟨_, _, hpure⟩
      · exact ih r.2 hrest
      · exact nomatch hpure

end Runs

end Perception

end Vcli

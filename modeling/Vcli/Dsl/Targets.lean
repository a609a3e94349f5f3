import Vcli.Dsl.Queries
import Vcli.Perception.Tick

/-! Expression targets from submission to dispatch. The validator and the runtime each have a
parser of their own, with accessors of their own; they agree on the centre of a match, which only
a template has. -/

namespace Vcli.Dsl

open Fallible Perception

def pointOf : Accessor → Rect → Option Point
  | .center, b => some ⟨b.x + (max b.w 1 - 1) / 2, b.y + (max b.h 1 - 1) / 2⟩
  | .topLeft, b => some ⟨b.x, b.y⟩
  | .box, _ | .confidence, _ => none

def Resolved (a : Accessor) (r : PredicateResult) (out : Except RuntimeError Point) : Prop :=
  ∃ pt, out = .ok pt ∧ (a = .center ∨ a = .topLeft →
    ∃ md, r.matchData = some md ∧ pointOf a md.bbox = some pt)

def Perceives {τ : Type} (B : Backends Memory τ) (L : Libs) (fuel : Nat) : Prop :=
  ∀ name predicates frame nowMs assets id m r m',
    (Perception.evaluateNamed L fuel ⟨frame, nowMs, predicates, assets, some id⟩ name).Returns m r m' →
      B.evaluateNamed name predicates frame nowMs assets id m = (r, m')

section Resolution
variable {τ : Type} {B : Backends Memory τ} {L : Libs} {fuel : Nat} {tk : Tick} {c : Caller}
  {env : Env Memory τ} {raw : String} {e : Expression} {q : PredicateKind} {r : PredicateResult}

theorem resolveTarget_answered (hB : Perceives B L fuel)
    (hparse : Expression.parse raw .root = .ok e) {m' : Memory}
    (hanswer : (Perception.evaluateNamed L fuel ⟨tk.frame, tk.nowMs, c.predicates, c.assets,
      some c.id⟩ e.name).Returns env.perception (.ok r) m') :
    (resolveTarget B tk c (.expression raw) env).1 =
      if e.accessor = .center then Expr.resolveCenter r
      else .error (.expressionUnresolved ("unknown accessor '" ++
        String.ofList ("match.".toList ++ e.accessor.text.toList) ++ "'")) := by
  rw [resolveTarget, parse_of_accepted hparse]
  by_cases hcenter : e.accessor = .center
  · have hask := hB _ _ _ _ _ _ _ _ _ hanswer
    have hanswer : Vcli.evaluateNamed B tk c .body e.name env =
        (.ok r, { env with perception := m' }, [.perceived c.id .body (.ok r)]) := by
      rw [Vcli.evaluateNamed, hask]
    rw [if_pos hcenter, if_pos hcenter]
    dsimp only
    rw [Interaction.bind_apply, hanswer]
    rfl
  · rw [if_neg hcenter, if_neg hcenter]
    rfl

/-- Only a template that is asked for its centre resolves. -/
theorem resolved_iff (hB : Perceives B L fuel) (hparse : Expression.parse raw .root = .ok e)
    {m' : Memory} (hanswer : (Perception.evaluateNamed L fuel ⟨tk.frame, tk.nowMs, c.predicates,
      c.assets, some c.id⟩ e.name).Returns env.perception (.ok r) m')
    (hmatched : Perception.Matched q r) (htruthy : r.truthy = true) :
    Resolved e.accessor r (resolveTarget B tk c (.expression raw) env).1 ↔
      e.accessor = .center ∧ q.isTemplate = true := by
  rw [resolveTarget_answered hB hparse hanswer]
  rw [Perception.Matched, htruthy, Bool.and_true] at hmatched
  by_cases hcenter : e.accessor = .center
  · rw [if_pos hcenter, hcenter, ← hmatched, Expr.resolveCenter]
    cases hdata : r.matchData with
    | none =>
      refine ⟨?_, fun h => by cases h.2⟩
      rintro ⟨pt, hpt, -⟩
      cases hpt
    | some md => exact ⟨fun _ => ⟨rfl, rfl⟩, fun _ => ⟨_, rfl, fun _ => ⟨md, hdata, rfl⟩⟩⟩
  · rw [if_neg hcenter]
    refine ⟨?_, fun h => absurd h.1 hcenter⟩
    rintro ⟨pt, hpt, -⟩
    cases hpt

end Resolution

/-- Whenever the predicate of an expression target has come out truthy in a tick, the target
resolves in that tick to the point it names exactly if it asks a template for its centre. -/
theorem expression_target_resolves_iff {X : Crates} {p : Program} (haccepted : Accepted X p)
    {s : Step} (hs : s ∈ allSteps p) {raw : String}
    (htarget : targetOf s = some (.expression raw)) :
    ∃ e q, Expression.parse raw .root = .ok e ∧ p.predicates[e.name]? = some q ∧
      ∀ {τ : Type} (B : Backends Memory τ) (L : Libs) (fuel : Nat), Perceives B L fuel →
      ∀ (tk : Tick) (id : ProgramId) (assets : Assets) (start before after : Memory)
        (env : Env Memory τ) (r : PredicateResult), start.cache = ∅ →
      Within L fuel tk.frame tk.nowMs start before →
      (Perception.evaluateNamed L fuel ⟨tk.frame, tk.nowMs, p.predicates, assets, some id⟩
        e.name).Returns before (.ok r) after →
      r.truthy = true →
      env.perception = before ∨ Within L fuel tk.frame tk.nowMs after env.perception →
      (Resolved e.accessor r (resolveTarget B tk ⟨id, p.predicates, assets⟩ (.expression raw) env).1 ↔
        e.accessor = .center ∧ q.isTemplate = true) := by
  obtain ⟨e, q, hparse, hq, -⟩ := (haccepted.checked.step s hs).target _ htarget raw rfl
  refine ⟨e, q, hparse, hq, ?_⟩
  intro τ B L fuel hB tk id assets start before after env r hstart hbefore heval htruthy hmoment
  have hkinded := hbefore.kinded (kinded_of_empty hstart)
  have hmatched := (evaluateNamed_kinded rfl e.name hkinded heval).2 q hq r rfl
  rcases hmoment with rfl | hafter
  · exact resolved_iff hB hparse heval hmatched htruthy
  · have hcached := hafter.persists (evaluateNamed_cached hq heval)
    exact resolved_iff hB hparse (evaluateNamed_hit hq hcached) hmatched htruthy

section Concrete

def clicking (predicate : Json) (raw : String) : Json :=
  .object [("version", .string "0.1"), ("name", .string "p"),
    ("trigger", .object [("kind", .string "on_submit")]),
    ("predicates", .object [("x", predicate)]),
    ("body", .array [.object [("kind", .string "click"), ("at", .string raw)]])]

def whiteTemplate : Json :=
  .object [("kind", .string "template"), ("image", .string "sha256:aa"),
    ("confidence", .float ⟨0x3fe0000000000000#64⟩),
    ("region", .object [("kind", .string "window"), ("app", .string "Safari")])]

def whiteMap : Predicates :=
  (∅ : Predicates).insert "x" (.template "sha256:aa" ⟨0x3fe0000000000000#64⟩
    (.window "Safari" none none) 200)

def whiteProgram (raw : String) : Program :=
  { Program.blank "p" with
    predicates := whiteMap
    body := [.click (.expression raw) .left] }

theorem clicking_wellFormed {predicate : Json} (h : predicate.WellFormed) (raw : String) :
    (clicking predicate raw).WellFormed := by
  simpa [Json.WellFormed, clicking, Json.Each, Json.EachEntry, Json.EachItem] using h

theorem whiteTemplate_wellFormed : whiteTemplate.WellFormed := by
  have hhalf : JsonNumber.Representable (.float ⟨0x3fe0000000000000#64⟩) := by
    show F64.isFinite _ = true
    decide
  simpa [Json.WellFormed, whiteTemplate, Json.Each, Json.EachEntry, Json.EachItem, Json.float]
    using hhalf

theorem whiteProgram_accepted {raw : String}
    (h : (finish plainCrates (whiteProgram raw)).isOk = true) :
    Accepted plainCrates (whiteProgram raw) :=
  accepted_of_finish ⟨_, clicking_wellFormed whiteTemplate_wellFormed raw⟩ rfl h

def whiteLibs : Libs :=
  { plainLibs with
    loadLuma8 := fun _ => .ok ⟨1, 1, [255]⟩
    grayscale := fun image => ⟨image.width, image.height, image.pixels.map Rgb.r⟩
    matchTemplate := fun _ _ => (⟨0x3ff0000000000000#64⟩, 0, 0) }

def whiteTick : Tick := ⟨⟨.rgba8, ⟨0, 0, 1, 1⟩, 4, [255, 255, 255, 255], 0⟩, 10⟩

def whiteAssets : Assets := (∅ : Assets).insert "aa" [1]

def whiteMatch : PredicateResult := ⟨true, some ⟨⟨0, 0, 1, 1⟩, ⟨0x3ff0000000000000#64⟩⟩, 10⟩

def evaluator (L : Libs) (fuel : Nat) : Backends Memory Unit where
  clear := Memory.clear
  evaluateNamed name predicates frame nowMs assets id m :=
    match Perception.evaluateNamed L fuel ⟨frame, nowMs, predicates, assets, some id⟩ name m with
    | .ok out => out
    | .error _ => (.error .regionOutOfBounds, m)
  call _ _ := (.ok (), ())

theorem evaluator_perceives (L : Libs) (fuel : Nat) : Perceives (evaluator L fuel) L fuel := by
  intro name predicates frame nowMs assets id m r m' hret
  have hret : Perception.evaluateNamed L fuel ⟨frame, nowMs, predicates, assets, some id⟩ name m =
    .ok (r, m') := hret
  simp only [evaluator, hret]

theorem white_evaluates : ∃ after, (Perception.evaluateNamed whiteLibs 1
    ⟨whiteTick.frame, whiteTick.nowMs, whiteMap, whiteAssets, some ⟨1⟩⟩ "x").Returns .new
      (.ok whiteMatch) after :=
  returns_of_map (by decide +kernel)

theorem expression_target_resolves_white : Resolved .center whiteMatch
    (resolveTarget (evaluator whiteLibs 1) whiteTick
      ⟨⟨1⟩, whiteMap, whiteAssets⟩
      (.expression "$x.match.center") ⟨.new, ()⟩).1 := by
  obtain ⟨e, q, hparse, hq, hiff⟩ := expression_target_resolves_iff
    (whiteProgram_accepted (by decide +kernel))
    (s := .click (.expression "$x.match.center") .left) List.mem_cons_self rfl
  have hself : Expression.parse "$x.match.center" .root = .ok ⟨"x", .center⟩ := rfl
  obtain rfl : e = ⟨"x", .center⟩ := Except.ok.inj (hparse.symm.trans hself)
  have htemplate : q.isTemplate = true := by
    rw [← Option.some.inj hq]
    rfl
  obtain ⟨after, hafter⟩ := white_evaluates
  exact (hiff (evaluator whiteLibs 1) whiteLibs 1 (evaluator_perceives whiteLibs 1) whiteTick ⟨1⟩
    whiteAssets .new .new after ⟨.new, ()⟩ whiteMatch rfl .refl hafter rfl
    (.inl rfl)).mpr ⟨rfl, htemplate⟩

/-- The corner of a match is accepted, and unknown when it is needed. -/
theorem corner_of_match_unresolved :
    Accepted plainCrates (whiteProgram "$x.match.top_left") ∧
      (∃ after, (Perception.evaluateNamed whiteLibs 1 ⟨whiteTick.frame, whiteTick.nowMs,
        whiteMap, whiteAssets, some ⟨1⟩⟩ "x").Returns .new
          (.ok whiteMatch) after) ∧
      whiteMatch.truthy = true ∧
      (resolveTarget (evaluator whiteLibs 1) whiteTick
        ⟨⟨1⟩, whiteMap, whiteAssets⟩
        (.expression "$x.match.top_left") ⟨.new, ()⟩).1 =
          .error (.expressionUnresolved "unknown accessor 'match.top_left'") :=
  ⟨whiteProgram_accepted (by decide +kernel), white_evaluates, rfl, rfl⟩

end Concrete

end Vcli.Dsl

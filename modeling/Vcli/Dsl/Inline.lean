import Vcli.Dsl.Queries

/-! Inline conditions. The validator looks at one under a reserved name, the scheduler evaluates
it under another, which a predicate of the user may have. -/

namespace Vcli.Dsl

open Relation Fallible Perception

section Congruence
variable {L : Libs} {frame : Frame} {nowMs : UnixMs} {assets : Assets} {program : Option ProgramId}
  {predicates predicates' : Predicates} {S : String → Prop}

theorem evalUntil_congr {stop : Bool} {ev ev' : String → Eval PredicateResult} {of : List String}
    (h : ∀ n ∈ of, ev n = ev' n) : evalUntil stop nowMs ev of = evalUntil stop nowMs ev' of := by
  induction of with
  | nil => rfl
  | cons n of ih =>
    rw [evalUntil, evalUntil, h n List.mem_cons_self, ih fun k hk => h k (List.mem_cons_of_mem n hk)]

/-- A node sees the map through the calls on its names only. -/
theorem dispatch_congr {ev ev' : String → Nat → Eval PredicateResult} {p : PredicateKind}
    (h : ∀ n ∈ p.children, ev n = ev' n) (depth : Nat) :
    dispatch L ⟨frame, nowMs, predicates, assets, program⟩ ev depth p =
      dispatch L ⟨frame, nowMs, predicates', assets, program⟩ ev' depth p := by
  cases p with
  | colorAt | template | pixelDiff => rfl
  | allOf of | anyOf of => exact evalUntil_congr fun n hn => congrFun (h n hn) depth
  | not of =>
    rw [dispatch, dispatch, evalNot, evalNot, h of List.mem_cons_self]
  | elapsedMsSinceTrue child ms =>
    rw [dispatch, dispatch, h child List.mem_cons_self]
    rfl

theorem evaluateNamedWithDepth_congr (hclosed : Closed predicates S)
    (hsame : ∀ k, S k → predicates[k]? = predicates'[k]?) (fuel : Nat) {name : String}
    (hname : S name) :
    evaluateNamedWithDepth L ⟨frame, nowMs, predicates, assets, program⟩ fuel name =
      evaluateNamedWithDepth L ⟨frame, nowMs, predicates', assets, program⟩ fuel name := by
  induction fuel generalizing name with
  | zero => rfl
  | succ fuel ih =>
    funext depth
    rw [evaluateNamedWithDepth, evaluateNamedWithDepth]
    dsimp only
    rw [← hsame name hname]
    cases hq : predicates[name]? with
    | none => rfl
    | some q =>
      split_ifs
      · rfl
      · refine congrArg (memoize (hashPredicate L q)) (dispatch_congr (fun n hn => ?_) (depth + 1))
        exact ih (hclosed q ⟨name, hname, hq⟩ n hn)

theorem evaluateNamed_congr (hclosed : Closed predicates S)
    (hsame : ∀ k, S k → predicates[k]? = predicates'[k]?) (fuel : Nat) {name : String}
    (hname : S name) :
    Perception.evaluateNamed L fuel ⟨frame, nowMs, predicates, assets, program⟩ name =
      Perception.evaluateNamed L fuel ⟨frame, nowMs, predicates', assets, program⟩ name := by
  rw [Perception.evaluateNamed, Perception.evaluateNamed]
  dsimp only
  rw [← hsame name hname]
  cases hq : predicates[name]? with
  | none => rfl
  | some q =>
    refine congrArg (memoize (hashPredicate L q)) (dispatch_congr (fun n hn => ?_) 0)
    exact evaluateNamedWithDepth_congr hclosed hsame fuel (hclosed q ⟨name, hname, hq⟩ n hn)

theorem evaluateNamed_renamed (hclosed : Closed predicates S)
    (hsame : ∀ k, S k → predicates[k]? = predicates'[k]?) {name name' : String}
    {q : PredicateKind} (hq : predicates[name]? = some q) (hq' : predicates'[name']? = some q)
    (hchildren : ∀ k ∈ q.children, S k) (fuel : Nat) :
    Perception.evaluateNamed L fuel ⟨frame, nowMs, predicates, assets, program⟩ name =
      Perception.evaluateNamed L fuel ⟨frame, nowMs, predicates', assets, program⟩ name' := by
  rw [Perception.evaluateNamed, Perception.evaluateNamed]
  dsimp only
  rw [hq, hq']
  refine congrArg (memoize (hashPredicate L q)) (dispatch_congr (fun n hn => ?_) 0)
  exact evaluateNamedWithDepth_congr hclosed hsame fuel (hchildren n hn)

end Congruence

section Below
variable {predicates : Predicates} {q : PredicateKind}

def Below (predicates : Predicates) (q : PredicateKind) (k : String) : Prop :=
  ∃ n ∈ q.children, Reaches predicates n k

theorem below_mem (h : Grounded predicates) (hq : ∀ n ∈ q.children, n ∈ predicates) {k : String}
    (hk : Below predicates q k) : k ∈ predicates := by
  obtain ⟨n, hn, hreach⟩ := hk
  exact reaches_named (fun _ _ hp _ hk => h.children_mem hp hk) (hq n hn) hreach

theorem below_insert {name : String} (hname : ¬ Below predicates q name) (p : PredicateKind)
    {k : String} (hk : Below predicates q k) : (predicates.insert name p)[k]? = predicates[k]? := by
  refine getElem?_insert_ne ?_
  rintro rfl
  exact hname hk

theorem below_closed {name : String} (hname : ¬ Below predicates q name) (p : PredicateKind) :
    Closed (predicates.insert name p) (Below predicates q) := by
  rintro r ⟨k, hk, hr⟩ k' hk'
  rw [below_insert hname p hk] at hr
  obtain ⟨n, hn, hreach⟩ := hk
  exact ⟨n, hn, hreach.tail ⟨r, hr, hk'⟩⟩

end Below

/-- As long as the condition of a watch does not lead to a predicate of the name that the
scheduler gives it, it is evaluated as under a name of its own, its names keep their meaning, and
the evaluation ends. -/
theorem inline_condition_capture_free {X : Crates} {p : Program} (haccepted : Accepted X p)
    {i : Nat} {w : Watch} {q : PredicateKind} (hw : p.watches[i]? = some w)
    (hwhen : w.when_ = .inline q)
    (huncaptured : ∀ k ∈ q.children, ¬ Reaches p.predicates k (inlineKey i))
    {fresh : String} (hfresh : fresh ∉ p.predicates) :
    (∀ (L : Libs) (fuel : Nat) (frame : Frame) (nowMs : UnixMs) (assets : Assets) (id : ProgramId),
      Perception.evaluateNamed L fuel
          ⟨frame, nowMs, p.predicates.insert (inlineKey i) q, assets, some id⟩ (inlineKey i) =
        Perception.evaluateNamed L fuel
          ⟨frame, nowMs, p.predicates.insert fresh q, assets, some id⟩ fresh) ∧
    (∀ k ∈ q.children, ∀ (L : Libs) (fuel : Nat) (frame : Frame) (nowMs : UnixMs)
      (assets : Assets) (id : ProgramId),
      Perception.evaluateNamed L fuel
          ⟨frame, nowMs, p.predicates.insert (inlineKey i) q, assets, some id⟩ k =
        Perception.evaluateNamed L fuel ⟨frame, nowMs, p.predicates, assets, some id⟩ k) ∧
    ∃ bound, ∀ fuel, bound ≤ fuel → ∀ (L : Libs) (frame : Frame) (nowMs : UnixMs)
      (assets : Assets) (id : ProgramId) (m : Memory),
      Perception.evaluateNamed L fuel
        ⟨frame, nowMs, p.predicates.insert (inlineKey i) q, assets, some id⟩ (inlineKey i) m ≠
          .error .stackOverflow := by
  have hchecked := haccepted.checked
  have hcondition := (hchecked.watches w (List.mem_of_getElem? hw)).condition
  rw [hwhen] at hcondition
  have hnames : ∀ n ∈ q.children, n ∈ p.predicates := fun n hn => hcondition n (children_subset hn)
  have hown : ∀ k ∈ q.children, Below p.predicates q k := fun k hk => ⟨k, hk, .refl⟩
  -- the condition does not reach its own key, so what it depends on is the same in both maps
  have hkey : ¬ Below p.predicates q (inlineKey i) := by
    rintro ⟨n, hn, hreach⟩
    exact huncaptured n hn hreach
  have hother : ¬ Below p.predicates q fresh := fun h =>
    hfresh (below_mem hchecked.grounded hnames h)
  have hclosed := below_closed hkey q
  refine ⟨?_, ?_, ?_⟩
  · intro L fuel frame nowMs assets id
    refine evaluateNamed_renamed hclosed (fun k hk => ?_) getElem?_insert_self
      getElem?_insert_self hown fuel
    rw [below_insert hkey q hk, below_insert hother q hk]
  · intro k hk L fuel frame nowMs assets id
    exact evaluateNamed_congr hclosed (fun k hk => below_insert hkey q hk) fuel (hown k hk)
  -- the name added is above everything it depends on, which leaves the graph without cycles
  · obtain ⟨rank, hfalls⟩ := exists_rank_insert hchecked.grounded huncaptured
    have hreturn : NoReturn (p.predicates.insert (inlineKey i) q) := by
      refine noReturn_of_rank (fun x => rank x.1) ?_
      rintro x y ⟨-, r, hr, hy, -⟩
      exact hfalls x.1 r hr y.1 hy
    refine ⟨(callers (p.predicates.insert (inlineKey i) q)).ncard + 1, ?_⟩
    intro fuel hfuel L frame nowMs assets id m
    have havoids := evaluateNamed_avoids (L := L)
      (c := ⟨frame, nowMs, p.predicates.insert (inlineKey i) q, assets, some id⟩) hreturn hfuel
    exact havoids (inlineKey i) m

section Concrete

def negating (name : String) : Program :=
  { Program.blank "p" with
    predicates := (∅ : Predicates).insert name (.colorAt ⟨0, 0⟩ ⟨0, 0, 0⟩ 0)
    watches := [⟨.inline (.not name), [], 0, .persistent⟩] }

def negatingDocument (name : String) : Json :=
  .object [("version", .string "0.1"), ("name", .string "p"),
    ("trigger", .object [("kind", .string "on_submit")]),
    ("predicates", .object [(name, .object [("kind", .string "color_at"),
      ("point", .object [("x", .int 0), ("y", .int 0)]),
      ("rgb", .array [.int 0, .int 0, .int 0]), ("tolerance", .int 0)])]),
    ("watches", .array [.object [("when", .object [("kind", .string "not"), ("of", .string name)]),
      ("do", .array [])]])]

theorem negatingDocument_wellFormed (name : String) : (negatingDocument name).WellFormed := by
  have hzero : JsonNumber.Representable (.int 0) := by
    show -2 ^ 63 ≤ (0 : Int) ∧ (0 : Int) < 2 ^ 64
    decide
  simp [Json.WellFormed, negatingDocument, Json.Each, Json.EachEntry, Json.EachItem, Json.int, hzero]

theorem negating_accepted {name : String} (h : (finish plainCrates (negating name)).isOk = true) :
    Accepted plainCrates (negating name) :=
  accepted_of_finish ⟨_, negatingDocument_wellFormed name⟩ rfl h

theorem inline_condition_capture_free_black :
    Perception.evaluateNamed plainLibs 9
        ⟨.dot, 10, (negating "black").predicates.insert "__inline_0" (.not "black"), ∅, some ⟨1⟩⟩
        "__inline_0" .new =
      Perception.evaluateNamed plainLibs 9
        ⟨.dot, 10, (negating "black").predicates.insert "fresh" (.not "black"), ∅, some ⟨1⟩⟩
        "fresh" .new := by
  have hother : ∀ k ∈ (PredicateKind.not "black").children,
      ¬ Reaches (negating "black").predicates k (inlineKey 0) := by
    intro k hk hreach
    obtain rfl := List.mem_singleton.mp hk
    rcases ReflTransGen.cases_head hreach with heq | ⟨n, ⟨q, hq, hn⟩, -⟩
    · exact absurd heq (by decide)
    · have hself : (negating "black").predicates["black"]? =
        some (.colorAt ⟨0, 0⟩ ⟨0, 0, 0⟩ 0) := getElem?_insert_self
      rw [← Option.some.inj (hself.symm.trans hq)] at hn
      exact nomatch hn
  have hfresh : "fresh" ∉ (negating "black").predicates := by
    intro hmem
    rcases Std.ExtTreeMap.mem_insert.mp hmem with heq | hmem
    · exact absurd (Std.compare_eq_iff_eq.mp heq) (by decide)
    · exact Std.ExtTreeMap.not_mem_empty hmem
  have hsame := (inline_condition_capture_free (negating_accepted (by decide +kernel)) rfl rfl hother
    hfresh).1 plainLibs 9 .dot 10 ∅ ⟨1⟩
  exact congrFun hsame .new

/-- The user has a predicate of the name that the scheduler takes, and the condition negates
itself. -/
theorem inline_condition_captured :
    Accepted plainCrates (negating "__inline_0") ∧
      (Perception.evaluateNamed plainLibs 33
        ⟨.dot, 10, (negating "__inline_0").predicates.insert "__inline_0" (.not "__inline_0"), ∅,
          some ⟨1⟩⟩ "__inline_0" .new).map Prod.fst = .ok (.error (.cycle "__inline_0")) ∧
      (Perception.evaluateNamed plainLibs 33
        ⟨.dot, 10, (negating "__inline_0").predicates.insert "fresh" (.not "__inline_0"), ∅,
          some ⟨1⟩⟩ "fresh" .new).map Prod.fst = .ok (.ok ⟨false, none, 10⟩) :=
  ⟨negating_accepted (by decide +kernel), by decide +kernel, by decide +kernel⟩

end Concrete

end Vcli.Dsl

import Vcli.Perception.Geometry

/-! Regions relative to another match. The evaluator is never given them resolved: it searches
the whole frame, wherever the other match is, if there is one. -/

namespace Vcli

open Fallible Perception

section Relative
variable {L : Libs} {c : EvalCtx} {fuel : Nat} {name anchor : String} {p : PredicateKind}
  {image : String} {confidence : F64} {region : Region} {throttleMs : UInt32}

def relativeRect (box : Rect) (offset : Point) (size : Option Size) : Rect :=
  ⟨box.x + offset.x, box.y + offset.y, (size.map Size.w).getD box.w, (size.map Size.h).getD box.h⟩

def Rect.Inside (inner outer : Rect) : Prop := ∀ x y, inner.Contains x y → outer.Contains x y

def Truthy (L : Libs) (c : EvalCtx) (name : String) (r : PredicateResult) : Prop :=
  r.truthy = true ∧ ∃ fuel m m', (∀ p, c.predicates[name]? = some p →
    m.cache.lookup (hashPredicate L p) = none) ∧
      (Perception.evaluateNamed L fuel c name).Returns m (.ok r) m'

/-- What a region relative to the match of `anchor` promises of the predicate called `name`. -/
def Restricted (L : Libs) (c : EvalCtx) (name anchor : String) (offset : Point)
    (size : Option Size) : Prop :=
  ∀ r, Truthy L c name r → ∃ ra m own, Truthy L c anchor ra ∧ ra.matchData = some m ∧
    r.matchData = some own ∧ own.bbox.Inside (relativeRect m.bbox offset size)

def Found (L : Libs) (c : EvalCtx) : PredicateKind → MatchData → Prop
  | .template image confidence region _, md => ∃ bytes hay, c.assets[assetKey image]? = some bytes ∧
    (haystack c.frame region).Returns () (.ok hay) () ∧ Sighted L bytes confidence hay md
  | _, _ => False

def Matchless (r : Except PerceptionError PredicateResult) : Prop :=
  ∀ v, r = .ok v → v.matchData = none

theorem matchless_error (e : PerceptionError) : Matchless (.error e) := fun _ h => nomatch h

theorem yields_matchless (truthy : Bool) (nowMs : UnixMs) :
    Yields (fun _ => True) (pure ⟨truthy, none, nowMs⟩ : Eval PredicateResult) Matchless := by
  refine yields_pure fun v hv => ?_
  rw [← Except.ok.inj hv]

theorem dispatch_matchless {ev : String → Nat → Eval PredicateResult} {depth : Nat}
    (hp : ∀ image confidence region throttleMs, p ≠ .template image confidence region throttleMs) :
    Yields (fun _ => True) (dispatch L c ev depth p) Matchless := by
  -- both kinds of list end with an answer of their own or that of a prefix, none of them a match
  have huntil : ∀ stop (step : String → Eval PredicateResult) of,
      Yields (fun _ => True) (evalUntil stop c.nowMs step of) Matchless := by
    intro stop step of
    induction of with
    | nil => exact yields_matchless _ _
    | cons n of ih =>
      refine yields_last matchless_error fun a => ?_
      split_ifs
      · exact yields_matchless _ _
      · exact ih
  cases p with
  | template image confidence region throttleMs => exact absurd rfl (hp _ _ _ _)
  | colorAt point rgb tolerance =>
    refine yields_beside fun r hr v hv => ?_
    subst hv
    obtain ⟨-, hr⟩ := fitsI32_of_returns hr
    obtain ⟨-, hr⟩ := fitsI32_of_returns hr
    rcases returns_bind.mp hr with ⟨e, -, he⟩ | ⟨b, _, -, hpure⟩
    · exact nomatch he
    · rw [Except.ok.inj (returns_pure.mp hpure).1]
  | pixelDiff region baseline threshold =>
    cases region with
    | absolute rect =>
      refine yields_last matchless_error fun crop => ?_
      refine yields_last matchless_error fun memory => ?_
      refine yields_last matchless_error fun _ => ?_
      split <;> exact yields_matchless _ _
    | window | relativeTo => exact yields_matchless _ _
  | allOf of | anyOf of => exact huntil _ _ of
  | not of => exact yields_last matchless_error fun a => yields_matchless _ _
  | elapsedMsSinceTrue child ms =>
    rw [dispatch]
    unfold evalElapsed
    cases c.program with
    | none => exact yields_fail (matchless_error _)
    | some program =>
      refine yields_last matchless_error fun a => ?_
      split_ifs
      · refine yields_last matchless_error fun _ => ?_
        exact yields_last matchless_error fun _ => yields_matchless _ _
      · exact yields_last matchless_error fun _ => yields_matchless _ _

theorem Truthy.found {r : PredicateResult} {md : MatchData} (h : Truthy L c name r)
    (hmd : r.matchData = some md) : ∃ p, c.predicates[name]? = some p ∧ Found L c p md := by
  obtain ⟨htrue, fuel, m, m', hfresh, hret⟩ := h
  unfold Perception.evaluateNamed at hret
  cases hname : c.predicates[name]? with
  | none =>
    rw [hname] at hret
    exact nomatch (returns_fail.mp hret).1
  | some p =>
    rw [hname] at hret
    refine ⟨p, rfl, ?_⟩
    -- the answer was computed in this tick, not found in the cache
    rcases memoize_returns hret with ⟨v, hhit, -, -⟩ | ⟨-, ⟨e, he, -⟩ | ⟨v, m₁, -, hx, -⟩⟩
    · exact nomatch (hfresh p hname).symm.trans hhit
    · exact nomatch he
    by_cases hp : ∃ image confidence region throttleMs,
        p = .template image confidence region throttleMs
    · obtain ⟨image, confidence, region, throttleMs, rfl⟩ := hp
      obtain ⟨hx, -⟩ := returns_beside.mp hx
      unfold evalTemplate at hx
      cases hbytes : c.assets[assetKey image]? with
      | none =>
        rw [hbytes] at hx
        exact nomatch (returns_fail.mp hx).1
      | some bytes =>
        rw [hbytes] at hx
        obtain ⟨hay, md', hhay, hsighted, rfl⟩ := matchImage_sighted hx htrue
        obtain rfl := Option.some.inj hmd
        exact ⟨bytes, hay, hbytes, hhay, hsighted⟩
    · have hnone := (dispatch_matchless (fun i k r t hpt => hp ⟨i, k, r, t, hpt⟩) trivial hx).2
        r rfl
      exact nomatch hmd.symm.trans hnone

theorem truthy_of_found {md : MatchData} (hname : c.predicates[name]? = some p)
    (h : Found L c p md) : Truthy L c name ⟨true, some md, c.nowMs⟩ := by
  cases p with
  | template image confidence region throttleMs =>
    obtain ⟨bytes, hay, hbytes, hhay, hsighted⟩ := h
    have heval : (evalTemplate L c.frame c.nowMs c.assets image confidence region).Returns ()
        (.ok ⟨true, some md, c.nowMs⟩) () := by
      rw [evalTemplate, hbytes]
      exact matchImage_returns hhay hsighted
    have hcall : (Perception.evaluateNamed L 0 c name).Returns .new
        (.ok ⟨true, some md, c.nowMs⟩)
        (Memory.new.remember (hashPredicate L (.template image confidence region throttleMs))
          ⟨true, some md, c.nowMs⟩) := by
      rw [Perception.evaluateNamed, hname]
      exact memoize_miss rfl (returns_beside.mpr ⟨heval, rfl⟩)
    exact ⟨rfl, 0, .new, _, fun _ _ => rfl, hcall⟩
  | colorAt | pixelDiff | allOf | anyOf | not | elapsedMsSinceTrue => exact False.elim h

theorem Truthy.placed {r : PredicateResult}
    (hname : c.predicates[name]? = some (.template image confidence region throttleMs))
    (h : Truthy L c name r) : ∃ md, r.matchData = some md := by
  obtain ⟨htrue, fuel, m, m', hfresh, hret⟩ := h
  rw [Perception.evaluateNamed, hname] at hret
  rcases memoize_returns hret with ⟨v, hhit, -, -⟩ | ⟨-, ⟨e, he, -⟩ | ⟨v, m₁, -, hx, -⟩⟩
  · cases (hfresh _ hname).symm.trans hhit
  · cases he
  obtain ⟨hx, -⟩ := returns_beside.mp hx
  unfold evalTemplate at hx
  cases hbytes : c.assets[assetKey image]? with
  | none =>
    rw [hbytes] at hx
    cases (returns_fail.mp hx).1
  | some bytes =>
    rw [hbytes] at hx
    obtain ⟨hay, md, -, -, rfl⟩ := matchImage_sighted hx htrue
    exact ⟨md, rfl⟩

def SeenAnywhere (L : Libs) (c : EvalCtx) (image : String) (confidence : F64)
    (md : MatchData) : Prop :=
  ∃ bytes whole, c.assets[assetKey image]? = some bytes ∧
    (frameToRgb c.frame).Returns () (.ok whole) () ∧
    Sighted L bytes confidence (whole, c.frame.bounds.x, c.frame.bounds.y) md

theorem found_relative {kind : Anchor} {offset : Point} {size : Option Size} {md : MatchData} :
    Found L c (.template image confidence (.relativeTo anchor kind offset size) throttleMs) md ↔
      SeenAnywhere L c image confidence md := by
  constructor
  · rintro ⟨bytes, hay, hbytes, hhay, hsighted⟩
    rcases returns_bind.mp hhay with ⟨e, -, he⟩ | ⟨whole, _, hwhole, hpure⟩
    · exact nomatch he
    obtain rfl := Except.ok.inj (returns_pure.mp hpure).1
    exact ⟨bytes, whole, hbytes, hwhole, hsighted⟩
  · rintro ⟨bytes, whole, hbytes, hwhole, hsighted⟩
    refine ⟨bytes, _, hbytes, ?_, hsighted⟩
    exact returns_bind.mpr (.inr ⟨whole, (), hwhole, returns_pure.mpr ⟨rfl, rfl⟩⟩)

/-- A relative region keeps its promise only by luck: if the image is seen nowhere on the frame,
or its best match on the whole frame happens to lie where the region is. -/
theorem restricted_iff (L : Libs) (c : EvalCtx) (name anchor image : String) (confidence : F64)
    (kind : Anchor) (offset : Point) (size : Option Size) (throttleMs : UInt32)
    (hname : c.predicates[name]? =
      some (.template image confidence (.relativeTo anchor kind offset size) throttleMs)) :
    Restricted L c name anchor offset size ↔
      ∀ own, SeenAnywhere L c image confidence own →
        ∃ q m, c.predicates[anchor]? = some q ∧ Found L c q m ∧
          own.bbox.Inside (relativeRect m.bbox offset size) := by
  constructor
  · intro h own hseen
    obtain ⟨ra, m, own', hra, hm, hown, hinside⟩ :=
      h _ (truthy_of_found hname (found_relative.mpr hseen))
    obtain ⟨q, hq, hfound⟩ := hra.found hm
    obtain rfl := Option.some.inj hown
    exact ⟨q, m, hq, hfound, hinside⟩
  · intro h r hr
    obtain ⟨own, hown⟩ := hr.placed hname
    obtain ⟨p, hp, hfound⟩ := hr.found hown
    obtain rfl := Option.some.inj (hname.symm.trans hp)
    obtain ⟨q, m, hq, hanchor, hinside⟩ := h own (found_relative.mp hfound)
    exact ⟨_, m, own, truthy_of_found hq hanchor, rfl, hown, hinside⟩

section Concrete

def labelled : Program :=
  { Program.blank "p" with
    predicates := ((∅ : Predicates).insert "label" (.colorAt ⟨-7, 3⟩ ⟨0, 0, 0⟩ 0)).insert "button"
      (.template "sha256:a" ⟨0x3fe0000000000000#64⟩
        (.relativeTo "label" .match_ ⟨0, 40⟩ (some ⟨1, 1⟩)) 0)
    watches := [⟨.byName "button", [], 0, .persistent⟩] }

def labelledCtx : EvalCtx :=
  ⟨.white, 0, labelled.predicates, (∅ : Assets).insert "a" whitePng, some ⟨1⟩⟩

theorem labelled_button : labelledCtx.predicates["button"]? =
    some (.template "sha256:a" ⟨0x3fe0000000000000#64⟩
      (.relativeTo "label" .match_ ⟨0, 40⟩ (some ⟨1, 1⟩)) 0) :=
  Std.ExtTreeMap.getElem?_insert_self

theorem labelled_label :
    labelledCtx.predicates["label"]? = some (.colorAt ⟨-7, 3⟩ ⟨0, 0, 0⟩ 0) := by
  have hne : ¬ compare "button" "label" = .eq := by decide +kernel
  show (Std.ExtTreeMap.insert _ "button" _)["label"]? = _
  rw [Std.ExtTreeMap.getElem?_insert, if_neg hne, Std.ExtTreeMap.getElem?_insert_self]

theorem labelled_accepted : Dsl.Accepted Dsl.plainCrates labelled := by
  refine Dsl.accepted_of_fits ?_ (fun _ hid => by cases hid)
    (show Dsl.major "0.1" = Dsl.supportedDslMajor by decide) (by decide +kernel)
  constructor
  case predicates =>
    intro n q hq
    simp only [labelled, Std.ExtTreeMap.getElem?_insert] at hq
    split_ifs at hq
    · obtain rfl := Option.some.inj hq
      refine ⟨trivial, trivial, by decide, trivial, ⟨⟨by decide, by decide⟩, by decide, by decide⟩,
        fun s hs => ?_⟩
      obtain rfl := Option.some.inj hs
      exact ⟨⟨by decide, by decide⟩, by decide, by decide⟩
    · obtain rfl := Option.some.inj hq
      exact ⟨trivial, ⟨by decide, by decide⟩, by decide, by decide⟩
    · simp at hq
  case watches =>
    intro w hw
    obtain rfl := List.mem_singleton.mp hw
    exact ⟨trivial, fun _ hs => (by cases hs), trivial⟩
  case labels => simp [labelled, Program.blank]
  case priority => exact inI32_zero
  case body | onComplete | onFail => exact fun _ hs => by cases hs
  all_goals trivial

theorem button_seen : SeenAnywhere whiteLibs labelledCtx "sha256:a" ⟨0x3fe0000000000000#64⟩
    ⟨⟨-7, 3, 1, 1⟩, ⟨0x3ff0000000000000#64⟩⟩ := by
  have hkey : assetKey "sha256:a" = "a" := by decide +kernel
  have hbytes : labelledCtx.assets[assetKey "sha256:a"]? = some whitePng := by
    rw [hkey]
    exact Std.ExtTreeMap.getElem?_insert_self
  refine ⟨whitePng, ⟨1, 1, [⟨255, 255, 255⟩]⟩, hbytes, rfl, ⟨1, 1, [255]⟩, rfl, le_refl 1,
    le_refl 1, rfl, ⟨by decide, by decide⟩, ⟨by decide, by decide⟩, rfl⟩

theorem restricted_labelled :
    Restricted whiteLibs labelledCtx "button" "label" ⟨0, 40⟩ (some ⟨1, 1⟩) ↔
      ∀ own, SeenAnywhere whiteLibs labelledCtx "sha256:a" ⟨0x3fe0000000000000#64⟩ own →
        ∃ q m, labelledCtx.predicates["label"]? = some q ∧ Found whiteLibs labelledCtx q m ∧
          own.bbox.Inside (relativeRect m.bbox ⟨0, 40⟩ (some ⟨1, 1⟩)) :=
  restricted_iff whiteLibs labelledCtx "button" "label" "sha256:a" ⟨0x3fe0000000000000#64⟩ .match_
    ⟨0, 40⟩ (some ⟨1, 1⟩) 0 labelled_button

/-- There is no label on the screen, and the button is found all the same. -/
theorem button_without_label :
    Dsl.Accepted Dsl.plainCrates labelled ∧
      ¬ Restricted whiteLibs labelledCtx "button" "label" ⟨0, 40⟩ (some ⟨1, 1⟩) := by
  refine ⟨labelled_accepted, fun h => ?_⟩
  obtain ⟨ra, m, own, hra, hm, -, -⟩ :=
    h _ (truthy_of_found labelled_button (found_relative.mpr button_seen))
  obtain ⟨q, hq, hfound⟩ := hra.found hm
  obtain rfl := Option.some.inj (labelled_label.symm.trans hq)
  exact hfound

end Concrete

end Relative

end Vcli

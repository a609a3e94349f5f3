import Vcli.Dsl.Queries
import Vcli.Perception.Clock

/-! What `elapsed_ms_since_true` says about a program that was accepted. Its answer is about the
ticks in which the clock was looked at; it is about all ticks if the predicate does not fall in
one of the others. -/

namespace Vcli.Dsl

open Relation Perception

def Has (p : Program) (s : PredicateKind) : Prop :=
  (∃ n : String, p.predicates[n]? = some s) ∨ ∃ w ∈ p.watches, w.when_ = .inline s

def Unambiguous (L : Libs) (p : Program) (s : PredicateKind) : Prop :=
  ∀ s', Has p s' → hashPredicate L s' = hashPredicate L s → s'.children = s.children

theorem children_canonical (nfc : String → String) (s : PredicateKind) :
    (s.canonical nfc).children = s.children.map nfc := by
  cases s <;> rfl

theorem unambiguous_of_nfc {L : Libs} {p : Program}
    (h : ∀ s, Has p s → ∀ k ∈ s.children, L.nfc k = k) {s : PredicateKind} (hs : Has p s) :
    Unambiguous L p s := by
  have hfixed : ∀ s, Has p s → (s.canonical L.nfc).children = s.children := by
    intro s hs
    rw [children_canonical]
    exact (List.map_congr_left (h s hs)).trans (List.map_id s.children)
  intro s' hs' hdigest
  have hnode : s'.canonical L.nfc = s.canonical L.nfc := congrArg PredicateHash.digested hdigest
  rw [← hfixed s' hs', hnode, hfixed s hs]

/-- Neither spelling nor the name of an inline condition stands between a program and its clock
of `child`. -/
structure Legible (L : Libs) (p : Program) (child : String) : Prop where
  clock : ∀ ms, Has p (.elapsedMsSinceTrue child ms) →
    Unambiguous L p (.elapsedMsSinceTrue child ms)
  child : ∀ q, p.predicates[child]? = some q → Unambiguous L p q
  uncaptured : Uncaptured p

/-- No evaluation that the tick makes for another program may come to a predicate with the digest
of one that `p` has over `child`. -/
def Private (L : Libs) (p : Program) (id : ProgramId) (child : String) (t : Pass) : Prop :=
  ∀ x ∈ t.queries, x.program ≠ id →
    ∀ s, Perception.Held x.predicates (Reaches x.predicates x.name) s →
      ∀ ms, Has p (.elapsedMsSinceTrue child ms) →
        hashPredicate L s ≠ hashPredicate L (.elapsedMsSinceTrue child ms)

theorem Falls.le_of_reaches {predicates : Predicates} {rank : String → Nat}
    (h : Falls predicates rank) {n k : String} (hreach : Reaches predicates n k) :
    rank k ≤ rank n := by
  induction hreach with
  | refl => exact Nat.le_refl _
  | tail _ hstep ih =>
    obtain ⟨q, hq, hk⟩ := hstep
    exact (h _ q hq _ hk).le.trans ih

section Clock
variable {p : Program} {n child : String} {predicates : Predicates} {q : PredicateKind}

theorem Asked.has (hasked : Asked p n predicates) {k : String} {s : PredicateKind}
    (hs : predicates[k]? = some s) : Has p s := by
  cases hasked with
  | @inline i w c hw hwhen =>
    by_cases hk : k = inlineKey i
    · subst hk
      rw [getElem?_insert_self] at hs
      obtain rfl := Option.some.inj hs
      exact .inr ⟨w, List.mem_of_getElem? hw, hwhen⟩
    · rw [getElem?_insert_ne hk] at hs
      exact .inl ⟨k, hs⟩
  | trigger | byName | until_ | step | target => exact .inl ⟨k, hs⟩

/-- An inline condition that is not captured finds every name below it as the program has it. -/
theorem reaches_insert {key : String} {c : PredicateKind}
    (huncaptured : ∀ k ∈ c.children, ¬ Reaches p.predicates k key) {k : String}
    (h : Reaches (p.predicates.insert key c) key k) :
    k = key ∨ ∃ n ∈ c.children, Reaches p.predicates n k := by
  induction h with
  | refl => exact .inl rfl
  | @tail k k' _ hstep ih =>
    obtain ⟨s, hs, hk'⟩ := hstep
    right
    by_cases hk : k = key
    · subst hk
      rw [getElem?_insert_self] at hs
      obtain rfl := Option.some.inj hs
      exact ⟨k', hk', .refl⟩
    · rw [getElem?_insert_ne hk] at hs
      obtain ⟨n, hn, hreach⟩ := ih.resolve_left hk
      exact ⟨n, hn, hreach.tail ⟨s, hs, hk'⟩⟩

theorem Asked.getElem?_child (hasked : Asked p n predicates) (huncaptured : Uncaptured p)
    (hq : p.predicates[child]? = some q) {s : PredicateKind}
    (hs : Perception.Held predicates (Reaches predicates n) s) (hchild : child ∈ s.children) :
    predicates[child]? = some q := by
  cases hasked with
  | @inline i w c hw hwhen =>
    have hc := huncaptured i w c hw hwhen
    obtain ⟨k, hreach, hk⟩ := hs
    have hne : child ≠ inlineKey i := by
      rintro rfl
      by_cases hroot : k = inlineKey i
      · subst hroot
        rw [getElem?_insert_self] at hk
        obtain rfl := Option.some.inj hk
        exact hc _ hchild .refl
      · rw [getElem?_insert_ne hroot] at hk
        obtain ⟨n, hn, hbelow⟩ := (reaches_insert hc hreach).resolve_left hroot
        exact hc n hn (hbelow.tail ⟨s, hk, hchild⟩)
    rw [getElem?_insert_ne hne]
    exact hq
  | trigger | byName | until_ | step | target => exact hq

theorem Asked.above (hasked : Asked p n predicates) (h : Checked p) (huncaptured : Uncaptured p)
    (hq : p.predicates[child]? = some q) {s : PredicateKind}
    (hs : Perception.Held predicates (Reaches predicates n) s) (hsame : s.children = q.children)
    {k : String} (hk : k ∈ s.children) : ¬ Reaches predicates k child := by
  intro hreach
  obtain ⟨rank, hfalls⟩ := hasked.exists_rank h huncaptured
  have hdown := hfalls.le_of_reaches hreach
  obtain ⟨j, hj, hbound⟩ := hs
  have hbelow := hfalls j s hbound k hk
  by_cases hroot : child = n
  · subst hroot
    have hup := hfalls.le_of_reaches hj
    omega
  · have hchild : predicates[child]? = some q := by
      cases hasked with
      | inline =>
        rw [getElem?_insert_ne hroot]
        exact hq
      | trigger | byName | until_ | step | target => exact hq
    rw [hsame] at hk
    have hcycle := hfalls child q hchild k hk
    omega

theorem Asked.reads {L : Libs} {id : ProgramId} (hasked : Asked p n predicates) (h : Checked p)
    (hp : Legible L p child) (hq : p.predicates[child]? = some q) :
    Reads L ⟨id, child⟩ (fun ms => Has p (.elapsedMsSinceTrue child ms)) q predicates
      (Reaches predicates n) where
  closed := reaches_closed predicates n
  delay := by
    rintro ms ⟨k, -, hk⟩
    exact hasked.has hk
  own := by
    rintro s ⟨k, -, hk⟩ ms hms hdigest
    have hchildren := hp.clock ms hms s (hasked.has hk) hdigest
    have hnode := congrArg PredicateHash.digested hdigest
    cases s with
    | elapsedMsSinceTrue child' ms' =>
      obtain ⟨-, rfl⟩ := PredicateKind.elapsedMsSinceTrue.inj hnode
      obtain ⟨rfl, -⟩ := List.cons.inj hchildren
      rfl
    | colorAt | template | pixelDiff | allOf | anyOf | not => exact nomatch hnode
  child := fun ms hs => hasked.getElem?_child hp.uncaptured hq hs List.mem_cons_self
  above := by
    intro s hs hdigest k hk
    obtain ⟨j, hj, hbound⟩ := hs
    have hsame := hp.child q hq s (hasked.has hbound) hdigest
    exact hasked.above h hp.uncaptured hq ⟨j, hj, hbound⟩ hsame hk

theorem Has.child_mem {ms : UInt32} (he : Has p (.elapsedMsSinceTrue child ms))
    (h : Checked p) : child ∈ p.predicates := by
  rcases he with ⟨n, hn⟩ | ⟨w, hw, hwhen⟩
  · exact h.grounded.children_mem hn List.mem_cons_self
  · have hcondition := (h.watches w hw).condition
    rw [hwhen] at hcondition
    exact hcondition child List.mem_cons_self

theorem private_silent {L : Libs} {id : ProgramId} {t : Pass} (ht : Private L p id child t)
    {x : Query} (hx : x ∈ t.queries) (hne : x.program ≠ id) :
    Silent L ⟨id, child⟩ (fun ms => Has p (.elapsedMsSinceTrue child ms)) x.program x.predicates
      (Reaches x.predicates x.name) where
  closed := reaches_closed x.predicates x.name
  clock := fun _ _ _ heq => hne (congrArg ProgramPredKey.program heq)
  digest := ht x hx hne

end Clock

/-- If a predicate `elapsed_ms_since_true` is true in a captured tick, then for as long as it says
its child would have been true in every captured tick, provided that no fall of the child went by
in a tick that did not look at the clock. -/
theorem elapsed_true_sustained {X : Crates} {L : Libs} {fuel : Nat} {p : Program}
    {id : ProgramId} {assets : Assets} {child : String} {ms : UInt32}
    (haccepted : Accepted X p) (he : Has p (.elapsedMsSinceTrue child ms))
    (hp : Legible L p child) {ts : List Pass}
    (hasked : ∀ t ∈ ts, ∀ x ∈ t.queries, x.program = id → Asked p x.name x.predicates)
    (hprivate : ∀ t ∈ ts, Private L p id child t) {trail : List Passage}
    (hrun : runPasses L fuel ts .new = .ok trail)
    (hseen : ∀ x ∈ trail, ¬ x.Overlooks L fuel ⟨p.predicates, assets⟩ ⟨id, child⟩
      fun ms => Has p (.elapsedMsSinceTrue child ms))
    {front rest : List Passage} {x : Passage} (htrail : trail = front ++ x :: rest)
    {r : PredicateResult}
    (hr : x.after.cache.lookup (hashPredicate L (.elapsedMsSinceTrue child ms)) = some r)
    (htrue : r.truthy = true) :
    Sustained L fuel ⟨p.predicates, assets⟩ ⟨id, child⟩ ms (front ++ [x]) x.pass.nowMs := by
  obtain ⟨q, hq⟩ := getElem?_of_mem (he.child_mem haccepted.checked)
  have horderly : ∀ t ∈ ts, t.Orderly L ⟨id, child⟩
      (fun ms => Has p (.elapsedMsSinceTrue child ms)) q := by
    intro t ht y hy
    by_cases hown : y.program = id
    · exact .inl ⟨hown, (hasked t ht y hy hown).reads haccepted.checked hp hq⟩
    · exact .inr (private_silent (hprivate t ht) hy hown)
  have hstart : Started L fuel ⟨p.predicates, assets⟩ ⟨id, child⟩ []
      (Memory.new.firstTrueAt.lookup ⟨id, child⟩) := fun _ hstart => nomatch hstart
  exact runPasses_sustained (w := ⟨p.predicates, assets⟩) hq hrun horderly hseen hstart htrail he
    hr htrue

section Concrete

def patient : Program :=
  { Program.blank "p" with
    predicates := ((((∅ : Predicates).insert "black" (.colorAt ⟨0, 0⟩ ⟨0, 0, 0⟩ 0)).insert
      "white" (.colorAt ⟨0, 0⟩ ⟨255, 255, 255⟩ 0)).insert
      "late" (.elapsedMsSinceTrue "black" 5)).insert "any" (.anyOf ["white", "late"])
    watches := [⟨.byName "any", [], 0, .persistent⟩] }

theorem patient_getElem? {n : String} {q : PredicateKind} (h : patient.predicates[n]? = some q) :
    q = .anyOf ["white", "late"] ∨ q = .elapsedMsSinceTrue "black" 5 ∨
      q = .colorAt ⟨0, 0⟩ ⟨255, 255, 255⟩ 0 ∨ q = .colorAt ⟨0, 0⟩ ⟨0, 0, 0⟩ 0 := by
  simp only [patient, Std.ExtTreeMap.getElem?_insert] at h
  split_ifs at h
  · exact .inl (Option.some.inj h).symm
  · exact .inr (.inl (Option.some.inj h).symm)
  · exact .inr (.inr (.inl (Option.some.inj h).symm))
  · exact .inr (.inr (.inr (Option.some.inj h).symm))
  · simp at h

theorem patient_fits : patient.Fits fun _ => True where
  version := trivial
  name := trivial
  trigger := trivial
  predicates := by
    intro n q hq
    rcases patient_getElem? hq with rfl | rfl | rfl | rfl
    · exact ⟨trivial, fun _ _ => trivial⟩
    · exact ⟨trivial, trivial⟩
    · exact ⟨trivial, inI32_zero, inI32_zero⟩
    · exact ⟨trivial, inI32_zero, inI32_zero⟩
  watches := by
    intro w hw
    obtain rfl := List.mem_singleton.mp hw
    exact ⟨trivial, fun _ hs => (nomatch hs), trivial⟩
  body := fun _ hs => nomatch hs
  onComplete := fun _ hs => nomatch hs
  onFail := fun _ hs => nomatch hs
  labels := by simp [patient, Program.blank]
  priority := inI32_zero

theorem patient_accepted : Accepted plainCrates patient :=
  accepted_of_fits patient_fits (fun _ hid => nomatch hid)
    (show major "0.1" = supportedDslMajor by decide) (by decide +kernel)

theorem patient_legible : Legible plainLibs patient "black" where
  clock := fun _ hs => unambiguous_of_nfc (fun _ _ _ _ => rfl) hs
  child := fun _ hq => unambiguous_of_nfc (fun _ _ _ _ => rfl) (.inl ⟨"black", hq⟩)
  uncaptured := by
    intro i w q hw hwhen
    obtain rfl := List.mem_singleton.mp (List.mem_of_getElem? hw)
    exact nomatch hwhen

def whiteDot : Frame := { Frame.dot with pixels := [255, 255, 255, 255] }

def patientPass (frame : Frame) (nowMs : UnixMs) : Pass :=
  ⟨frame, nowMs, [⟨⟨1⟩, patient.predicates, ∅, "any"⟩]⟩

def sight (x : Passage) : UnixMs × Option Bool × Bool :=
  (x.pass.nowMs,
    (x.after.cache.lookup (hashPredicate plainLibs (.elapsedMsSinceTrue "black" 5))).map (·.truthy),
    decide (x.Holds plainLibs 5 ⟨patient.predicates, ∅⟩ ⟨⟨1⟩, "black"⟩))

theorem sights_flicker :
    (runPasses plainLibs 5 [patientPass .dot 0, patientPass whiteDot 10, patientPass .dot 20]
      .new).map (List.map sight) =
      .ok [(0, some false, true), (10, none, false), (20, some true, true)] := by
  decide +kernel

theorem sights_steady :
    (runPasses plainLibs 5 [patientPass .dot 0, patientPass .dot 10] .new).map (List.map sight) =
      .ok [(0, some false, true), (10, some true, true)] := by
  decide +kernel

theorem trail_of_sights {run : Except Crash (List Passage)} {l : List (UnixMs × Option Bool × Bool)}
    (h : run.map (List.map sight) = .ok l) : ∃ trail, run = .ok trail ∧ trail.map sight = l := by
  cases run with
  | error crash => exact nomatch h
  | ok trail => exact ⟨trail, rfl, Except.ok.inj h⟩

theorem patient_clock : Has patient (.elapsedMsSinceTrue "black" 5) :=
  .inl ⟨"late", by decide +kernel⟩

theorem patient_asked {frame : Frame} {nowMs : UnixMs} {x : Query}
    (hx : x ∈ (patientPass frame nowMs).queries) :
    x.program = ⟨1⟩ ∧ Asked patient x.name x.predicates := by
  obtain rfl := List.mem_singleton.mp hx
  exact ⟨rfl, .byName List.mem_cons_self rfl⟩

/-- The pixel is black in both ticks, and the clock is looked at in both. -/
theorem elapsed_true_sustained_steady :
    ∃ trail front x r,
      runPasses plainLibs 5 [patientPass .dot 0, patientPass .dot 10] .new = .ok trail ∧
      trail = front ++ [x] ∧
      x.after.cache.lookup (hashPredicate plainLibs (.elapsedMsSinceTrue "black" 5)) = some r ∧
      r.truthy = true ∧
      Sustained plainLibs 5 ⟨patient.predicates, ∅⟩ ⟨⟨1⟩, "black"⟩ 5 (front ++ [x])
        x.pass.nowMs := by
  obtain ⟨trail, hrun, hsights⟩ := trail_of_sights sights_steady
  have hseen : ∀ x ∈ trail, ¬ x.Overlooks plainLibs 5 ⟨patient.predicates, ∅⟩ ⟨⟨1⟩, "black"⟩
      fun ms => Has patient (.elapsedMsSinceTrue "black" ms) := by
    intro x hx hover
    have hsight : sight x ∈ trail.map sight := List.mem_map_of_mem hx
    have hnone : (sight x).2.1 = none :=
      Option.map_eq_none_iff.mpr (hover.unseen 5 patient_clock)
    rw [hsights] at hsight
    simp only [List.mem_cons, List.not_mem_nil, or_false] at hsight
    rcases hsight with h | h <;> rw [h] at hnone <;> exact nomatch hnone
  obtain ⟨x₁, rest, rfl, h₁, hrest⟩ := List.map_eq_cons_iff.mp hsights
  obtain ⟨x₂, rest, rfl, h₂, hnil⟩ := List.map_eq_cons_iff.mp hrest
  obtain rfl := List.map_eq_nil_iff.mp hnil
  obtain ⟨r, hr, htrue⟩ := Option.map_eq_some_iff.mp (congrArg (fun s => s.2.1) h₂)
  have hasked : ∀ t ∈ [patientPass .dot 0, patientPass .dot 10], ∀ x ∈ t.queries,
      x.program = ⟨1⟩ ∧ Asked patient x.name x.predicates := by
    intro t ht
    simp only [List.mem_cons, List.not_mem_nil, or_false] at ht
    rcases ht with rfl | rfl <;> exact fun x hx => patient_asked hx
  refine ⟨_, [x₁], x₂, r, hrun, rfl, hr, htrue, ?_⟩
  exact elapsed_true_sustained patient_accepted patient_clock patient_legible
    (fun t ht x hx _ => (hasked t ht x hx).2) (fun t ht x hx hne => absurd (hasked t ht x hx).1 hne)
    hrun hseen rfl hr htrue

/-- In the second tick the pixel is white, which decides the watch before it gets to the clock. In
the third one the clock has been running for 20 ms. -/
theorem elapsed_true_after_flicker :
    ¬ ∀ (p : Program) (id : ProgramId) (assets : Assets) (child : String) (ms : UInt32)
        (ts : List Pass) (trail front rest : List Passage) (x : Passage) (r : PredicateResult),
      Accepted plainCrates p → Has p (.elapsedMsSinceTrue child ms) →
      (∀ t ∈ ts, ∀ x ∈ t.queries, x.program = id ∧ Asked p x.name x.predicates) →
      runPasses plainLibs 5 ts .new = .ok trail → trail = front ++ x :: rest →
      x.after.cache.lookup (hashPredicate plainLibs (.elapsedMsSinceTrue child ms)) = some r →
      r.truthy = true →
      Sustained plainLibs 5 ⟨p.predicates, assets⟩ ⟨id, child⟩ ms (front ++ [x])
        x.pass.nowMs := by
  intro h
  obtain ⟨trail, hrun, hsights⟩ := trail_of_sights sights_flicker
  obtain ⟨x₁, rest, rfl, h₁, hrest⟩ := List.map_eq_cons_iff.mp hsights
  obtain ⟨x₂, rest, rfl, h₂, hrest⟩ := List.map_eq_cons_iff.mp hrest
  obtain ⟨x₃, rest, rfl, h₃, hnil⟩ := List.map_eq_cons_iff.mp hrest
  obtain rfl := List.map_eq_nil_iff.mp hnil
  obtain ⟨r, hr, htrue⟩ := Option.map_eq_some_iff.mp (congrArg (fun s => s.2.1) h₃)
  have hasked : ∀ t ∈ [patientPass .dot 0, patientPass whiteDot 10, patientPass .dot 20],
      ∀ x ∈ t.queries, x.program = ⟨1⟩ ∧ Asked patient x.name x.predicates := by
    intro t ht
    simp only [List.mem_cons, List.not_mem_nil, or_false] at ht
    rcases ht with rfl | rfl | rfl <;> exact fun x hx => patient_asked hx
  obtain ⟨earlier, first, since, hpast, hms, hholds⟩ := h patient ⟨1⟩ ∅ "black" 5 _ _ [x₁, x₂] [] x₃ r
    patient_accepted patient_clock hasked hrun rfl hr htrue
  have hwhite : ¬ x₂.Holds plainLibs 5 ⟨patient.predicates, ∅⟩ ⟨⟨1⟩, "black"⟩ :=
    of_decide_eq_false (congrArg (fun s => s.2.2) h₂)
  -- the last tick alone is too short, and the one before it is white
  match earlier, hpast with
  | [], hpast =>
    obtain ⟨-, rfl⟩ := List.cons.inj hpast
    exact hwhite (hholds x₂ (by simp))
  | [_], hpast =>
    obtain ⟨rfl, -⟩ := List.cons.inj (List.cons.inj hpast).2
    exact hwhite (hholds x₂ List.mem_cons_self)
  | [_, _], hpast =>
    obtain ⟨rfl, -⟩ := List.cons.inj (List.cons.inj (List.cons.inj hpast).2).2
    rw [Int.sub_self] at hms
    exact absurd hms (by decide)
  | _ :: _ :: _ :: earlier, hpast =>
    exact absurd (congrArg List.length hpast) (by simp)

end Concrete

end Vcli.Dsl

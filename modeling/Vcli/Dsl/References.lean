import Vcli.Dsl.Inline

/-! The names of a validated program, wherever they stand, are names of its predicates, and so is
whatever they depend on. -/

namespace Vcli.Dsl

open Relation

section Watches
variable {p : Program} {predicates : Predicates} {s : Step} {at_ : JsonPath}

def Acting (s : Step) : Prop := ∀ ms predicate timeoutMs onTimeout onFail,
  s ≠ .sleepMs ms ∧ s ≠ .waitFor predicate timeoutMs onTimeout ∧ s ≠ .assert predicate onFail

theorem validateStep_acting (h : validateStep s predicates true at_ = .ok ()) : Acting s := by
  intro ms predicate timeoutMs onTimeout onFail
  refine ⟨?_, ?_, ?_⟩
  · rintro rfl
    exact nomatch h
  · rintro rfl
    exact nomatch h
  · rintro rfl
    exact nomatch h

theorem validateWatch_acting {w : Watch} (h : validateWatch w predicates at_ = .ok ()) :
    ∀ s ∈ w.steps, Acting s := by
  obtain ⟨⟨⟩, -, h⟩ := Fallible.bind_eq_ok.mp h
  obtain ⟨⟨⟩, hsteps, -⟩ := Fallible.bind_eq_ok.mp h
  intro s hs
  obtain ⟨i, hi⟩ := forM_zipIdx_eq_ok hsteps s hs
  exact validateStep_acting hi

theorem Accepted.acting {X : Crates} (h : Accepted X p) :
    ∀ w ∈ p.watches, ∀ s ∈ w.steps, Acting s := by
  obtain ⟨v, hashes, hv⟩ := h
  obtain ⟨q, -, hfinish⟩ := Fallible.bind_eq_ok.mp hv
  obtain ⟨-, rfl⟩ := finish_ok hfinish
  obtain ⟨⟨⟩, -, hfinish⟩ := Fallible.bind_eq_ok.mp hfinish
  obtain ⟨⟨⟩, -, hfinish⟩ := Fallible.bind_eq_ok.mp hfinish
  obtain ⟨⟨⟩, hwatches, -⟩ := Fallible.bind_eq_ok.mp hfinish
  intro w hw
  obtain ⟨i, hi⟩ := forM_zipIdx_eq_ok hwatches w hw
  exact validateWatch_acting hi

end Watches

section Dispatch
variable {σ τ : Type} (B : Backends σ τ) (tk : Tick) (c : Caller)

def Sensible {α : Type} (r : Except RuntimeError α) : Prop := ∀ msg, r ≠ .error (.internal msg)

theorem sensible_callInput (call : InputCall) :
    (callInput B c call).Sat fun r _ => Sensible r := by
  intro env msg h
  rw [callInput] at h
  cases hr : (B.call call env.input).1 with
  | error e =>
    rw [hr] at h
    cases h
  | ok u =>
    rw [hr] at h
    cases h

theorem sensible_parse (s : String) : Sensible (Expr.parse s) := by
  intro msg h
  unfold Expr.parse at h
  split at h
  · split at h
    · exact nomatch h
    · split_ifs at h <;> exact nomatch h
  · exact nomatch h

theorem sensible_resolveTarget (target : Target) :
    (resolveTarget B tk c target).Sat fun r _ => Sensible r := by
  cases target with
  | absolute at_ => exact Interaction.sat_pure fun _ h => by cases h
  | expression s =>
    have hparse := sensible_parse s
    rw [resolveTarget]
    generalize Expr.parse s = r at hparse
    cases r with
    | error e =>
      refine Interaction.sat_pure fun msg h => hparse msg ?_
      rw [Except.error.inj h]
    | ok e =>
      refine Interaction.sat_bind (q := fun _ _ => True) (fun _ => trivial) fun r _ _ => ?_
      cases r with
      | error err => exact Interaction.sat_pure fun _ h => by cases h
      | ok r =>
        cases hr : r.matchData with
        | none =>
          cases ha : e.accessor <;>
            exact Interaction.sat_pure fun msg h => by
              simp [Expr.resolveCenter, Expr.resolveBbox, hr, Except.map] at h
        | some md =>
          cases ha : e.accessor <;>
            exact Interaction.sat_pure fun msg h => by
              simp [Expr.resolveCenter, Expr.resolveBbox, hr, Except.map] at h

theorem sensible_dispatchAt (target : Target) (f : Point → InputCall) :
    (dispatchAt B tk c target f).Sat fun r _ => Sensible r := by
  refine Interaction.sat_bind (sensible_resolveTarget B tk c target) fun r _ hr => ?_
  cases r with
  | error e =>
    refine Interaction.sat_pure fun msg h => hr msg ?_
    rw [Except.error.inj h]
  | ok at_ => exact sensible_callInput B c (f at_)

theorem sensible_dispatchAction {s : Step} (h : Acting s) :
    (dispatchAction B tk c s).Sat fun r _ => Sensible r := by
  cases s with
  | move at_ => exact sensible_dispatchAt B tk c at_ _
  | click at_ button => exact sensible_dispatchAt B tk c at_ _
  | scroll at_ dx dy => exact sensible_dispatchAt B tk c at_ _
  | type text => exact sensible_callInput B c _
  | key key modifiers => exact sensible_callInput B c _
  | sleepMs ms => exact absurd rfl (h ms "" 0 .fail .fail).1
  | waitFor predicate timeoutMs onTimeout =>
    exact absurd rfl (h 0 predicate timeoutMs onTimeout .fail).2.1
  | assert predicate onFail => exact absurd rfl (h 0 predicate 0 .fail onFail).2.2

end Dispatch

section Names
variable {p : Program} {predicates : Predicates} {n m : String}

theorem depends_named (h : Checked p) (hn : n ∈ p.predicates)
    (hreach : ReflTransGen (Depends p.predicates) n m) : m ∈ p.predicates := by
  cases hreach with
  | refl => exact hn
  | tail _ hlast => exact h.grounded.named _ _ hlast

theorem inline_depends_named (h : Checked p) {i : Nat} {w : Watch} {q : PredicateKind}
    (hw : p.watches[i]? = some w) (hwhen : w.when_ = .inline q)
    (hreach : TransGen (Depends (p.predicates.insert (inlineKey i) q)) n m) :
    m ∈ p.predicates := by
  have hcondition := (h.watches _ (List.mem_of_getElem? hw)).condition
  rw [hwhen] at hcondition
  obtain ⟨k, -, q', hq', hm⟩ := TransGen.tail'_iff.mp hreach
  by_cases hk : k = inlineKey i
  · rw [hk, getElem?_insert_self] at hq'
    rw [← Option.some.inj hq'] at hm
    exact hcondition m hm
  · rw [getElem?_insert_ne hk] at hq'
    exact h.grounded.named k m ⟨q', hq', hm⟩

/-- Whatever the scheduler asks for under a name of the program's own is one of its predicates,
and so is everything below whatever it asks for; and no step of a watch is one that has no place
there. -/
theorem accepted_references_closed {X : Crates} (haccepted : Accepted X p) :
    (∀ n predicates, Asked p n predicates → n ∈ p.predicates ∧ predicates = p.predicates ∨
      ∃ i w q, p.watches[i]? = some w ∧ w.when_ = .inline q ∧ n = inlineKey i ∧
        predicates = p.predicates.insert n q) ∧
    (∀ n predicates, Asked p n predicates → ∀ m, TransGen (Depends predicates) n m →
      m ∈ p.predicates) ∧
    (∀ s ∈ allSteps p, ∀ raw, targetOf s = some (.expression raw) →
      ∃ e, Expression.parse raw .root = .ok e ∧ e.name ∈ p.predicates) ∧
    ∀ (σ τ : Type) (B : Backends σ τ) (tk : Tick) (c : Caller), ∀ w ∈ p.watches, ∀ s ∈ w.steps,
      ∀ env msg, (dispatchAction B tk c s env).1 ≠ .error (.internal msg) := by
  have hchecked := haccepted.checked
  refine ⟨fun n predicates hasked => ?_, fun n predicates hasked m hreach => ?_,
    fun s hs raw ht => ?_, ?_⟩
  · have hnamed := (hasked.named hchecked).1
    cases hasked with
    | inline hw hwhen => exact .inr ⟨_, _, _, hw, hwhen, rfl, rfl⟩
    | trigger | byName | until_ | step | target => exact .inl ⟨hnamed, rfl⟩
  · have hnamed := (hasked.named hchecked).1
    cases hasked with
    | inline hw hwhen => exact inline_depends_named hchecked hw hwhen hreach
    | trigger | byName | until_ | step | target =>
      exact depends_named hchecked hnamed hreach.to_reflTransGen
  · obtain ⟨e, q, hparse, hq, -⟩ := (hchecked.step s hs).target _ ht raw rfl
    refine ⟨e, hparse, Std.ExtTreeMap.mem_iff_isSome_getElem?.mpr ?_⟩
    rw [hq]
    rfl
  · intro σ τ B tk c w hw s hs env msg
    exact sensible_dispatchAction B tk c (haccepted.acting w hw s hs) env msg

def pressing : Program :=
  let center := Target.expression "$button.match.center"
  { Program.blank "p" with
    predicates := ((∅ : Predicates).insert "button"
      (.template "sha256:a" ⟨0x3fe0000000000000#64⟩ (.absolute ⟨0, 0, 9, 9⟩) 0)).insert
        "hidden" (.not "button")
    watches := [⟨.inline (.not "hidden"), [.click center .left], 0, .untilPredicate "hidden"⟩]
    body := [.waitFor "button" 1000 .fail, .click center .left] }

theorem pressing_accepted : Accepted plainCrates pressing := by
  refine accepted_of_fits ?_ (fun _ hid => by cases hid)
    (show major "0.1" = supportedDslMajor by decide) (by decide +kernel)
  have hrect : (Rect.mk 0 0 9 9).Fits := ⟨inI32_zero, inI32_zero, ⟨by decide, by decide⟩,
    ⟨by decide, by decide⟩⟩
  constructor
  case predicates =>
    intro n q hq
    simp only [pressing, Std.ExtTreeMap.getElem?_insert] at hq
    split_ifs at hq
    · obtain rfl := Option.some.inj hq
      exact ⟨trivial, trivial⟩
    · obtain rfl := Option.some.inj hq
      exact ⟨trivial, trivial, by decide, hrect⟩
    · simp at hq
  case watches =>
    intro w hw
    obtain rfl := List.mem_singleton.mp hw
    refine ⟨trivial, fun s hs => ?_, trivial⟩
    obtain rfl := List.mem_singleton.mp hs
    trivial
  case body =>
    intro s hs
    simp only [pressing, List.mem_cons, List.not_mem_nil, or_false] at hs
    rcases hs with rfl | rfl <;> trivial
  case labels => simp [pressing, Program.blank]
  case priority => exact inI32_zero
  case onComplete | onFail => exact fun _ hs => by cases hs
  all_goals trivial

theorem accepted_references_closed_pressing :
    (∀ n predicates, Asked pressing n predicates →
      n ∈ pressing.predicates ∧ predicates = pressing.predicates ∨
        ∃ i w q, pressing.watches[i]? = some w ∧ w.when_ = .inline q ∧
          n = inlineKey i ∧ predicates = pressing.predicates.insert n q) ∧
    (∀ n predicates, Asked pressing n predicates → ∀ m,
      TransGen (Depends predicates) n m → m ∈ pressing.predicates) ∧
    (∀ s ∈ allSteps pressing, ∀ raw, targetOf s = some (.expression raw) →
      ∃ e, Expression.parse raw .root = .ok e ∧ e.name ∈ pressing.predicates) ∧
    ∀ (σ τ : Type) (B : Backends σ τ) (tk : Tick) (c : Caller),
      ∀ w ∈ pressing.watches, ∀ s ∈ w.steps, ∀ env msg,
        (dispatchAction B tk c s env).1 ≠ .error (.internal msg) :=
  accepted_references_closed pressing_accepted

end Names

end Vcli.Dsl

import Mathlib.Data.List.Basic

/-! A slot keeps the first thing that is put into it, until an event clears it. What an event gives
and whether it clears may depend on the events before it. -/

namespace Slot

variable {E V : Type} {gives : List E → E → V → Prop} {clears : List E → E → Prop}
  {content : List E → Option V}

structure Law (gives : List E → E → V → Prop) (clears : List E → E → Prop)
    (content : List E → Option V) : Prop where
  cleared : ∀ es e, clears es e → content (es ++ [e]) = none
  kept : ∀ es e, ¬ clears es e → ∀ v,
    content (es ++ [e]) = some v ↔ content es = some v ∨ content es = none ∧ gives es e v

def Quiet (clears : List E → E → Prop) (before es : List E) : Prop :=
  ∀ pre e post, es = pre ++ e :: post → ¬ clears (before ++ pre) e

def Silent (gives : List E → E → V → Prop) (before es : List E) : Prop :=
  ∀ pre e post, es = pre ++ e :: post → ∀ v, ¬ gives (before ++ pre) e v

def First (gives : List E → E → V → Prop) (before es : List E) (v : V) : Prop :=
  ∃ pre e post, es = pre ++ e :: post ∧ Silent gives before pre ∧ gives (before ++ pre) e v

/-- What stands in the slot: what was there from the start or was given first, or what was given
first since the last event that cleared it. -/
def Stands (gives : List E → E → V → Prop) (clears : List E → E → Prop) (start : Option V)
    (es : List E) (v : V) : Prop :=
  Quiet clears [] es ∧ (start = some v ∨ start = none ∧ First gives [] es v) ∨
    ∃ pre e post, es = pre ++ e :: post ∧ clears pre e ∧ Quiet clears (pre ++ [e]) post ∧
      First gives (pre ++ [e]) post v

section Splits
variable {before es : List E} {e : E} {v : V}

theorem forall_split_cons {P : List E → E → Prop} :
    (∀ pre x post, e :: es = pre ++ x :: post → P pre x) ↔
      P [] e ∧ ∀ pre x post, es = pre ++ x :: post → P (e :: pre) x := by
  constructor
  · intro h
    refine ⟨h [] e es rfl, ?_⟩
    rintro pre x post rfl
    exact h (e :: pre) x post rfl
  · rintro ⟨hhead, htail⟩ pre x post heq
    cases pre with
    | nil =>
      obtain ⟨rfl, rfl⟩ := List.cons.inj heq
      exact hhead
    | cons y pre =>
      obtain ⟨rfl, hrest⟩ := List.cons.inj heq
      exact htail pre x post hrest

theorem quiet_nil : Quiet clears before [] := by
  intro pre e post h
  exact absurd h.symm (List.append_ne_nil_of_right_ne_nil pre (List.cons_ne_nil e post))

theorem quiet_cons : Quiet clears before (e :: es) ↔
    ¬ clears before e ∧ Quiet clears (before ++ [e]) es := by
  rw [Quiet, forall_split_cons, List.append_nil]
  simp only [Quiet, List.append_assoc, List.singleton_append]

theorem silent_nil : Silent gives before [] := by
  intro pre e post h
  exact absurd h.symm (List.append_ne_nil_of_right_ne_nil pre (List.cons_ne_nil e post))

theorem silent_cons : Silent gives before (e :: es) ↔
    (∀ v, ¬ gives before e v) ∧ Silent gives (before ++ [e]) es := by
  rw [Silent, forall_split_cons, List.append_nil]
  simp only [Silent, List.append_assoc, List.singleton_append]

theorem not_first_nil : ¬ First gives before [] v := by
  rintro ⟨pre, e, post, h, -⟩
  exact absurd h.symm (List.append_ne_nil_of_right_ne_nil pre (List.cons_ne_nil e post))

theorem first_cons : First gives before (e :: es) v ↔
    gives before e v ∨ (∀ w, ¬ gives before e w) ∧ First gives (before ++ [e]) es v := by
  constructor
  · rintro ⟨pre, x, post, heq, hsilent, hx⟩
    cases pre with
    | nil =>
      obtain ⟨rfl, rfl⟩ := List.cons.inj heq
      rw [List.append_nil] at hx
      exact .inl hx
    | cons y pre =>
      obtain ⟨rfl, rfl⟩ := List.cons.inj heq
      obtain ⟨hnone, hsilent⟩ := silent_cons.mp hsilent
      refine .inr ⟨hnone, pre, x, post, rfl, hsilent, ?_⟩
      rwa [List.append_assoc]
  · rintro (hv | ⟨hnone, pre, x, post, rfl, hsilent, hx⟩)
    · refine ⟨[], e, es, rfl, silent_nil, ?_⟩
      rwa [List.append_nil]
    · refine ⟨e :: pre, x, post, rfl, silent_cons.mpr ⟨hnone, hsilent⟩, ?_⟩
      rwa [List.append_assoc] at hx

theorem first_append {es' : List E} : First gives before (es ++ es') v ↔
    First gives before es v ∨ Silent gives before es ∧ First gives (before ++ es) es' v := by
  induction es generalizing before with
  | nil =>
    rw [List.nil_append, List.append_nil, or_iff_right not_first_nil]
    exact (and_iff_right silent_nil).symm
  | cons e es ih =>
    have hassoc : before ++ e :: es = before ++ [e] ++ es := by
      rw [List.append_assoc, List.singleton_append]
    rw [List.cons_append, first_cons, ih, first_cons, silent_cons, hassoc, or_assoc, and_or_left,
      and_assoc]

theorem first_append_one : First gives before (es ++ [e]) v ↔
    First gives before es v ∨ Silent gives before es ∧ gives (before ++ es) e v := by
  rw [first_append, first_cons]
  simp only [not_first_nil, and_false, or_false]

theorem silent_iff : Silent gives before es ↔ ∀ v, ¬ First gives before es v := by
  induction es generalizing before with
  | nil => exact iff_of_true silent_nil fun _ => not_first_nil
  | cons e es ih =>
    simp only [silent_cons, first_cons, ih, not_or]
    constructor
    · rintro ⟨he, hrest⟩ v
      exact ⟨he v, fun h => hrest v h.2⟩
    · intro h
      exact ⟨fun v => (h v).1, fun v hv => (h v).2 ⟨fun w => (h w).1, hv⟩⟩

theorem quiet_or_last (clears : List E → E → Prop) (before es : List E) :
    Quiet clears before es ∨ ∃ pre e post, es = pre ++ e :: post ∧ clears (before ++ pre) e ∧
      Quiet clears (before ++ pre ++ [e]) post := by
  induction es generalizing before with
  | nil => exact .inl quiet_nil
  | cons e es ih =>
    rcases ih (before ++ [e]) with hquiet | ⟨pre, x, post, rfl, hx, hquiet⟩
    · by_cases he : clears before e
      · refine .inr ⟨[], e, es, rfl, ?_, ?_⟩
        · rwa [List.append_nil]
        · rwa [List.append_nil]
      · exact .inl (quiet_cons.mpr ⟨he, hquiet⟩)
    · rw [List.append_assoc before [e] pre] at hx hquiet
      exact .inr ⟨e :: pre, x, post, rfl, hx, hquiet⟩

end Splits

section Content
variable {before es : List E} {v : V}

theorem Law.eq_none_iff (h : Law gives clears content) {e : E} (he : ¬ clears es e) :
    content (es ++ [e]) = none ↔ content es = none ∧ ∀ v, ¬ gives es e v := by
  rw [Option.eq_none_iff_forall_ne_some]
  simp only [ne_eq, h.kept es e he]
  cases content es with
  | none => simp only [reduceCtorEq, false_or, true_and]
  | some w => exact iff_of_false (fun hnone => hnone w (.inl rfl)) nofun

theorem Law.eq_some_of_quiet (h : Law gives clears content) (hquiet : Quiet clears before es) :
    content (before ++ es) = some v ↔
      content before = some v ∨ content before = none ∧ First gives before es v := by
  induction es generalizing before with
  | nil =>
    rw [List.append_nil]
    constructor
    · exact .inl
    · rintro (hv | ⟨-, hfirst⟩)
      · exact hv
      · exact absurd hfirst not_first_nil
  | cons e es ih =>
    obtain ⟨he, hquiet⟩ := quiet_cons.mp hquiet
    have hrest := ih hquiet
    rw [List.append_assoc, List.singleton_append, h.kept before e he, h.eq_none_iff he] at hrest
    rw [hrest, first_cons, or_assoc, and_or_left, and_assoc]

theorem Law.eq_some_iff (h : Law gives clears content) (es : List E) :
    content es = some v ↔ Stands gives clears (content []) es v := by
  have hafter : ∀ pre e post, es = pre ++ e :: post → clears pre e →
      Quiet clears (pre ++ [e]) post →
      (content es = some v ↔ First gives (pre ++ [e]) post v) := by
    intro pre e post heq he hquiet
    have hlast := h.eq_some_of_quiet (v := v) hquiet
    rw [h.cleared pre e he, List.append_assoc, List.singleton_append, ← heq] at hlast
    rw [hlast]
    simp only [reduceCtorEq, true_and, false_or]
  constructor
  · intro hv
    rcases quiet_or_last clears [] es with hquiet | ⟨pre, e, post, heq, he, hquiet⟩
    · exact .inl ⟨hquiet, (h.eq_some_of_quiet hquiet).mp hv⟩
    · exact .inr ⟨pre, e, post, heq, he, hquiet, (hafter pre e post heq he hquiet).mp hv⟩
  · rintro (⟨hquiet, hv⟩ | ⟨pre, e, post, heq, he, hquiet, hv⟩)
    · exact (h.eq_some_of_quiet hquiet).mpr hv
    · exact (hafter pre e post heq he hquiet).mpr hv

end Content

end Slot

import Mathlib.Data.List.Chain

/-! Changes of a state, each with where it came from and where it led to. -/

namespace Route

variable {S : Type} {a b c : S} {l r : List (S × S)}

/-- The changes lead from `a` to `b` without a gap. -/
def Leads : S → List (S × S) → S → Prop
  | a, [], b => a = b
  | a, x :: l, b => x.1 = a ∧ Leads x.2 l b

theorem leads_refl (a : S) : Leads a [] a := rfl

theorem leads_one (a b : S) : Leads a [(a, b)] b := ⟨rfl, rfl⟩

theorem Leads.append (h : Leads a l b) (h' : Leads b r c) : Leads a (l ++ r) c := by
  induction l generalizing a with
  | nil =>
    rw [show a = b from h]
    exact h'
  | cons x l ih => exact ⟨h.1, ih h.2⟩

theorem Leads.isChain {x : S × S} (h : Leads x.2 l b) :
    List.IsChain (fun y z => y.2 = z.1) (x :: l) := by
  induction l generalizing x with
  | nil => exact .singleton x
  | cons y l ih => exact .cons_cons h.1.symm (ih h.2)

theorem Leads.getLast? {x : S × S} (h : Leads x.2 l b) :
    (x :: l).getLast?.map Prod.snd = some b := by
  induction l generalizing x with
  | nil => exact congrArg some h
  | cons y l ih =>
    rw [List.getLast?_cons_cons]
    exact ih h.2

end Route

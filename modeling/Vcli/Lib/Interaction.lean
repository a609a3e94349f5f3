import Mathlib.Data.List.Basic

/-! Computations that act on an environment and keep a record of what they did, with the
rule that bounds the record of a composite by the records of its parts. -/

def Interaction (E O α : Type) : Type := E → α × E × List O

namespace Interaction

variable {E O α β : Type}

instance : Monad (Interaction E O) where
  pure a := fun e => (a, e, [])
  bind m k := fun e =>
    ((k (m e).1 (m e).2.1).1, (k (m e).1 (m e).2.1).2.1, (m e).2.2 ++ (k (m e).1 (m e).2.1).2.2)

def tell (os : List O) : Interaction E O Unit := fun e => ((), e, os)

@[simp] theorem pure_apply (a : α) (e : E) : (pure a : Interaction E O α) e = (a, e, []) := rfl

@[simp] theorem bind_apply (m : Interaction E O α) (k : α → Interaction E O β) (e : E) :
    (m >>= k) e = ((k (m e).1 (m e).2.1).1, (k (m e).1 (m e).2.1).2.1,
      (m e).2.2 ++ (k (m e).1 (m e).2.1).2.2) := rfl

@[simp] theorem tell_apply (os : List O) (e : E) : tell os e = ((), e, os) := rfl

/-- Every execution of `m` ends in a value and a record related by `post`. -/
def Sat (post : α → List O → Prop) (m : Interaction E O α) : Prop := ∀ e, post (m e).1 (m e).2.2

theorem sat_pure {post : α → List O → Prop} {a : α} (h : post a []) :
    Sat post (pure a : Interaction E O α) := fun _ => h

theorem sat_bind {q : α → List O → Prop} {post : β → List O → Prop}
    {m : Interaction E O α} {k : α → Interaction E O β} (hm : Sat q m)
    (hk : ∀ a os, q a os → Sat (fun b os' => post b (os ++ os')) (k a)) :
    Sat post (m >>= k) := fun e => hk _ _ (hm e) _

theorem sat_tell {post : Unit → List O → Prop} {os : List O} (h : post () os) :
    Sat post (tell os : Interaction E O Unit) := fun _ => h

theorem Sat.mono {post post' : α → List O → Prop} {m : Interaction E O α} (h : Sat post m)
    (himp : ∀ a os, post a os → post' a os) : Sat post' m := fun e => himp _ _ (h e)

abbrev Emits (P : O → Prop) (m : Interaction E O α) : Prop := Sat (fun _ os => ∀ o ∈ os, P o) m

theorem emits_pure {P : O → Prop} (a : α) : Emits P (pure a : Interaction E O α) :=
  sat_pure (by simp)

theorem emits_tell {P : O → Prop} {os : List O} (h : ∀ o ∈ os, P o) :
    Emits P (tell os : Interaction E O Unit) := sat_tell h

theorem emits_bind {P : O → Prop} {m : Interaction E O α} {k : α → Interaction E O β}
    (hm : Emits P m) (hk : ∀ a, Emits P (k a)) : Emits P (m >>= k) :=
  sat_bind hm fun a _ hos => (hk a).mono fun _ _ hos' o ho =>
    (List.mem_append.mp ho).elim (hos o) (hos' o)

/-- The environment has no say in what comes of the computation and what it records. -/
def Steady (m : Interaction E O α) : Prop :=
  ∀ e e', (m e).1 = (m e').1 ∧ (m e).2.2 = (m e').2.2

theorem steady_pure (a : α) : Steady (pure a : Interaction E O α) := fun _ _ => ⟨rfl, rfl⟩

theorem steady_tell (os : List O) : Steady (tell os : Interaction E O Unit) :=
  fun _ _ => ⟨rfl, rfl⟩

theorem steady_bind {m : Interaction E O α} {k : α → Interaction E O β} (hm : Steady m)
    (hk : ∀ a, Steady (k a)) : Steady (m >>= k) := by
  intro e e'
  obtain ⟨hvalue, hrecord⟩ := hm e e'
  obtain ⟨hvalue', hrecord'⟩ := hk (m e').1 (m e).2.1 (m e').2.1
  rw [bind_apply, bind_apply, hvalue, hrecord]
  exact ⟨hvalue', congrArg ((m e').2.2 ++ ·) hrecord'⟩

end Interaction

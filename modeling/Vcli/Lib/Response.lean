import Mathlib.Tactic.Tauto
import Vcli.Lib.Procedure

/-! What a procedure does in answer to its own acts: which acts it can take at all, whether an
act of some kind is still to come, and whether all acts that ask for an answer get one. -/

namespace Procedure

variable {A α β : Type}

theorem bind_def (s : Procedure A α) (f : α → Procedure A β) : s >>= f = s.bind f := rfl

theorem bind_done (s : Procedure A α) : s.bind done = s := by
  induction s with
  | done a => rfl
  | ask next ih | attempt next ih =>
    rw [bind]
    congr 1
    funext b
    exact ih b
  | act a next ih => rw [bind, ih]

theorem bind_bind {γ : Type} (s : Procedure A α) (f : α → Procedure A β)
    (g : β → Procedure A γ) : (s.bind f).bind g = s.bind fun a => (f a).bind g := by
  induction s with
  | done a => rfl
  | ask next ih | attempt next ih =>
    simp only [bind]
    congr 1
    funext b
    exact ih b
  | act a next ih => simp only [bind, ih]

instance : LawfulMonad (Procedure A) := .mk' _ bind_done (fun _ _ => rfl) bind_bind

def All (P : A → Prop) : Procedure A α → Prop
  | done _ => True
  | ask next | attempt next => ∀ b, All P (next b)
  | act a next => P a ∧ All P next

def Comes (w : World) (P : A → Prop) (Q : α → Prop) : Nat → Procedure A α → Prop
  | _, done a => Q a
  | n, ask next => Comes w P Q (n + 1) (next (w.raised n))
  | n, attempt next => Comes w P Q (n + 1) (next (w.grants n))
  | n, act a next => P a ∨ Comes w P Q (n + 1) next

def Answered (w : World) (asks : A → Prop) (answers : A → A → Prop) (Q : α → Prop) :
    Nat → Procedure A α → Prop
  | _, done _ => True
  | n, ask next => Answered w asks answers Q (n + 1) (next (w.raised n))
  | n, attempt next => Answered w asks answers Q (n + 1) (next (w.grants n))
  | n, act a next =>
    (asks a → Comes w (answers a) Q (n + 1) next) ∧ Answered w asks answers Q (n + 1) next

section Acts
variable {P : A → Prop} {s : Procedure A α}

theorem All.bind {f : α → Procedure A β} (hs : All P s) (hf : ∀ a, All P (f a)) :
    All P (s >>= f) := by
  rw [bind_def]
  induction s with
  | done a => exact hf a
  | ask next ih | attempt next ih => exact fun b => ih b (hs b)
  | act a next ih => exact ⟨hs.1, ih hs.2⟩

theorem All.andThen {ε : Type} {x : ExceptT ε (Procedure A) α}
    {f : α → ExceptT ε (Procedure A) β} (hx : All P x.run) (hf : ∀ a, All P (f a).run) :
    All P (x >>= f).run := by
  apply All.bind hx
  intro r
  cases r with
  | ok a => exact hf a
  | error e => trivial

variable {w : World} {asks : A → Prop} {answers : A → A → Prop} {Q : α → Prop} {n : Nat}

theorem All.answered (hs : All (fun a => ¬ asks a) s) : Answered w asks answers Q n s := by
  induction s generalizing n with
  | done a => trivial
  | ask next ih | attempt next ih => exact ih _ (hs _)
  | act a next ih => exact ⟨fun ha => absurd ha hs.1, ih hs.2⟩

end Acts

section Runs
variable {w : World} {P : A → Prop} {Q : α → Prop} {s : Procedure A α} {n : Nat}

theorem comes_iff_run :
    Comes w P Q n s ↔ Q (run w n s).1 ∨ ∃ a, .acted a ∈ (run w n s).2 ∧ P a := by
  induction s generalizing n with
  | done a => simp [Comes, run]
  | ask next ih | attempt next ih => simp [Comes, run, ih]
  | act a next ih =>
    simp only [Comes, run, ih, List.mem_cons, Deed.acted.injEq, or_and_right, exists_or,
      exists_eq_left]
    tauto

theorem answered_iff_run {asks : A → Prop} {answers : A → A → Prop} :
    Answered w asks answers Q n s ↔
      ∀ before a after, (run w n s).2 = before ++ .acted a :: after → asks a →
        Q (run w n s).1 ∨ ∃ b, .acted b ∈ after ∧ answers a b := by
  induction s generalizing n with
  | done a => simp [Answered, run]
  | ask next ih | attempt next ih =>
    simp only [Answered, ih, run, List.cons_eq_append_iff]
    constructor
    · rintro h before a after (⟨-, heq⟩ | ⟨before, rfl, heq⟩)
      · cases heq
      · exact h before a after heq
    · intro h before a after heq
      exact h (_ :: before) a after (.inr ⟨before, rfl, heq⟩)
  | act a next ih =>
    simp only [Answered, ih, run, List.cons_eq_append_iff, comes_iff_run]
    constructor
    · rintro ⟨hfirst, hrest⟩ before a' after (⟨-, heq⟩ | ⟨before, rfl, heq⟩)
      · obtain ⟨hact, rfl⟩ := List.cons.inj heq
        obtain rfl := Deed.acted.inj hact
        exact hfirst
      · exact hrest before a' after heq
    · intro h
      constructor
      · exact h [] a _ (.inl ⟨rfl, rfl⟩)
      · intro before a' after heq
        exact h (_ :: before) a' after (.inr ⟨before, rfl, heq⟩)

end Runs

end Procedure

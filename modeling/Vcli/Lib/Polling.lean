import Vcli.Lib.Transducer

/-! Loops that empty their queue before each turn of work: what arrives is taken before the second
turn of work after it. -/

namespace Polling

open Transducer

inductive Phase
  | draining
  | working
  | resting
deriving DecidableEq, Repr

inductive Mark (Q : Type*)
  | taken (c : Q)
  | emptied
  | worked
  | woke

variable {S A O Q : Type*}

def Mark.isWork : Mark Q → Bool
  | worked => true
  | taken _ | emptied | woke => false

inductive LoopStep : Phase × List Q → Mark Q → Phase × List Q → Prop
  | taken (c : Q) (q : List Q) : LoopStep (.draining, c :: q) (.taken c) (.draining, q)
  | emptied : LoopStep (.draining, []) .emptied (.working, [])
  | worked (q : List Q) : LoopStep (.working, q) .worked (.resting, q)
  | woke (q : List Q) : LoopStep (.resting, q) .woke (.draining, q)

structure Polls (f : S → A → S × List O) (view : S → Phase × List Q)
    (mark : S → A → Option (Mark Q)) : Prop where
  turn : ∀ s a m, mark s a = some m → LoopStep (view s) m (view (f s a).1)
  phase : ∀ s a, mark s a = none → (view (f s a).1).1 = (view s).1
  queue : ∀ s a, mark s a = none → (view s).2 <+: (view (f s a).1).2

def works (f : S → A → S × List O) (mark : S → A → Option (Mark Q)) (s : S) (as : List A) : Nat :=
  (trail f s as).countP fun x => (mark x.1 x.2).any Mark.isWork

def Phase.budget : Phase → Nat
  | working => 1
  | draining | resting => 0

theorem Phase.budget_le_one (p : Phase) : p.budget ≤ 1 := by
  cases p <;> decide

variable {f : S → A → S × List O} {view : S → Phase × List Q} {mark : S → A → Option (Mark Q)}
  {P : Q → Prop}

theorem works_cons (s : S) (a : A) (as : List A) : works f mark s (a :: as) =
    works f mark (f s a).1 as + if (mark s a).any Mark.isWork then 1 else 0 :=
  List.countP_cons

theorem works_snoc (s : S) (as : List A) (a : A) : works f mark s (as ++ [a]) =
    works f mark s as + if (mark (run f s as).1 a).any Mark.isWork then 1 else 0 := by
  rw [works, trail_append, List.countP_append, trail_cons, trail_nil, List.countP_cons,
    List.countP_nil, Nat.zero_add, works]

def Adds (f : S → A → S × List O) (view : S → Phase × List Q) (P : Q → Prop) (s : S) (a : A) :
    Prop :=
  ∀ more, (view (f s a).1).2 = (view s).2 ++ more → ∀ c ∈ more, P c

/-- In the run `c` is taken after no more than `n` turns of work, or it still stands in the queue
after no more than `n`. -/
def InTime (f : S → A → S × List O) (view : S → Phase × List Q) (mark : S → A → Option (Mark Q))
    (P : Q → Prop) (c : Q) (s : S) (as : List A) (n : Nat) : Prop :=
  (∃ now a later rest, as = now ++ a :: later ∧ (view (run f s now).1) = (.draining, c :: rest) ∧
      mark (run f s now).1 a = some (.taken c) ∧ (∀ d ∈ rest, P d) ∧ works f mark s now ≤ n) ∨
    works f mark s as ≤ n ∧ ∃ ahead behind, (view (run f s as).1).2 = ahead ++ c :: behind

theorem InTime.cons {c : Q} {s : S} {a : A} {as : List A} {m n : Nat}
    (h : InTime f view mark P c (f s a).1 as m)
    (hm : m + (if (mark s a).any Mark.isWork then 1 else 0) ≤ n) :
    InTime f view mark P c s (a :: as) n := by
  rcases h with ⟨now, a', later, rest, rfl, hview, htaken, hrest, hworks⟩ | ⟨hworks, hstill⟩
  · refine .inl ⟨a :: now, a', later, rest, rfl, hview, htaken, hrest, ?_⟩
    rw [works_cons]
    exact Nat.le_trans (Nat.add_le_add_right hworks _) hm
  · refine .inr ⟨?_, hstill⟩
    rw [works_cons]
    exact Nat.le_trans (Nat.add_le_add_right hworks _) hm

/-- What stands in the queue is taken after no more than one turn of work, and after none unless
the loop has just seen its queue empty. -/
theorem Polls.inTime (h : Polls f view mark) {s : S} {ahead behind : List Q} {c : Q}
    (hs : (view s).2 = ahead ++ c :: behind) (hbehind : ∀ d ∈ behind, P d) {as : List A}
    (hadds : ∀ x ∈ trail f s as, mark x.1 x.2 = none → Adds f view P x.1 x.2) :
    InTime f view mark P c s as (view s).1.budget := by
  induction as generalizing s ahead behind with
  | nil => exact .inr ⟨Nat.zero_le _, ahead, behind, hs⟩
  | cons a as ih =>
    have hmore : ∀ x ∈ trail f (f s a).1 as, mark x.1 x.2 = none → Adds f view P x.1 x.2 :=
      fun x hx => hadds x (List.mem_cons_of_mem _ hx)
    cases hmark : mark s a with
    | none =>
      obtain ⟨more, hqueue⟩ := h.queue s a hmark
      have hnew : ∀ d ∈ more, P d := hadds (s, a) List.mem_cons_self hmark more hqueue.symm
      rw [hs, List.append_assoc, List.cons_append] at hqueue
      have hall : ∀ d ∈ behind ++ more, P d :=
        fun d hd => (List.mem_append.mp hd).elim (hbehind d) (hnew d)
      refine (ih hqueue.symm hall hmore).cons ?_
      rw [h.phase s a hmark, hmark]
      exact Nat.le_refl _
    | some m =>
      have hturn := h.turn s a m hmark
      have hnext := fun ahead hqueue => @ih (f s a).1 ahead behind hqueue hbehind hmore
      generalize hv : view s = v at hturn hs ⊢
      generalize view (f s a).1 = v' at hturn hnext
      cases hturn with
      | taken d q =>
        cases ahead with
        | nil =>
          obtain ⟨rfl, rfl⟩ := List.cons.inj hs
          exact .inl ⟨[], a, as, q, rfl, hv, hmark, hbehind, Nat.zero_le _⟩
        | cons e ahead =>
          obtain ⟨rfl, rfl⟩ := List.cons.inj hs
          refine (hnext ahead rfl).cons ?_
          rw [hmark]
          exact Nat.le_refl _
      | emptied => simp at hs
      | worked q | woke q =>
        refine (hnext ahead hs).cons ?_
        rw [hmark]
        exact Nat.le_refl _

end Polling

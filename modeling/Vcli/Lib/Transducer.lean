import Mathlib.Data.List.Basic

/-! Machines that consume a list of inputs one at a time, carry a state and emit a list
of outputs at each input. Loops and whole runs are both instances: the state is what the
loop carries, the outputs are its observable behaviour. -/

namespace Transducer

variable {S A O V : Type*} {f : S → A → S × List O}

def run (f : S → A → S × List O) : S → List A → S × List O
  | s, [] => (s, [])
  | s, a :: as => ((run f (f s a).1 as).1, (f s a).2 ++ (run f (f s a).1 as).2)

def trail (f : S → A → S × List O) : S → List A → List (S × A)
  | _, [] => []
  | s, a :: as => (s, a) :: trail f (f s a).1 as

@[simp] theorem run_nil (s : S) : run f s [] = (s, []) := rfl

@[simp] theorem run_cons (s : S) (a : A) (as : List A) :
    run f s (a :: as) = ((run f (f s a).1 as).1, (f s a).2 ++ (run f (f s a).1 as).2) := rfl

@[simp] theorem trail_nil (s : S) : trail f s [] = [] := rfl

@[simp] theorem trail_cons (s : S) (a : A) (as : List A) :
    trail f s (a :: as) = (s, a) :: trail f (f s a).1 as := rfl

theorem run_append (s : S) (as bs : List A) :
    run f s (as ++ bs) =
      ((run f (run f s as).1 bs).1, (run f s as).2 ++ (run f (run f s as).1 bs).2) := by
  induction as generalizing s with
  | nil => rfl
  | cons a as ih => simp only [List.cons_append, run_cons, ih, List.append_assoc]

theorem trail_append (s : S) (as bs : List A) :
    trail f s (as ++ bs) = trail f s as ++ trail f (run f s as).1 bs := by
  induction as generalizing s with
  | nil => rfl
  | cons a as ih => simp only [List.cons_append, trail_cons, run_cons, ih]

theorem mem_of_mem_trail {s : S} {as : List A} {r : S × A} (h : r ∈ trail f s as) :
    r.2 ∈ as := by
  induction as generalizing s with
  | nil => simp at h
  | cons a as ih =>
    rcases List.mem_cons.mp h with rfl | h
    · exact List.mem_cons_self
    · exact List.mem_cons_of_mem _ (ih h)

theorem mem_trail_iff {s : S} {as : List A} {r : S × A} :
    r ∈ trail f s as ↔
      ∃ done a rest, as = done ++ a :: rest ∧ r = ((run f s done).1, a) := by
  induction as generalizing s with
  | nil => simp
  | cons b bs ih =>
    rw [trail_cons, List.mem_cons, ih]
    constructor
    · rintro (rfl | ⟨done, a, rest, rfl, rfl⟩)
      · exact ⟨[], b, bs, rfl, rfl⟩
      · exact ⟨b :: done, a, rest, rfl, rfl⟩
    · rintro ⟨done, a, rest, heq, rfl⟩
      cases done with
      | nil =>
        obtain ⟨rfl, rfl⟩ := List.cons.inj heq
        exact .inl rfl
      | cons c done =>
        obtain ⟨rfl, rfl⟩ := List.cons.inj heq
        exact .inr ⟨done, a, rest, rfl, rfl⟩

theorem mem_run_iff {s : S} {as : List A} {o : O} :
    o ∈ (run f s as).2 ↔ ∃ r ∈ trail f s as, o ∈ (f r.1 r.2).2 := by
  induction as generalizing s with
  | nil => simp
  | cons a as ih => simp [ih]

theorem run_flatMap {v : S → V} {g : A → List O} {s : S} {as : List A}
    (hv : ∀ t, v t = v s → ∀ a ∈ as, v (f t a).1 = v t)
    (ho : ∀ t, v t = v s → ∀ a ∈ as, (f t a).2 = g a) : (run f s as).2 = as.flatMap g := by
  have hall : ∀ t, v t = v s → ∀ bs, (∀ b ∈ bs, b ∈ as) → (run f t bs).2 = bs.flatMap g := by
    intro t ht bs
    induction bs generalizing t with
    | nil => exact fun _ => rfl
    | cons b bs ih =>
      intro hbs
      have hb := hbs b List.mem_cons_self
      rw [run_cons, List.flatMap_cons, ho t ht b hb,
        ih (f t b).1 ((hv t ht b hb).trans ht) fun b' hb' => hbs b' (List.mem_cons_of_mem _ hb')]
  exact hall s rfl as fun _ => id

theorem run_invariant {I : S → Prop} {s : S} {as : List A}
    (step : ∀ s, ∀ a ∈ as, I s → I (f s a).1) (h : I s) : I (run f s as).1 := by
  induction as generalizing s with
  | nil => exact h
  | cons a as ih =>
    exact ih (fun s b hb => step s b (List.mem_cons_of_mem _ hb))
      (step s a List.mem_cons_self h)

/-- Two machines that take the same steps wherever an invariant holds have the same runs. -/
theorem run_congr {I : S → Prop} {g : S → A → S × List O} {s : S} {as : List A}
    (step : ∀ s, ∀ a ∈ as, I s → f s a = g s a ∧ I (f s a).1) (h : I s) :
    run f s as = run g s as ∧ I (run f s as).1 := by
  induction as generalizing s with
  | nil => exact ⟨rfl, h⟩
  | cons a as ih =>
    obtain ⟨hsame, hnext⟩ := step s a List.mem_cons_self h
    obtain ⟨hrest, hend⟩ := ih (fun s b hb => step s b (List.mem_cons_of_mem _ hb)) hnext
    refine ⟨?_, hend⟩
    rw [run_cons, run_cons, hrest, hsame]

section Embed
variable {T B : Type*} {g : T → B → T × List O} {m : S → T} {u : A → B} {as : List A}

/-- A machine that takes the steps of another, for what are inputs to it, has the runs of it. -/
theorem run_embed (step : ∀ s, ∀ a ∈ as, g (m s) (u a) = (m (f s a).1, (f s a).2)) (s : S) :
    run g (m s) (as.map u) = (m (run f s as).1, (run f s as).2) := by
  induction as generalizing s with
  | nil => rfl
  | cons a as ih =>
    have hfirst := step s a List.mem_cons_self
    have hrest := ih (fun s b hb => step s b (List.mem_cons_of_mem _ hb)) (f s a).1
    rw [List.map_cons, run_cons, run_cons, hfirst, hrest]

theorem trail_embed (step : ∀ s, ∀ a ∈ as, g (m s) (u a) = (m (f s a).1, (f s a).2)) (s : S) :
    trail g (m s) (as.map u) = (trail f s as).map fun x => (m x.1, u x.2) := by
  induction as generalizing s with
  | nil => rfl
  | cons a as ih =>
    have hfirst := step s a List.mem_cons_self
    have hrest := ih (fun s b hb => step s b (List.mem_cons_of_mem _ hb)) (f s a).1
    rw [List.map_cons, trail_cons, trail_cons, List.map_cons, hfirst, hrest]

end Embed

/-- An invariant that every step of the run keeps holds in every state of the run. -/
theorem trail_invariant {I : S → Prop} {s : S} {as : List A} (h : I s)
    (step : ∀ r ∈ trail f s as, I r.1 → I (f r.1 r.2).1) : ∀ r ∈ trail f s as, I r.1 := by
  induction as generalizing s with
  | nil => simp
  | cons a as ih =>
    have hnext : I (f s a).1 := step (s, a) List.mem_cons_self h
    intro r hr
    rcases List.mem_cons.mp hr with rfl | hr
    · exact h
    · exact ih hnext (fun r hr => step r (List.mem_cons_of_mem _ hr)) r hr

theorem run_trail_invariant {I : S → Prop} {s : S} {as : List A} (h : I s)
    (step : ∀ r ∈ trail f s as, I r.1 → I (f r.1 r.2).1) : I (run f s as).1 := by
  induction as generalizing s with
  | nil => exact h
  | cons a as ih =>
    exact ih (step (s, a) List.mem_cons_self h)
      fun r hr => step r (List.mem_cons_of_mem _ hr)

/-- Inputs that touch neither the view `v` nor the outputs selected by `m` can be
skipped by an observer of both. -/
theorem run_foreign {v : S → V} {m : O → Bool} {as : List A}
    (hv : ∀ s, ∀ a ∈ as, v (f s a).1 = v s)
    (ho : ∀ s, ∀ a ∈ as, (f s a).2.filter m = []) (s : S) :
    v (run f s as).1 = v s ∧ (run f s as).2.filter m = [] := by
  induction as generalizing s with
  | nil => exact ⟨rfl, rfl⟩
  | cons a as ih =>
    obtain ⟨h₁, h₂⟩ := ih (fun s b hb => hv s b (List.mem_cons_of_mem _ hb))
      (fun s b hb => ho s b (List.mem_cons_of_mem _ hb)) (f s a).1
    refine ⟨h₁.trans (hv s a List.mem_cons_self), ?_⟩
    rw [run_cons, List.filter_append, ho s a List.mem_cons_self, h₂, List.append_nil]

/-- An observer of one input sees the run as that single step, taken in some state whose
view is the initial one. -/
theorem run_owner {v : S → V} {m : O → Bool} {l r : List A} {a : A}
    (hv : ∀ s, ∀ b ∈ l ++ r, v (f s b).1 = v s)
    (ho : ∀ s, ∀ b ∈ l ++ r, (f s b).2.filter m = []) (s : S) :
    ∃ t, v t = v s ∧ v (run f s (l ++ a :: r)).1 = v (f t a).1 ∧
      (run f s (l ++ a :: r)).2.filter m = (f t a).2.filter m := by
  have hl := run_foreign (fun s b hb => hv s b (List.mem_append_left _ hb))
    (fun s b hb => ho s b (List.mem_append_left _ hb)) s
  have hr := run_foreign (fun s b hb => hv s b (List.mem_append_right _ hb))
    (fun s b hb => ho s b (List.mem_append_right _ hb)) (f (run f s l).1 a).1
  refine ⟨(run f s l).1, hl.1, ?_, ?_⟩
  · rw [run_append, run_cons]
    exact hr.1
  · rw [run_append, run_cons, List.filter_append, List.filter_append, hl.2, hr.2,
      List.nil_append, List.append_nil]

end Transducer

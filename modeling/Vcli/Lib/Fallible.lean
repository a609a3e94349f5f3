import Mathlib.Data.List.Forall2
import Mathlib.Logic.Basic

/-! Computations over a state that can end with an error or crash: an error keeps the state, a
crash has none. A computation is described by what it returns, if it returns, alone (`Yields`)
or beside another one (`Lockstep`). -/

def Fallible (S E C α : Type) := S → Except C (Except E α × S)

namespace Fallible

variable {S T E C α β : Type}

instance : Monad (Fallible S E C) where
  pure a := fun s => .ok (.ok a, s)
  bind x f := fun s => match x s with
    | .error c => .error c
    | .ok (.error e, s') => .ok (.error e, s')
    | .ok (.ok a, s') => f a s'

def fail (e : E) : Fallible S E C α := fun s => .ok (.error e, s)

def crash (c : C) : Fallible S E C α := fun _ => .error c

def get : Fallible S E C S := fun s => .ok (.ok s, s)

def modify (f : S → S) : Fallible S E C Unit := fun s => .ok (.ok (), f s)

theorem bind_apply_eq (x : Fallible S E C α) (f : α → Fallible S E C β) (s : S) :
    (x >>= f) s = match x s with
      | .error c => .error c
      | .ok (.error e, s') => .ok (.error e, s')
      | .ok (.ok a, s') => f a s' := rfl

def each {ι : Type} (f : ι → Fallible S E C α) : List ι → Fallible S E C (List α)
  | [] => pure []
  | i :: is => do
    let a ← f i
    let rest ← each f is
    return a :: rest

def beside (x : Fallible Unit E C α) : Fallible S E C α := fun s => (x ()).map fun r => (r.1, s)

def Returns (x : Fallible S E C α) (s : S) (r : Except E α) (s' : S) : Prop := x s = .ok (r, s')

def refusal : Except E α → Option E
  | .ok _ => none
  | .error e => some e

theorem refusal_eq_some {r : Except E α} {e : E} : refusal r = some e ↔ r = .error e := by
  cases r <;> simp [refusal]

theorem bind_eq_ok {x : Except C α} {f : α → Except C β} {b : β} :
    (x >>= f) = .ok b ↔ ∃ a, x = .ok a ∧ f a = .ok b := by
  cases x with
  | error c =>
    constructor
    · exact fun h => nomatch h
    · rintro ⟨a, ha, _⟩
      exact nomatch ha
  | ok a =>
    constructor
    · exact fun h => ⟨a, rfl, h⟩
    · rintro ⟨a', ha, hf⟩
      rw [Except.ok.inj ha]
      exact hf

theorem bind_eq_error {x : Except C α} {f : α → Except C β} {c : C} :
    (x >>= f) = .error c ↔ x = .error c ∨ ∃ a, x = .ok a ∧ f a = .error c := by
  cases x with
  | error c' =>
    constructor
    · exact fun h => .inl (congrArg Except.error (Except.error.inj h))
    · rintro (h | ⟨a, ha, _⟩)
      · exact congrArg Except.error (Except.error.inj h)
      · exact nomatch ha
  | ok a =>
    constructor
    · exact fun h => .inr ⟨a, rfl, h⟩
    · rintro (h | ⟨a', ha, hf⟩)
      · exact nomatch h
      · rw [Except.ok.inj ha]
        exact hf

section Returns
variable {x : Fallible S E C α} {f : α → Fallible S E C β} {s s' : S} {e : E} {c : C} {a : α}

theorem Returns.unique {r r' : Except E α} {s'' : S} (h : x.Returns s r s')
    (h' : x.Returns s r' s'') : r = r' ∧ s' = s'' :=
  Prod.mk.inj (Except.ok.inj (h.symm.trans h'))

theorem returns_pure {r : Except E α} : Returns (pure a : Fallible S E C α) s r s' ↔
    r = .ok a ∧ s' = s := by
  constructor
  · intro h
    obtain ⟨hr, hs⟩ := Prod.mk.inj (Except.ok.inj h)
    exact ⟨hr.symm, hs.symm⟩
  · rintro ⟨rfl, rfl⟩
    rfl

theorem returns_fail {r : Except E α} : Returns (fail e : Fallible S E C α) s r s' ↔
    r = .error e ∧ s' = s := by
  constructor
  · intro h
    obtain ⟨hr, hs⟩ := Prod.mk.inj (Except.ok.inj h)
    exact ⟨hr.symm, hs.symm⟩
  · rintro ⟨rfl, rfl⟩
    rfl

theorem not_returns_crash {r : Except E α} : ¬ Returns (crash c : Fallible S E C α) s r s' :=
  nofun

theorem not_returns_of_crash {k : C} (h : x s = .error k) (r : Except E α) :
    ¬ x.Returns s r s' := fun hret => nomatch h.symm.trans hret

theorem returns_modify {g : S → S} {r : Except E Unit} :
    Returns (modify g : Fallible S E C Unit) s r s' ↔ r = .ok () ∧ s' = g s := by
  constructor
  · intro h
    obtain ⟨hr, hs⟩ := Prod.mk.inj (Except.ok.inj h)
    exact ⟨hr.symm, hs.symm⟩
  · rintro ⟨rfl, rfl⟩
    rfl

theorem returns_get {r : Except E S} :
    Returns (get : Fallible S E C S) s r s' ↔ r = .ok s ∧ s' = s := by
  constructor
  · intro h
    obtain ⟨hr, hs⟩ := Prod.mk.inj (Except.ok.inj h)
    exact ⟨hr.symm, hs.symm⟩
  · rintro ⟨rfl, rfl⟩
    rfl

theorem returns_beside {x : Fallible Unit E C α} {r : Except E α} :
    Returns (beside x : Fallible S E C α) s r s' ↔ x.Returns () r () ∧ s' = s := by
  unfold Returns beside
  cases hx : x () with
  | error c => simp [Except.map]
  | ok p =>
    obtain ⟨r', u⟩ := p
    simp [Except.map, eq_comm]

theorem returns_bind {r : Except E β} : Returns (x >>= f) s r s' ↔
    (∃ e, x.Returns s (.error e) s' ∧ r = .error e) ∨
      ∃ a s₁, x.Returns s (.ok a) s₁ ∧ (f a).Returns s₁ r s' := by
  have hbind : (x >>= f) s = match x s with
      | .error c => .error c
      | .ok (.error e, s') => .ok (.error e, s')
      | .ok (.ok a, s') => f a s' := rfl
  unfold Returns
  rw [hbind]
  cases hx : x s with
  | error c => simp
  | ok p =>
    obtain ⟨r', s₁⟩ := p
    cases r' with
    | error e =>
      simp only [reduceCtorEq, false_and, exists_false, or_false, Except.ok.injEq, Prod.mk.injEq,
        Except.error.injEq]
      constructor
      · exact fun h => ⟨e, ⟨rfl, h.2⟩, h.1.symm⟩
      · rintro ⟨_, ⟨rfl, hs⟩, hr⟩
        exact ⟨hr.symm, hs⟩
    | ok a =>
      simp only [reduceCtorEq, false_and, exists_false, false_or, Except.ok.injEq, Prod.mk.injEq]
      constructor
      · exact fun h => ⟨a, s₁, ⟨rfl, rfl⟩, h⟩
      · rintro ⟨_, _, ⟨rfl, rfl⟩, h⟩
        exact h

theorem returns_of_map {r : Except E α} (h : (x s).map Prod.fst = .ok r) :
    ∃ s', x.Returns s r s' := by
  cases hx : x s with
  | error c =>
    rw [hx] at h
    exact nomatch h
  | ok out =>
    rw [hx] at h
    refine ⟨out.2, ?_⟩
    rw [Returns, hx, ← Except.ok.inj h]

end Returns

def Extends (x y : Fallible S E C α) : Prop := ∀ ⦃s r s'⦄, x.Returns s r s' → y.Returns s r s'

section Extends
variable {x y : Fallible S E C α} {f g : α → Fallible S E C β}

theorem Extends.refl (x : Fallible S E C α) : Extends x x := fun _ _ _ h => h

theorem crash_extends {c : C} : Extends (crash c) x := fun _ _ _ h => absurd h not_returns_crash

theorem Extends.bind (hx : Extends x y) (hf : ∀ a, Extends (f a) (g a)) :
    Extends (x >>= f) (y >>= g) := by
  intro s r s' hret
  rw [returns_bind] at hret ⊢
  rcases hret with ⟨e, hxe, hr⟩ | ⟨a, s₁, hxa, hfa⟩
  · exact .inl ⟨e, hx hxe, hr⟩
  · exact .inr ⟨a, s₁, hx hxa, hf a hfa⟩

end Extends

/-- From states in `I`, `x` can only return to states in `I`, and with results in `Q`. -/
def Yields (I : S → Prop) (x : Fallible S E C α) (Q : Except E α → Prop) : Prop :=
  ∀ ⦃s r s'⦄, I s → x.Returns s r s' → I s' ∧ Q r

section Yields
variable {I : S → Prop} {x : Fallible S E C α} {f : α → Fallible S E C β} {e : E} {a : α}

theorem yields_pure {Q : Except E α → Prop} (h : Q (.ok a)) :
    Yields I (pure a : Fallible S E C α) Q := by
  intro s r s' hI hret
  obtain ⟨rfl, rfl⟩ := returns_pure.mp hret
  exact ⟨hI, h⟩

theorem yields_fail {Q : Except E α → Prop} (h : Q (.error e)) :
    Yields I (fail e : Fallible S E C α) Q := by
  intro s r s' hI hret
  obtain ⟨rfl, rfl⟩ := returns_fail.mp hret
  exact ⟨hI, h⟩

theorem yields_crash {c : C} {Q : Except E α → Prop} :
    Yields I (crash c : Fallible S E C α) Q := fun _ _ _ _ hret => absurd hret not_returns_crash

theorem yields_beside {x : Fallible Unit E C α} {Q : Except E α → Prop}
    (h : ∀ r, x.Returns () r () → Q r) : Yields I (beside x : Fallible S E C α) Q := by
  intro s r s' hI hret
  obtain ⟨hx, rfl⟩ := returns_beside.mp hret
  exact ⟨hI, h r hx⟩

theorem Yields.mono {P Q : Except E α → Prop} (h : Yields I x P) (himp : ∀ r, P r → Q r) :
    Yields I x Q := by
  intro s r s' hI hret
  obtain ⟨hI', hP⟩ := h hI hret
  exact ⟨hI', himp r hP⟩

theorem yields_modify {g : S → S} {Q : Except E Unit → Prop} (hg : ∀ s, I s → I (g s))
    (h : Q (.ok ())) : Yields I (modify g : Fallible S E C Unit) Q := by
  intro s r s' hI hret
  obtain ⟨rfl, rfl⟩ := returns_modify.mp hret
  exact ⟨hg s hI, h⟩

theorem yields_get {Q : Except E S → Prop} (h : ∀ s, I s → Q (.ok s)) :
    Yields I (get : Fallible S E C S) Q := by
  intro s r s' hI hret
  obtain ⟨rfl, rfl⟩ := returns_get.mp hret
  exact ⟨hI, h s' hI⟩

theorem yields_bind {P : Except E α → Prop} {Q : Except E β → Prop} (hx : Yields I x P)
    (he : ∀ e, P (.error e) → Q (.error e)) (hf : ∀ a, P (.ok a) → Yields I (f a) Q) :
    Yields I (x >>= f) Q := by
  intro s r s' hI hret
  rcases returns_bind.mp hret with ⟨e, hxe, rfl⟩ | ⟨a, s₁, hxa, hfa⟩
  · obtain ⟨hI', hP⟩ := hx hI hxe
    exact ⟨hI', he e hP⟩
  · obtain ⟨hI₁, hP⟩ := hx hI hxa
    exact hf a hP hI₁ hfa

theorem yields_last {Q : Except E β → Prop} (he : ∀ e, Q (.error e))
    (hf : ∀ a, Yields (fun _ => True) (f a) Q) : Yields (fun _ => True) (x >>= f) Q :=
  yields_bind (P := fun _ => True) (fun _ _ _ _ _ => ⟨trivial, trivial⟩) (fun e _ => he e)
    fun a _ => hf a

end Yields

/-- From states in `I`, `x` can only return to states in `I`. -/
def Keeps (I : S → Prop) (x : Fallible S E C α) : Prop := Yields I x fun _ => True

section Keeps
variable {I : S → Prop} {x : Fallible S E C α} {f : α → Fallible S E C β}

theorem keeps_pure (a : α) : Keeps I (pure a : Fallible S E C α) := yields_pure trivial

theorem keeps_fail (e : E) : Keeps I (fail e : Fallible S E C α) := yields_fail trivial

theorem keeps_get : Keeps I (get : Fallible S E C S) := yields_get fun _ _ => trivial

theorem keeps_modify {g : S → S} (hg : ∀ s, I s → I (g s)) :
    Keeps I (modify g : Fallible S E C Unit) := yields_modify hg trivial

theorem keeps_bind (hx : Keeps I x) (hf : ∀ a, Keeps I (f a)) : Keeps I (x >>= f) :=
  yields_bind hx (fun _ _ => trivial) fun a _ => hf a

theorem keeps_each {ι : Type} {f : ι → Fallible S E C α} (hf : ∀ i, Keeps I (f i)) (is : List ι) :
    Keeps I (each f is) := by
  induction is with
  | nil => exact keeps_pure []
  | cons i is ih => exact keeps_bind (hf i) fun a => keeps_bind ih fun rest => keeps_pure _

end Keeps

section Each
variable {ι : Type} {f : ι → Fallible S E C α}

theorem pure_bind' (a : α) (f : α → Fallible S E C β) : (pure a >>= f) = f a := rfl

theorem bind_assoc' {γ : Type} (x : Fallible S E C α) (f : α → Fallible S E C β)
    (g : β → Fallible S E C γ) : (x >>= f >>= g) = x >>= fun a => f a >>= g := by
  funext s
  simp only [bind_apply_eq]
  rcases x s with c | ⟨e | a, s'⟩ <;> rfl

theorem each_append (l l' : List ι) :
    each f (l ++ l') = each f l >>= fun as => each f l' >>= fun bs => pure (as ++ bs) := by
  induction l with
  | nil =>
    funext s
    rw [List.nil_append, each, pure_bind', bind_apply_eq]
    rcases each f l' s with c | ⟨e | a, s'⟩ <;> rfl
  | cons i l ih =>
    rw [List.cons_append, each, each, ih]
    simp only [bind_assoc', pure_bind', List.cons_append]

/-- A list taken item by item: every item is taken where the ones before it have led. -/
inductive Chain (f : ι → Fallible S E C α) : S → List ι → List α → S → Prop
  | nil (s : S) : Chain f s [] [] s
  | cons {s s₁ s' : S} {i : ι} {is : List ι} {a : α} {as : List α}
      (head : (f i).Returns s (.ok a) s₁) (tail : Chain f s₁ is as s') :
      Chain f s (i :: is) (a :: as) s'

theorem returns_each {s s' : S} {is : List ι} {as : List α} :
    (each f is).Returns s (.ok as) s' ↔ Chain f s is as s' := by
  induction is generalizing s as with
  | nil =>
    constructor
    · intro h
      obtain ⟨has, rfl⟩ := returns_pure.mp h
      rw [Except.ok.inj has]
      exact .nil s'
    · intro h
      cases h
      exact returns_pure.mpr ⟨rfl, rfl⟩
  | cons i is ih =>
    constructor
    · intro h
      rcases returns_bind.mp h with ⟨e, _, he⟩ | ⟨a, s₁, hhead, htail⟩
      · exact nomatch he
      rcases returns_bind.mp htail with ⟨e, _, he⟩ | ⟨rest, s₂, hrest, hpure⟩
      · exact nomatch he
      obtain ⟨has, rfl⟩ := returns_pure.mp hpure
      rw [Except.ok.inj has]
      exact .cons hhead (ih.mp hrest)
    · intro h
      cases h with
      | cons hhead htail =>
        refine returns_bind.mpr (.inr ⟨_, _, hhead, ?_⟩)
        exact returns_bind.mpr (.inr ⟨_, _, ih.mpr htail, returns_pure.mpr ⟨rfl, rfl⟩⟩)

theorem returns_mapM {f : α → Fallible S E C β} {g : α → β} {l : List α} {s : S}
    (h : ∀ a ∈ l, (f a).Returns s (.ok (g a)) s) : (l.mapM f).Returns s (.ok (l.map g)) s := by
  suffices hloop : ∀ done,
      (List.mapM.loop f l done).Returns s (.ok (done.reverse ++ l.map g)) s from hloop []
  induction l with
  | nil =>
    intro done
    rw [List.map_nil, List.append_nil]
    exact returns_pure.mpr ⟨rfl, rfl⟩
  | cons a l ih =>
    intro done
    refine returns_bind.mpr (.inr ⟨g a, s, h a List.mem_cons_self, ?_⟩)
    have hrest := ih (fun b hb => h b (List.mem_cons_of_mem a hb)) (g a :: done)
    rw [List.reverse_cons, List.append_assoc] at hrest
    exact hrest

/-- A counted loop: what each round carries on to the next holds at the end. -/
theorem returns_foldlM {f : β → Nat → Fallible S E C β} {I : Nat → β → Prop} {n : Nat} {s : S}
    (hstep : ∀ k < n, ∀ b, I k b → ∃ b', (f b k).Returns s (.ok b') s ∧ I (k + 1) b') {b : β}
    (hb : I 0 b) : ∃ b', ((List.range n).foldlM f b).Returns s (.ok b') s ∧ I n b' := by
  have key : ∀ m k b, k + m = n → I k b →
      ∃ b', ((List.range' k m).foldlM f b).Returns s (.ok b') s ∧ I n b' := by
    intro m
    induction m with
    | zero =>
      intro k b hk hI
      obtain rfl : k = n := hk
      exact ⟨b, returns_pure.mpr ⟨rfl, rfl⟩, hI⟩
    | succ m ih =>
      intro k b hk hI
      obtain ⟨b₁, hround, hI₁⟩ := hstep k (by omega) b hI
      obtain ⟨b', hrest, hI'⟩ := ih (k + 1) b₁ (by omega) hI₁
      rw [List.range'_succ, List.foldlM_cons]
      exact ⟨b', returns_bind.mpr (.inr ⟨b₁, s, hround, hrest⟩), hI'⟩
  rw [List.range_eq_range']
  exact key n 0 b (Nat.zero_add n) hb

def Ends (x : Fallible S E C α) (s s' : S) : Prop := ∃ r, x.Returns s r s'

theorem ends_cons_of_ok {s s₁ s' : S} {i : ι} {is : List ι} {a : α}
    (h : (f i).Returns s (.ok a) s₁) : (each f (i :: is)).Ends s s' ↔ (each f is).Ends s₁ s' := by
  constructor
  · rintro ⟨r, hret⟩
    rcases returns_bind.mp hret with ⟨e, he, _⟩ | ⟨a', s₂, ha', hrest⟩
    · exact nomatch (h.unique he).1
    obtain ⟨_, rfl⟩ := h.unique ha'
    rcases returns_bind.mp hrest with ⟨e, he, _⟩ | ⟨as, s₃, has, hpure⟩
    · exact ⟨_, he⟩
    · obtain ⟨_, rfl⟩ := returns_pure.mp hpure
      exact ⟨_, has⟩
  · rintro ⟨r, hret⟩
    cases r with
    | error e =>
      refine ⟨.error e, returns_bind.mpr (.inr ⟨a, s₁, h, ?_⟩)⟩
      exact returns_bind.mpr (.inl ⟨e, hret, rfl⟩)
    | ok as =>
      refine ⟨.ok (a :: as), returns_bind.mpr (.inr ⟨a, s₁, h, ?_⟩)⟩
      exact returns_bind.mpr (.inr ⟨as, s', hret, returns_pure.mpr ⟨rfl, rfl⟩⟩)

theorem ends_cons_of_error {s s₁ s' : S} {i : ι} {is : List ι} {e : E}
    (h : (f i).Returns s (.error e) s₁) : (each f (i :: is)).Ends s s' ↔ s' = s₁ := by
  constructor
  · rintro ⟨r, hret⟩
    rcases returns_bind.mp hret with ⟨e', he, _⟩ | ⟨a', s₂, ha', _⟩
    · exact (he.unique h).2
    · exact nomatch (h.unique ha').1
  · rintro rfl
    exact ⟨_, returns_bind.mpr (.inl ⟨e, h, rfl⟩)⟩

theorem not_ends_cons {s s' : S} {i : ι} {is : List ι} {c : C} (h : f i s = .error c) :
    ¬ (each f (i :: is)).Ends s s' := by
  rintro ⟨r, hret⟩
  have hcrash : each f (i :: is) s = .error c := by
    rw [each, bind_apply_eq, h]
  exact nomatch hcrash.symm.trans hret

theorem Chain.append_inv {s s' : S} {is is' : List ι} {as : List α}
    (h : Chain f s (is ++ is') as s') :
    ∃ bs s₁ bs', Chain f s is bs s₁ ∧ Chain f s₁ is' bs' s' ∧ as = bs ++ bs' := by
  induction is generalizing s as with
  | nil => exact ⟨[], s, as, .nil s, h, rfl⟩
  | cons i is ih =>
    cases h with
    | cons hhead htail =>
      obtain ⟨bs, s₁, bs', hbs, hbs', rfl⟩ := ih htail
      exact ⟨_, s₁, bs', .cons hhead hbs, hbs', rfl⟩

theorem Chain.invariant {I : S → Prop} {s s' : S} {is : List ι} {as : List α}
    (h : Chain f s is as s') (hI : I s)
    (step : ∀ s s' i a, (f i).Returns s (.ok a) s' → I s → I s') : I s' := by
  induction h with
  | nil => exact hI
  | cons hhead _ ih => exact ih (step _ _ _ _ hhead hI)

def Reached (f : ι → Fallible S E C α) (s : S) (is : List ι) (i : ι) (t : S) : Prop :=
  ∃ done rest as, is = done ++ i :: rest ∧ Chain f s done as t

theorem reached_cons {s t : S} {i j : ι} {is : List ι} : Reached f s (j :: is) i t ↔
    (i = j ∧ t = s) ∨ ∃ a s₁, (f j).Returns s (.ok a) s₁ ∧ Reached f s₁ is i t := by
  constructor
  · rintro ⟨done, rest, as, heq, hchain⟩
    cases hchain with
    | nil => exact .inl ⟨(List.cons.inj heq).1.symm, rfl⟩
    | cons hhead htail =>
      obtain ⟨rfl, rfl⟩ := List.cons.inj heq
      exact .inr ⟨_, _, hhead, _, _, _, rfl, htail⟩
  · rintro (⟨rfl, rfl⟩ | ⟨a, s₁, hhead, done, rest, as, rfl, hchain⟩)
    · exact ⟨[], is, [], rfl, .nil t⟩
    · exact ⟨j :: done, rest, a :: as, rfl, .cons hhead hchain⟩

theorem forall_reached_cons {s : S} {j : ι} {is : List ι} {P : ι → S → Prop} :
    (∀ i t, Reached f s (j :: is) i t → P i t) ↔ P j s ∧
      ∀ a s₁, (f j).Returns s (.ok a) s₁ → ∀ i t, Reached f s₁ is i t → P i t := by
  constructor
  · intro h
    refine ⟨h j s (reached_cons.mpr (.inl ⟨rfl, rfl⟩)), fun a s₁ hhead i t ht => ?_⟩
    exact h i t (reached_cons.mpr (.inr ⟨a, s₁, hhead, ht⟩))
  · rintro ⟨hhere, hrest⟩ i t ht
    rcases reached_cons.mp ht with ⟨rfl, rfl⟩ | ⟨a, s₁, hhead, ht⟩
    · exact hhere
    · exact hrest a s₁ hhead i t ht

theorem forall_returned {x : Fallible S E C α} {s s₁ : S} {r : Except E α} (h : x.Returns s r s₁)
    {P : S → Prop} : (∀ a s₂, x.Returns s (.ok a) s₂ → P s₂) ↔ ∀ a, r = .ok a → P s₁ := by
  constructor
  · rintro hP a rfl
    exact hP a s₁ h
  · intro hP a s₂ h'
    obtain ⟨rfl, rfl⟩ := h.unique h'
    exact hP a rfl

def crashState (f : ι → Fallible S E C α) : List ι → S → Option S
  | [], _ => none
  | i :: is, s => match f i s with
    | .error _ => some s
    | .ok (.error _, _) => none
    | .ok (.ok _, s') => crashState f is s'

theorem crashState_isSome {f : ι → Fallible S E C α} {is : List ι} {s : S} :
    (crashState f is s).isSome ↔ ∃ c, each f is s = .error c := by
  induction is generalizing s with
  | nil => exact ⟨nofun, nofun⟩
  | cons i is ih =>
    rw [crashState, each, bind_apply_eq]
    rcases f i s with c | ⟨e | a, s'⟩
    · exact ⟨fun _ => ⟨c, rfl⟩, fun _ => rfl⟩
    · exact ⟨nofun, nofun⟩
    · dsimp only
      rw [ih, bind_apply_eq]
      rcases each f is s' with c | ⟨e | as, s''⟩
      · exact Iff.rfl
      · exact ⟨nofun, nofun⟩
      · exact ⟨nofun, nofun⟩

theorem not_reached_nil {s t : S} {i : ι} : ¬ Reached f s [] i t := by
  rintro ⟨done, rest, as, heq, _⟩
  cases done <;> exact nomatch heq

end Each

inductive Agree (R : α → β → Prop) :
    Except C (Except E α × S) → Except C (Except E β × S) → Prop
  | crash (c : C) : Agree R (.error c) (.error c)
  | error (e : E) (s : S) : Agree R (.ok (.error e, s)) (.ok (.error e, s))
  | ok {a : α} {b : β} (h : R a b) (s : S) : Agree R (.ok (.ok a, s)) (.ok (.ok b, s))

def Matches (R : α → β → Prop) (x : Fallible S E C α) (y : Fallible S E C β) : Prop :=
  ∀ s, Agree R (x s) (y s)

section Matches
variable {γ δ : Type} {R : α → β → Prop} {Q : γ → δ → Prop} {x : Fallible S E C α}
  {y : Fallible S E C β}

theorem matches_pure {a : α} {b : β} (h : R a b) :
    Matches R (pure a : Fallible S E C α) (pure b) := fun s => .ok h s

theorem matches_bind {f : α → Fallible S E C γ} {g : β → Fallible S E C δ} (hx : Matches R x y)
    (hf : ∀ a b, R a b → Matches Q (f a) (g b)) : Matches Q (x >>= f) (y >>= g) := by
  intro s
  rw [bind_apply_eq, bind_apply_eq]
  have hs := hx s
  generalize x s = r at hs ⊢
  generalize y s = t at hs ⊢
  cases hs with
  | crash c => exact .crash c
  | error e s' => exact .error e s'
  | ok h s' => exact hf _ _ h s'

theorem Matches.map_left {f : α → γ} {Q : γ → β → Prop} (hx : Matches R x y)
    (h : ∀ a b, R a b → Q (f a) b) : Matches Q (x >>= fun a => pure (f a)) y := by
  intro s
  rw [bind_apply_eq]
  have hs := hx s
  generalize x s = r at hs ⊢
  generalize y s = t at hs ⊢
  cases hs with
  | crash c => exact .crash c
  | error e s' => exact .error e s'
  | ok hab s' => exact .ok (h _ _ hab) s'

theorem Matches.crash_iff (h : Matches R x y) {s : S} :
    (∃ c, x s = .error c) ↔ ∃ c, y s = .error c := by
  have hs := h s
  generalize x s = r at hs
  generalize y s = t at hs
  cases hs with
  | crash c => exact ⟨fun _ => ⟨c, rfl⟩, fun _ => ⟨c, rfl⟩⟩
  | error e s' => exact ⟨nofun, nofun⟩
  | ok hab s' => exact ⟨nofun, nofun⟩

theorem Matches.refl (x : Fallible S E C α) : Matches Eq x x := by
  intro s
  rcases x s with c | ⟨e | a, s'⟩
  · exact .crash c
  · exact .error e s'
  · exact .ok rfl s'

/-- Items that each do what a list of steps does do together what all the steps do: what they
are made of (`k`) is what the steps return, and the rest of them (`e`) stays. -/
theorem matches_each {ι κ δ : Type} {f : ι → Fallible S E C α} {g : κ → Fallible S E C β}
    {parts : ι → List κ} {k : α → List β} {e : α → δ} {e' : ι → δ} {is : List ι}
    (h : ∀ i ∈ is, Matches (fun a bs => k a = bs ∧ e a = e' i) (f i) (each g (parts i))) :
    Matches (fun as bs => as.flatMap k = bs ∧ as.map e = is.map e')
      (each f is) (each g (is.flatMap parts)) := by
  induction is with
  | nil => exact matches_pure ⟨rfl, rfl⟩
  | cons i is ih =>
    rw [List.flatMap_cons, each_append, each]
    refine matches_bind (h i List.mem_cons_self) fun a b hab => ?_
    refine matches_bind (ih fun j hj => h j (List.mem_cons_of_mem _ hj)) fun as bs hrest => ?_
    apply matches_pure
    rw [List.flatMap_cons, List.map_cons, List.map_cons, hab.1, hab.2, hrest.1, hrest.2]
    exact ⟨rfl, rfl⟩

end Matches

/-- Where `x` returns, `y` returns the same on a part of the state. -/
def Refines {D : Type} (π : S → T) (x : Fallible S E C α) (y : Fallible T E D α) : Prop :=
  ∀ ⦃s r s'⦄, x.Returns s r s' → y.Returns (π s) r (π s')

section Refines
variable {D : Type} {π : S → T} {x : Fallible S E C α} {y : Fallible T E D α}

theorem refines_pure (a : α) : Refines π (pure a : Fallible S E C α) (pure a : Fallible T E D α) := by
  intro s r s' h
  obtain ⟨rfl, rfl⟩ := returns_pure.mp h
  exact returns_pure.mpr ⟨rfl, rfl⟩

theorem refines_bind {f : α → Fallible S E C β} {g : α → Fallible T E D β} (hx : Refines π x y)
    (hf : ∀ a, Refines π (f a) (g a)) : Refines π (x >>= f) (y >>= g) := by
  intro s r s' h
  rcases returns_bind.mp h with ⟨e, he, rfl⟩ | ⟨a, s₁, ha, hrest⟩
  · exact returns_bind.mpr (.inl ⟨e, hx he, rfl⟩)
  · exact returns_bind.mpr (.inr ⟨a, π s₁, hx ha, hf a hrest⟩)

theorem refines_each {ι : Type} {f : ι → Fallible S E C α} {g : ι → Fallible T E D α}
    (h : ∀ i, Refines π (f i) (g i)) (is : List ι) : Refines π (each f is) (each g is) := by
  induction is with
  | nil => exact refines_pure []
  | cons i is ih => exact refines_bind (h i) fun a => refines_bind ih fun as => refines_pure _

end Refines

/-- From related states, `x` and `y` can only return the same result, in related states. -/
def Lockstep (R : S → T → Prop) (x : Fallible S E C α) (y : Fallible T E C α) : Prop :=
  ∀ ⦃s t r r' s' t'⦄, R s t → x.Returns s r s' → y.Returns t r' t' → r = r' ∧ R s' t'

section Lockstep
variable {R : S → T → Prop} {x : Fallible S E C α} {y : Fallible T E C α}
  {f : α → Fallible S E C β} {g : α → Fallible T E C β}

theorem lockstep_pure (a : α) :
    Lockstep R (pure a : Fallible S E C α) (pure a : Fallible T E C α) := by
  intro s t r r' s' t' hR hx hy
  obtain ⟨rfl, rfl⟩ := returns_pure.mp hx
  obtain ⟨rfl, rfl⟩ := returns_pure.mp hy
  exact ⟨rfl, hR⟩

theorem lockstep_fail (e : E) :
    Lockstep R (fail e : Fallible S E C α) (fail e : Fallible T E C α) := by
  intro s t r r' s' t' hR hx hy
  obtain ⟨rfl, rfl⟩ := returns_fail.mp hx
  obtain ⟨rfl, rfl⟩ := returns_fail.mp hy
  exact ⟨rfl, hR⟩

theorem lockstep_crash_left {c : C} : Lockstep R (crash c : Fallible S E C α) y :=
  fun _ _ _ _ _ _ _ hx => absurd hx not_returns_crash

theorem lockstep_crash_right {c : C} : Lockstep R x (crash c : Fallible T E C α) :=
  fun _ _ _ _ _ _ _ _ hy => absurd hy not_returns_crash

theorem lockstep_beside (x : Fallible Unit E C α) :
    Lockstep R (beside x : Fallible S E C α) (beside x : Fallible T E C α) := by
  intro s t r r' s' t' hR hx hy
  obtain ⟨hret, rfl⟩ := returns_beside.mp hx
  obtain ⟨hret', rfl⟩ := returns_beside.mp hy
  exact ⟨(hret.unique hret').1, hR⟩

theorem lockstep_bind (hx : Lockstep R x y) (hf : ∀ a, Lockstep R (f a) (g a)) :
    Lockstep R (x >>= f) (y >>= g) := by
  intro s t r r' s' t' hR hret hret'
  rcases returns_bind.mp hret with ⟨e, hxe, rfl⟩ | ⟨a, s₁, hxa, hfa⟩
  · rcases returns_bind.mp hret' with ⟨e', hye, rfl⟩ | ⟨b, t₁, hyb, _⟩
    · obtain ⟨heq, hR'⟩ := hx hR hxe hye
      exact ⟨by rw [Except.error.inj heq], hR'⟩
    · exact nomatch (hx hR hxe hyb).1
  · rcases returns_bind.mp hret' with ⟨e', hye, rfl⟩ | ⟨b, t₁, hyb, hgb⟩
    · exact nomatch (hx hR hxa hye).1
    · obtain ⟨heq, hR₁⟩ := hx hR hxa hyb
      obtain rfl := Except.ok.inj heq
      exact hf a hR₁ hfa hgb

theorem lockstep_modify {h : S → S} {k : T → T} (hR : ∀ s t, R s t → R (h s) (k t)) :
    Lockstep R (modify h : Fallible S E C Unit) (modify k : Fallible T E C Unit) := by
  intro s t r r' s' t' hst hx hy
  obtain ⟨rfl, rfl⟩ := returns_modify.mp hx
  obtain ⟨rfl, rfl⟩ := returns_modify.mp hy
  exact ⟨rfl, hR s t hst⟩

/-- The states may differ where they are read, but not in what is read. -/
theorem lockstep_read {h : S → β} {k : T → β} {f : β → Fallible S E C α}
    {g : β → Fallible T E C α} (hR : ∀ s t, R s t → h s = k t)
    (hf : ∀ b, Lockstep R (f b) (g b)) :
    Lockstep R (get >>= fun s => f (h s)) (get >>= fun t => g (k t)) := by
  intro s t r r' s' t' hst hx hy
  have hx' : (f (h s)).Returns s r s' := hx
  have hy' : (g (k t)).Returns t r' t' := hy
  rw [hR s t hst] at hx'
  exact hf (k t) hst hx' hy'

end Lockstep

def ending : Except C (Except E α × S) → Option (C ⊕ E)
  | .error k => some (.inl k)
  | .ok (.error e, _) => some (.inr e)
  | .ok (.ok _, _) => none

/-- No run of `x` is cut short by anything in `B`. -/
def Shuns (B : C ⊕ E → Prop) (x : Fallible S E C α) : Prop := ∀ s k, ending (x s) = some k → ¬ B k

def Avoids (k : C) (x : Fallible S E C α) : Prop := ∀ s, x s ≠ .error k

section Shuns
variable {B : C ⊕ E → Prop}

theorem shuns_pure (a : α) : Shuns B (pure a : Fallible S E C α) := fun _ _ h => nomatch h

theorem shuns_get : Shuns B (get : Fallible S E C S) := fun _ _ h => nomatch h

theorem shuns_modify (f : S → S) : Shuns B (modify f : Fallible S E C Unit) :=
  fun _ _ h => nomatch h

theorem shuns_fail {e : E} (h : ¬ B (.inr e)) : Shuns B (fail e : Fallible S E C α) := by
  intro s k hk
  rwa [← Option.some.inj hk]

theorem shuns_crash {c : C} (h : ¬ B (.inl c)) : Shuns B (crash c : Fallible S E C α) := by
  intro s k hk
  rwa [← Option.some.inj hk]

theorem shuns_beside {x : Fallible Unit E C α} (h : Shuns B x) :
    Shuns B (beside x : Fallible S E C α) := by
  intro s k hk
  have hsame : ending ((beside x : Fallible S E C α) s) = ending (x ()) := by
    unfold beside
    cases x () with
    | error c => rfl
    | ok out =>
      obtain ⟨r, ⟨⟩⟩ := out
      cases r <;> rfl
  exact h () k (hsame.symm.trans hk)

theorem shuns_bind {x : Fallible S E C α} {f : α → Fallible S E C β} (hx : Shuns B x)
    (hf : ∀ a, Shuns B (f a)) : Shuns B (x >>= f) := by
  intro s k hk
  rw [bind_apply_eq] at hk
  have hfirst := hx s k
  split at hk
  · rename_i hrun
    rw [hrun] at hfirst
    exact hfirst hk
  · rename_i hrun
    rw [hrun] at hfirst
    exact hfirst hk
  · exact hf _ _ k hk

theorem shuns_mapM {f : α → Fallible S E C β} {l : List α} (hf : ∀ a, Shuns B (f a)) :
    Shuns B (l.mapM f) := by
  suffices h : ∀ done, Shuns B (List.mapM.loop f l done) from h []
  induction l with
  | nil => exact fun done => shuns_pure _
  | cons a l ih => exact fun done => shuns_bind (hf a) fun b => ih (b :: done)

theorem Shuns.avoids {x : Fallible S E C α} {k : C} (h : Shuns B x) (hk : B (.inl k)) :
    Avoids k x := by
  intro s hs
  refine h s (.inl k) ?_ hk
  rw [hs]
  rfl

theorem Shuns.error {x : Fallible S E C α} {s s' : S} {e : E} (h : Shuns B x) (he : B (.inr e)) :
    ¬ x.Returns s (.error e) s' := by
  intro hs
  have hs : x s = .ok (.error e, s') := hs
  refine h s (.inr e) ?_ he
  rw [hs]
  rfl

theorem shuns_of_avoids {x : Fallible S E C α} {k : C} (h : Avoids k x)
    (hB : ∀ j, B j → j = .inl k) : Shuns B x := by
  intro s j hj hbad
  obtain rfl := hB j hbad
  refine h s ?_
  cases hs : x s with
  | error c =>
    rw [hs] at hj
    exact congrArg Except.error (Sum.inl.inj (Option.some.inj hj))
  | ok out =>
    obtain ⟨r, s'⟩ := out
    rw [hs] at hj
    cases r with
    | error e => exact nomatch hj
    | ok a => exact nomatch hj

theorem bind_crashes {k : C} {x : Fallible S E C α} {s : S} (h : x s = .error k)
    (f : α → Fallible S E C β) : (x >>= f) s = .error k := by
  rw [bind_apply_eq, h]

end Shuns

end Fallible

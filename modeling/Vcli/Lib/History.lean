import Mathlib.Data.List.DropRight
import Mathlib.Data.List.Induction
import Vcli.Lib.Transducer

/-! Histories: invariants that tie the state of a machine to everything it has emitted, and
marks of a history that are kept apart by other entries. -/

namespace Transducer

variable {S A O : Type*} {f : S → A → S × List O}

/-- An invariant of the state and the history that every step of the run extends holds after the
run. -/
theorem run_trail_history {I : S → List O → Prop} {s : S} {h : List O} {as : List A}
    (step : ∀ r ∈ trail f s as, ∀ h, I r.1 h → I (f r.1 r.2).1 (h ++ (f r.1 r.2).2)) (hI : I s h) :
    I (run f s as).1 (h ++ (run f s as).2) := by
  induction as generalizing s h with
  | nil =>
    rw [run_nil, List.append_nil]
    exact hI
  | cons a as ih =>
    have hnext := step (s, a) List.mem_cons_self h hI
    have hrest := ih (fun r hr => step r (List.mem_cons_of_mem _ hr)) hnext
    rw [run_cons, ← List.append_assoc]
    exact hrest

theorem run_history {I : S → List O → Prop} {s : S} {h : List O} {as : List A}
    (step : ∀ s h, ∀ a ∈ as, I s h → I (f s a).1 (h ++ (f s a).2)) (hI : I s h) :
    I (run f s as).1 (h ++ (run f s as).2) :=
  run_trail_history (fun r hr h => step r.1 h r.2 (mem_of_mem_trail hr)) hI

/-- An invariant that a step keeps exactly when it is a good one holds all along a run exactly when
all of its steps are good. -/
theorem prefix_history_iff {I : S → List O → Prop} {C : S → A → Prop} {s : S} {h : List O}
    {as : List A} (step : ∀ s h, ∀ a ∈ as, I s h → (I (f s a).1 (h ++ (f s a).2) ↔ C s a))
    (hI : I s h) :
    (∀ done, done <+: as → I (run f s done).1 (h ++ (run f s done).2)) ↔
      ∀ r ∈ trail f s as, C r.1 r.2 := by
  induction as generalizing s h with
  | nil =>
    refine ⟨fun _ r hr => absurd hr List.not_mem_nil, fun _ done hdone => ?_⟩
    rw [List.prefix_nil.mp hdone, run_nil, List.append_nil]
    exact hI
  | cons a as ih =>
    -- the step lemma holds for each input on its own, so the first can be split off
    have hhead := step s h a List.mem_cons_self hI
    have htail := fun hnext => ih (s := (f s a).1) (h := h ++ (f s a).2)
      (fun s h b hb => step s h b (List.mem_cons_of_mem a hb)) hnext
    constructor
    · intro hall
      have hone := hall [a] ⟨as, rfl⟩
      rw [run_cons, run_nil, List.append_nil] at hone
      have hrest := (htail hone).mp fun done hdone => by
        have hmore := hall (a :: done) (List.prefix_cons_inj a |>.mpr hdone)
        rw [run_cons, ← List.append_assoc] at hmore
        exact hmore
      intro r hr
      rcases List.mem_cons.mp hr with rfl | hr
      · exact hhead.mp hone
      · exact hrest r hr
    · intro hgood done hdone
      have hnext := hhead.mpr (hgood (s, a) List.mem_cons_self)
      have hrest := (htail hnext).mpr fun r hr => hgood r (List.mem_cons_of_mem _ hr)
      cases done with
      | nil =>
        rw [run_nil, List.append_nil]
        exact hI
      | cons b done =>
        obtain ⟨rfl, hprefix⟩ := List.cons_prefix_cons.mp hdone
        rw [run_cons, ← List.append_assoc]
        exact hrest done hprefix

end Transducer

namespace History

variable {α : Type*} {mark gap : α → Prop} {R : α → α → Prop} {T U : List α} {m n : α}
  {mid : List α}

/-- `m` is the last mark of the history and `mid` is what came after it. -/
structure LastMark (mark : α → Prop) (T : List α) (m : α) (mid : List α) : Prop where
  split : ∃ l, T = l ++ m :: mid
  marked : mark m
  after : ∀ x ∈ mid, ¬ mark x

def Spaced (mark gap : α → Prop) (R : α → α → Prop) (T : List α) : Prop :=
  ∀ l m mid n r, T = l ++ m :: (mid ++ n :: r) → mark m → mark n → (∀ x ∈ mid, ¬ mark x) →
    (∃ x ∈ mid, gap x) ∧ R m n

theorem spaced_nil : Spaced mark gap R ([] : List α) := by
  intro l m mid n r h
  simp at h

theorem append_cons_concat {l r : List α} {x y : α} (h : T ++ [x] = l ++ y :: r) :
    (r = [] ∧ y = x ∧ T = l) ∨ ∃ r', r = r' ++ [x] ∧ T = l ++ y :: r' := by
  rcases List.eq_nil_or_concat r with rfl | ⟨r', z, rfl⟩
  · obtain ⟨hT, hx⟩ := List.append_inj' h rfl
    exact .inl ⟨rfl, (List.singleton_inj.mp hx).symm, hT⟩
  · rw [List.concat_eq_append, ← List.cons_append, ← List.append_assoc] at h
    obtain ⟨hT, hx⟩ := List.append_inj' h rfl
    exact .inr ⟨r', by rw [List.concat_eq_append, ← hx], hT⟩

theorem Spaced.snoc (h : Spaced mark gap R T)
    (hn : mark n → ∀ m mid, LastMark mark T m mid → (∃ x ∈ mid, gap x) ∧ R m n) :
    Spaced mark gap R (T ++ [n]) := by
  intro l m mid n' r heq hm hn' hmid
  have heq' : T ++ [n] = (l ++ m :: mid) ++ n' :: r := by
    rw [heq, List.append_assoc, List.cons_append]
  rcases append_cons_concat heq' with ⟨_, rfl, hT⟩ | ⟨r', _, hT⟩
  · exact hn hn' m mid ⟨⟨l, hT⟩, hm, hmid⟩
  · exact h l m mid n' r' (by rw [hT, List.append_assoc, List.cons_append]) hm hn' hmid

theorem Spaced.append_unmarked (h : Spaced mark gap R T) (hU : ∀ x ∈ U, ¬ mark x) :
    Spaced mark gap R (T ++ U) := by
  induction U generalizing T with
  | nil => rwa [List.append_nil]
  | cons u U ih =>
    have hu : Spaced mark gap R (T ++ [u]) := h.snoc fun hm => absurd hm (hU u List.mem_cons_self)
    have hrest := ih hu fun x hx => hU x (List.mem_cons_of_mem _ hx)
    rwa [List.append_assoc, List.singleton_append] at hrest

theorem lastMark_snoc (hn : mark n) (h : LastMark mark (T ++ [n]) m mid) : m = n ∧ mid = [] := by
  obtain ⟨⟨l, heq⟩, _, hafter⟩ := h
  rcases append_cons_concat heq with ⟨hmid, hm, _⟩ | ⟨r', rfl, _⟩
  · exact ⟨hm, hmid⟩
  · exact absurd hn (hafter n (List.mem_append_right _ List.mem_cons_self))

theorem LastMark.of_snoc (hn : ¬ mark n) (h : LastMark mark (T ++ [n]) m mid) :
    ∃ mid', mid = mid' ++ [n] ∧ LastMark mark T m mid' := by
  obtain ⟨⟨l, heq⟩, hm, hafter⟩ := h
  rcases append_cons_concat heq with ⟨_, rfl, _⟩ | ⟨r', rfl, hT⟩
  · exact absurd hm hn
  · exact ⟨r', rfl, ⟨l, hT⟩, hm, fun x hx => hafter x (List.mem_append_left _ hx)⟩

theorem LastMark.of_append (hU : ∀ x ∈ U, ¬ mark x) (h : LastMark mark (T ++ U) m mid) :
    ∃ mid', mid = mid' ++ U ∧ LastMark mark T m mid' := by
  induction U using List.reverseRecOn generalizing mid with
  | nil =>
    rw [List.append_nil] at h
    exact ⟨mid, (List.append_nil _).symm, h⟩
  | append_singleton U u ih =>
    rw [← List.append_assoc] at h
    obtain ⟨mid₁, rfl, h₁⟩ := h.of_snoc (hU u (List.mem_append_right _ List.mem_cons_self))
    obtain ⟨mid', rfl, h'⟩ := ih (fun x hx => hU x (List.mem_append_left _ hx)) h₁
    exact ⟨mid', List.append_assoc _ _ _, h'⟩

theorem LastMark.unique {m' : α} {mid' : List α} (h : LastMark mark T m mid)
    (h' : LastMark mark T m' mid') : m = m' ∧ mid = mid' := by
  obtain ⟨⟨l, rfl⟩, hm, hafter⟩ := h
  have hsplit : l ++ m :: mid = (l ++ [m]) ++ mid := by
    rw [List.append_assoc, List.singleton_append]
  rw [hsplit] at h'
  obtain ⟨rest, rfl, hrest⟩ := h'.of_append hafter
  obtain ⟨rfl, rfl⟩ := lastMark_snoc hm hrest
  exact ⟨rfl, (List.nil_append mid).symm⟩

section Since
variable {cut : α → Bool} {x : α}

def since (cut : α → Bool) (T : List α) : List α := T.rtakeWhile fun x => !cut x

theorem since_append (hU : ∀ x ∈ U, cut x = false) : since cut (T ++ U) = since cut T ++ U := by
  have hpass : ∀ x ∈ U.reverse, (!cut x) = true := by
    intro x hx
    rw [hU x (List.mem_reverse.mp hx)]
    rfl
  rw [since, List.rtakeWhile, List.reverse_append, List.takeWhile_append_of_pos hpass,
    List.reverse_append, List.reverse_reverse]
  rfl

theorem since_append_cut (hx : x ∈ U) (hcut : cut x = true) :
    since cut (T ++ U) = since cut U := by
  have hstop : (U.reverse.takeWhile fun x => !cut x).length ≠ U.reverse.length := by
    intro hlen
    have hall := (List.takeWhile_prefix fun x => !cut x).eq_of_length hlen
    rw [List.takeWhile_eq_self_iff] at hall
    have hpass := hall x (List.mem_reverse.mpr hx)
    rw [hcut] at hpass
    exact nomatch hpass
  rw [since, List.rtakeWhile, List.reverse_append, List.takeWhile_append, if_neg hstop]
  rfl

theorem mem_of_mem_since (h : x ∈ since cut T) : x ∈ T :=
  (List.rtakeWhile_suffix _ T).subset h

end Since

end History

import Mathlib.Data.List.Nodup
import Vcli.Lib.Transducer

/-! Lists in which one key occurs once, and runs over such lists as seen by an observer of
that key. -/

namespace Keyed

variable {α β K : Type*} {key : α → K} {key' : β → K} {k : K} {x : α} {L : List α}

def Sole (key : α → K) (k : K) (x : α) (L : List α) : Prop :=
  ∃ l r, L = l ++ x :: r ∧ ∀ y ∈ l ++ r, key y ≠ k

def Absent (key : α → K) (k : K) (L : List α) : Prop := ∀ y ∈ L, key y ≠ k

theorem Sole.mem (h : Sole key k x L) : x ∈ L := by
  obtain ⟨l, r, rfl, _⟩ := h
  exact List.mem_append_right _ List.mem_cons_self

theorem Sole.eq_of_mem (h : Sole key k x L) {y : α} (hy : y ∈ L) (hk : key y = k) : y = x := by
  obtain ⟨l, r, rfl, hne⟩ := h
  rcases List.mem_append.mp hy with hl | hr
  · exact absurd hk (hne y (List.mem_append_left _ hl))
  · rcases List.mem_cons.mp hr with rfl | hr
    · rfl
    · exact absurd hk (hne y (List.mem_append_right _ hr))

theorem sole_of_nodup (hn : (L.map key).Nodup) (hx : x ∈ L) : Sole key (key x) x L := by
  obtain ⟨l, r, rfl⟩ := List.append_of_mem hx
  refine ⟨l, r, rfl, fun y hy hk => ?_⟩
  rw [List.map_append, List.map_cons, List.nodup_middle, List.nodup_cons, ← List.map_append] at hn
  exact hn.1 (hk ▸ List.mem_map_of_mem hy)

theorem sole_of_filter [DecidableEq K] (key : α → K)
    (h : L.filter (fun y => decide (key y = k)) = [x]) :
    Sole key k x L := by
  obtain ⟨l, r, rfl, hl, -, hr⟩ := List.filter_eq_cons_iff.mp h
  refine ⟨l, r, rfl, fun y hy hk => ?_⟩
  rcases List.mem_append.mp hy with hy | hy
  · exact hl y hy (decide_eq_true hk)
  · exact List.filter_eq_nil_iff.mp hr y hy (decide_eq_true hk)

theorem absent_of_filter [DecidableEq K] (key : α → K)
    (h : L.filter (fun y => decide (key y = k)) = []) :
    Absent key k L := fun y hy hk => List.filter_eq_nil_iff.mp h y hy (decide_eq_true hk)

theorem Absent.of_some (h : Absent (fun a => some (key a)) (some k) L) : Absent key k L :=
  fun y hy hk => h y hy (congrArg some hk)

theorem Sole.of_some (h : Sole (fun a => some (key a)) (some k) x L) : Sole key k x L := by
  obtain ⟨l, r, rfl, hne⟩ := h
  exact ⟨l, r, rfl, fun y hy hk => hne y hy (congrArg some hk)⟩

theorem Absent.filterMap {h : α → Option β} (hs : Absent key k L)
    (hkey : ∀ y z, h y = some z → key' z = key y) : Absent key' k (L.filterMap h) := by
  intro z hz
  obtain ⟨y, hy, hyz⟩ := List.mem_filterMap.mp hz
  rw [hkey y z hyz]
  exact hs y hy

theorem Sole.filterMap_some {h : α → Option β} {b : β} (hs : Sole key k x L)
    (hkey : ∀ y z, h y = some z → key' z = key y) (hx : h x = some b) :
    Sole key' k b (L.filterMap h) := by
  obtain ⟨l, r, rfl, hne⟩ := hs
  refine ⟨l.filterMap h, r.filterMap h, by simp [hx], ?_⟩
  have habs : Absent key k (l ++ r) := hne
  rw [← List.filterMap_append]
  exact habs.filterMap hkey

theorem Sole.filterMap_none {h : α → Option β} (hs : Sole key k x L)
    (hkey : ∀ y z, h y = some z → key' z = key y) (hx : h x = none) :
    Absent key' k (L.filterMap h) := by
  obtain ⟨l, r, rfl, hne⟩ := hs
  have habs : Absent key k (l ++ r) := hne
  have heq : (l ++ x :: r).filterMap h = (l ++ r).filterMap h := by simp [hx]
  rw [heq]
  exact habs.filterMap hkey

theorem Sole.map {h : α → β} (hs : Sole key k x L) (hkey : ∀ y, key' (h y) = key y) :
    Sole key' k (h x) (L.map h) := by
  obtain ⟨l, r, rfl, hne⟩ := hs
  refine ⟨l.map h, r.map h, by simp, ?_⟩
  intro z hz
  rw [← List.map_append] at hz
  obtain ⟨y, hy, rfl⟩ := List.mem_map.mp hz
  rw [hkey]
  exact hne y hy

theorem Absent.map {h : α → β} (hs : Absent key k L) (hkey : ∀ y, key' (h y) = key y) :
    Absent key' k (L.map h) := by
  intro z hz
  obtain ⟨y, hy, rfl⟩ := List.mem_map.mp hz
  rw [hkey]
  exact hs y hy

end Keyed

namespace Transducer

variable {S A O V K : Type*} {f : S → A → S × List O} {v : S → V} {m : O → Bool}
  {key : A → K} {k : K}

/-- A run over inputs of other keys is invisible to an observer of `k`. -/
theorem run_absent {as : List A} (h : Keyed.Absent key k as)
    (hv : ∀ s a, key a ≠ k → v (f s a).1 = v s)
    (ho : ∀ s a, key a ≠ k → (f s a).2.filter m = []) (s : S) :
    v (run f s as).1 = v s ∧ (run f s as).2.filter m = [] :=
  run_foreign (fun s a ha => hv s a (h a ha)) (fun s a ha => ho s a (h a ha)) s

/-- A run with one input of key `k` is, to an observer of `k`, that one step. -/
theorem run_sole {as : List A} {a : A} (h : Keyed.Sole key k a as)
    (hv : ∀ s a, key a ≠ k → v (f s a).1 = v s)
    (ho : ∀ s a, key a ≠ k → (f s a).2.filter m = []) (s : S) :
    ∃ t, v t = v s ∧ v (run f s as).1 = v (f t a).1 ∧
      (run f s as).2.filter m = (f t a).2.filter m := by
  obtain ⟨l, r, rfl, hne⟩ := h
  exact run_owner (fun s b hb => hv s b (hne b hb)) (fun s b hb => ho s b (hne b hb)) s

section Trail
variable {β : Type*} {g : S × A → Option β}

theorem trail_absent {as : List A} (h : Keyed.Absent key k as)
    (hg : ∀ x, key x.2 ≠ k → g x = none) (s : S) : (trail f s as).filterMap g = [] :=
  List.filterMap_eq_nil_iff.mpr fun x hx => hg x (h x.2 (mem_of_mem_trail hx))

theorem trail_sole {as : List A} {a : A} (h : Keyed.Sole key k a as)
    (hv : ∀ s a, key a ≠ k → v (f s a).1 = v s)
    (ho : ∀ s a, key a ≠ k → (f s a).2.filter m = []) (hg : ∀ x, key x.2 ≠ k → g x = none)
    (s : S) :
    ∃ t, v t = v s ∧ (trail f s as).filterMap g = (g (t, a)).toList ∧
      v (run f s as).1 = v (f t a).1 ∧ (run f s as).2.filter m = (f t a).2.filter m := by
  obtain ⟨l, r, rfl, hne⟩ := h
  have hbefore : Keyed.Absent key k l := fun y hy => hne y (List.mem_append_left _ hy)
  have hafter : Keyed.Absent key k r := fun y hy => hne y (List.mem_append_right _ hy)
  have hl := run_absent hbefore hv ho s
  have hr := run_absent hafter hv ho (f (run f s l).1 a).1
  refine ⟨(run f s l).1, hl.1, ?_, ?_, ?_⟩
  · rw [trail_append, List.filterMap_append, trail_absent hbefore hg, trail_cons,
      List.nil_append, ← List.singleton_append, List.filterMap_append, trail_absent hafter hg,
      List.append_nil]
    cases hga : g ((run f s l).1, a) <;> simp [hga]
  · rw [run_append, run_cons]
    exact hr.1
  · rw [run_append, run_cons, List.filter_append, List.filter_append, hl.2, hr.2,
      List.nil_append, List.append_nil]

end Trail

end Transducer

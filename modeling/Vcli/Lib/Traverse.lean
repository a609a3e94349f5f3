import Mathlib.Data.List.Forall2
import Mathlib.Data.List.Perm.Basic
import Mathlib.Data.List.Perm.Subperm
import Std.Data.ExtTreeMap

/-! Functions taken over a list item by item, and a map filled from a list of entries. -/

namespace Traverse

section Forall₂

variable {α β γ : Type}

theorem map_eq_of_forall₂ {R : α → β → Prop} {f : α → γ} {g : β → γ} {a : List α} {b : List β}
    (hR : List.Forall₂ R a b) (h : ∀ x ∈ a, ∀ y, R x y → f x = g y) : a.map f = b.map g := by
  induction hR with
  | nil => rfl
  | cons hxy _ ih =>
    rw [List.map_cons, List.map_cons, h _ (List.mem_cons_self ..) _ hxy,
      ih fun x hx => h x (List.mem_cons_of_mem _ hx)]

theorem forall₂_of_map_eq {R : α → β → Prop} {f : α → γ} {g : β → γ} {a : List α} {b : List β}
    (hmap : a.map f = b.map g) (h : ∀ x ∈ a, ∀ y, f x = g y → R x y) : List.Forall₂ R a b := by
  induction a generalizing b with
  | nil =>
    cases b with
    | nil => exact .nil
    | cons y b => exact nomatch hmap
  | cons x a ih =>
    cases b with
    | nil => exact nomatch hmap
    | cons y b =>
      obtain ⟨hxy, hrest⟩ := List.cons.inj hmap
      exact .cons (h x (List.mem_cons_self ..) y hxy)
        (ih hrest fun x hx => h x (List.mem_cons_of_mem _ hx))

end Forall₂

section MapM

variable {α β γ : Type}

theorem mapM_map_pure {m : Type → Type} [Monad m] [LawfulMonad m] {f : α → β} {k : β → m γ}
    {g : α → γ} {l : List α} (h : ∀ x ∈ l, k (f x) = pure (g x)) :
    (l.map f).mapM k = pure (l.map g) := by
  induction l with
  | nil => rfl
  | cons x l ih =>
    have hrest := ih fun y hy => h y (List.mem_cons_of_mem x hy)
    rw [List.map_cons, List.mapM_cons, h x (List.mem_cons_self ..), hrest]
    simp

theorem mapM_eq_some_iff {f : α → Option β} {l : List α} {out : List β} :
    l.mapM f = some out ↔ List.Forall₂ (fun a b => f a = some b) l out := by
  induction l generalizing out with
  | nil =>
    rw [List.forall₂_nil_left_iff, List.mapM_nil]
    exact ⟨fun h => (Option.some.inj h).symm, fun h => congrArg some h.symm⟩
  | cons a l ih =>
    rw [List.mapM_cons, List.forall₂_cons_left_iff]
    constructor
    · intro h
      obtain ⟨b, hb, hrest⟩ := Option.bind_eq_some_iff.mp h
      obtain ⟨rest, hl, hout⟩ := Option.bind_eq_some_iff.mp hrest
      exact ⟨b, rest, hb, ih.mp hl, (Option.some.inj hout).symm⟩
    · rintro ⟨b, rest, hb, hl, rfl⟩
      rw [hb, ih.mpr hl]
      rfl

theorem mapM_perm {f : α → Option β} {l l' : List α} {out : List β} (hp : l'.Perm l)
    (h : l.mapM f = some out) : ∃ out', l'.mapM f = some out' ∧ out'.Perm out := by
  obtain ⟨out', hout', hperm⟩ := List.perm_comp_forall₂ hp (mapM_eq_some_iff.mp h)
  exact ⟨out', mapM_eq_some_iff.mpr hout', hperm⟩

theorem exists_of_mapM {f : α → Option β} {l : List α} {out : List β} (h : l.mapM f = some out)
    {b : β} (hb : b ∈ out) : ∃ a ∈ l, f a = some b := by
  have hall := mapM_eq_some_iff.mp h
  clear h
  induction hall with
  | nil => exact nomatch hb
  | cons hab _ ih =>
    rcases List.mem_cons.mp hb with rfl | hb
    · exact ⟨_, List.mem_cons_self .., hab⟩
    · obtain ⟨a, ha, hfa⟩ := ih hb
      exact ⟨a, List.mem_cons_of_mem _ ha, hfa⟩

end MapM

section Parts

variable {α β δ : Type} {k : α → List β} {e : α → δ} {l l' : List α}

theorem length_flatMap_eq (hlen : ∀ a a', e a = e a' → (k a).length = (k a').length)
    (he : l.map e = l'.map e) : (l.flatMap k).length = (l'.flatMap k).length := by
  have hmap : l.map (fun a => (k a).length) = l'.map fun a => (k a).length :=
    map_eq_of_forall₂ (forall₂_of_map_eq he fun _ _ _ h => h) fun a _ b h => hlen a b h
  rw [List.length_flatMap, List.length_flatMap, hmap]

theorem eq_of_parts (hlen : ∀ a a', e a = e a' → (k a).length = (k a').length)
    (hext : ∀ a a', e a = e a' → k a = k a' → a = a') (he : l.map e = l'.map e)
    (hk : l.flatMap k = l'.flatMap k) : l = l' := by
  induction l generalizing l' with
  | nil => exact (List.map_eq_nil_iff.mp he.symm).symm
  | cons a l ih =>
    cases l' with
    | nil => exact nomatch he
    | cons a' l' =>
      obtain ⟨ha, hrest⟩ := List.cons.inj he
      rw [List.flatMap_cons, List.flatMap_cons] at hk
      obtain ⟨hhead, htail⟩ := List.append_inj hk (hlen a a' ha)
      rw [hext a a' ha hhead, ih hrest htail]

end Parts

section Fill

variable {K V : Type} [Ord K] [Std.TransOrd K] [Std.LawfulEqOrd K]

def fill (entries : List (K × V)) : Std.ExtTreeMap K V :=
  entries.foldl (fun m e => m.insert e.1 e.2) ∅

theorem mem_of_foldl_insert {entries : List (K × V)} {m : Std.ExtTreeMap K V} {k : K} {v : V}
    (h : (entries.foldl (fun m e => m.insert e.1 e.2) m)[k]? = some v) :
    (k, v) ∈ entries ∨ m[k]? = some v := by
  induction entries generalizing m with
  | nil => exact Or.inr h
  | cons e entries ih =>
    rcases ih h with hmem | hin
    · exact Or.inl (List.mem_cons_of_mem e hmem)
    · rw [Std.ExtTreeMap.getElem?_insert] at hin
      split at hin
      next heq =>
        rw [← Std.compare_eq_iff_eq.mp heq, ← Option.some.inj hin]
        exact Or.inl (List.mem_cons_self ..)
      next => exact Or.inr hin

theorem mem_of_fill {entries : List (K × V)} {k : K} {v : V} (h : (fill entries)[k]? = some v) :
    (k, v) ∈ entries := by
  rcases mem_of_foldl_insert h with hmem | hin
  · exact hmem
  · simp at hin

theorem foldl_insert_of_notMem {entries : List (K × V)} {m : Std.ExtTreeMap K V} {k : K}
    (h : k ∉ entries.map Prod.fst) :
    (entries.foldl (fun m e => m.insert e.1 e.2) m)[k]? = m[k]? := by
  induction entries generalizing m with
  | nil => rfl
  | cons e entries ih =>
    rw [List.map_cons, List.mem_cons, not_or] at h
    have hne : ¬ compare e.1 k = .eq := fun heq => h.1 (Std.compare_eq_iff_eq.mp heq).symm
    rw [List.foldl_cons, ih h.2, Std.ExtTreeMap.getElem?_insert, if_neg hne]

theorem foldl_insert_of_mem {entries : List (K × V)} {m : Std.ExtTreeMap K V} {k : K} {v : V}
    (hkeys : (entries.map Prod.fst).Nodup) (h : (k, v) ∈ entries) :
    (entries.foldl (fun m e => m.insert e.1 e.2) m)[k]? = some v := by
  induction entries generalizing m with
  | nil => exact nomatch h
  | cons e entries ih =>
    obtain ⟨hnotin, hkeys⟩ := List.nodup_cons.mp hkeys
    rcases List.mem_cons.mp h with rfl | h
    · rw [List.foldl_cons, foldl_insert_of_notMem hnotin, Std.ExtTreeMap.getElem?_insert_self]
    · exact ih hkeys h

theorem getElem?_fill {entries : List (K × V)} (hkeys : (entries.map Prod.fst).Nodup) {k : K}
    {v : V} : (fill entries)[k]? = some v ↔ (k, v) ∈ entries :=
  ⟨mem_of_fill, foldl_insert_of_mem hkeys⟩

theorem toList_ofList {entries : List (K × V)}
    (h : entries.Pairwise fun a b => compare a.1 b.1 = .lt) :
    (Std.ExtTreeMap.ofList entries : Std.ExtTreeMap K V).toList = entries := by
  have hdistinct : entries.Pairwise fun a b => ¬ compare a.1 b.1 = .eq :=
    h.imp fun hlt heq => nomatch hlt.symm.trans heq
  have hordered := (Std.ExtTreeMap.ofList entries : Std.ExtTreeMap K V).ordered_keys_toList
  have hne : ∀ {l : List (K × V)}, (l.Pairwise fun a b => compare a.1 b.1 = .lt) → l.Nodup :=
    fun hl => hl.imp fun hlt heq => by
      rw [heq, Std.compare_self] at hlt
      exact nomatch hlt
  have hsub : entries ⊆ (Std.ExtTreeMap.ofList entries : Std.ExtTreeMap K V).toList := by
    rintro ⟨k, v⟩ hv
    exact Std.ExtTreeMap.mem_toList_iff_getElem?_eq_some.mpr
      (Std.ExtTreeMap.getElem?_ofList_of_mem Std.compare_self hdistinct hv)
  have hlength : (Std.ExtTreeMap.ofList entries : Std.ExtTreeMap K V).toList.length ≤
      entries.length := by
    rw [Std.ExtTreeMap.length_toList]
    exact Std.ExtTreeMap.size_ofList_le
  have hperm := (List.subperm_of_subset (hne h) hsub).perm_of_length_le hlength
  refine List.Perm.eq_of_pairwise ?_ hordered h hperm.symm
  intro a b _ _ hab hba
  have hswap : compare a.1 b.1 = (compare b.1 a.1).swap := Std.OrientedCmp.eq_swap
  rw [hswap, hba] at hab
  exact nomatch hab

end Fill

end Traverse

import Mathlib.Data.List.Nodup

/-! Tables with a primary key. Rows stay in the order of their insertion, updates happen in
place and no key is there twice. -/

structure Table (K R : Type*) where
  rows : List (K × R)
  nodup : (rows.map Prod.fst).Nodup

namespace Table

variable {K R : Type*} [DecidableEq K]

def empty : Table K R := ⟨[], List.nodup_nil⟩

def get (t : Table K R) (k : K) : Option R := t.rows.lookup k

/-- A row under a new key, or `none` if the key is taken. -/
def insert? (t : Table K R) (k : K) (r : R) : Option (Table K R) :=
  if h : k ∈ t.rows.map Prod.fst then none
  else some ⟨t.rows ++ [(k, r)], by
    rw [List.map_append]
    exact t.nodup.append (List.nodup_singleton k) (List.disjoint_singleton.mpr h)⟩

def mapRows (f : K → R → R) (t : Table K R) : Table K R where
  rows := t.rows.map fun e => (e.1, f e.1 e.2)
  nodup := by
    rw [List.map_map]
    exact t.nodup

def update (k : K) (f : R → R) (t : Table K R) : Table K R :=
  t.mapRows fun k' r => if k' = k then f r else r

def deleteWhere (p : K → R → Bool) (t : Table K R) : Table K R where
  rows := t.rows.filter fun e => !p e.1 e.2
  nodup := t.nodup.sublist (List.filter_sublist.map _)

def erase (k : K) (t : Table K R) : Table K R := t.deleteWhere fun k' _ => decide (k' = k)

def put (k : K) (r : R) (t : Table K R) : Table K R where
  rows := (t.erase k).rows ++ [(k, r)]
  nodup := by
    have hk : k ∉ (t.erase k).rows.map Prod.fst := by
      intro hmem
      obtain ⟨e, he, hek⟩ := List.mem_map.mp hmem
      have hne := (List.mem_filter.mp he).2
      simp [hek] at hne
    rw [List.map_append]
    exact (t.erase k).nodup.append (List.nodup_singleton k) (List.disjoint_singleton.mpr hk)

section Lookup
variable {l : List (K × R)} {k : K} {r : R}

theorem lookup_isSome_iff : (l.lookup k).isSome ↔ k ∈ l.map Prod.fst := by
  induction l with
  | nil => simp
  | cons e l ih =>
    obtain ⟨k', r'⟩ := e
    by_cases h : k = k'
    · simp [h]
    · simp [List.lookup_cons, beq_false_of_ne h, h, ih]

theorem lookup_map_snd (f : K → R → R) :
    (l.map fun e => (e.1, f e.1 e.2)).lookup k = (l.lookup k).map (f k) := by
  induction l with
  | nil => rfl
  | cons e l ih =>
    obtain ⟨k', r'⟩ := e
    by_cases h : k = k'
    · simp [h]
    · simp [List.lookup_cons, beq_false_of_ne h, ih]

theorem mem_iff_lookup (hn : (l.map Prod.fst).Nodup) : (k, r) ∈ l ↔ l.lookup k = some r := by
  induction l with
  | nil => simp
  | cons e l ih =>
    obtain ⟨k', r'⟩ := e
    obtain ⟨hnotin, hn⟩ := List.nodup_cons.mp hn
    by_cases h : k = k'
    · subst h
      have hnot : (k, r) ∉ l := fun hmem => hnotin (List.mem_map.mpr ⟨_, hmem, rfl⟩)
      simp [hnot, eq_comm]
    · simp [List.lookup_cons, beq_false_of_ne h, h, ih hn]

end Lookup

section Get
variable {t : Table K R} {k k' : K} {r : R}

@[simp] theorem get_empty : (empty : Table K R).get k = none := rfl

theorem mem_rows_iff : (k, r) ∈ t.rows ↔ t.get k = some r := mem_iff_lookup t.nodup

theorem insert?_none (h : (t.get k).isSome) : t.insert? k r = none :=
  dif_pos (lookup_isSome_iff.mp h)

theorem insert?_some (h : t.get k = none) : ∃ t', t.insert? k r = some t' ∧
    t'.get k = some r ∧ ∀ k', k' ≠ k → t'.get k' = t.get k' := by
  have hk : k ∉ t.rows.map Prod.fst := by
    rw [← lookup_isSome_iff, show t.rows.lookup k = none from h]
    exact Bool.false_ne_true
  refine ⟨_, dif_neg hk, ?_, ?_⟩
  · simp only [get] at h ⊢
    simp [List.lookup_append, h]
  · intro k' hk'
    have hlast : [(k, r)].lookup k' = none := by
      rw [List.lookup_cons, beq_false_of_ne hk']
      rfl
    simp only [get, List.lookup_append, hlast, Option.or_none]

theorem insert?_eq_some {t' : Table K R} (h : t.insert? k r = some t') :
    t.get k = none ∧ t'.get k = some r ∧ ∀ k', k' ≠ k → t'.get k' = t.get k' := by
  cases hk : t.get k with
  | some r' =>
    rw [insert?_none (by rw [hk]; rfl)] at h
    exact nomatch h
  | none =>
    obtain ⟨t'', h', hself, hne⟩ := insert?_some (r := r) hk
    obtain rfl := Option.some.inj (h.symm.trans h')
    exact ⟨rfl, hself, hne⟩

@[simp] theorem get_mapRows (f : K → R → R) : (t.mapRows f).get k = (t.get k).map (f k) :=
  lookup_map_snd f

@[simp] theorem get_update_self (f : R → R) : (t.update k f).get k = (t.get k).map f := by
  simp only [update, get_mapRows, if_true]

theorem get_update_ne (f : R → R) (h : k' ≠ k) : (t.update k f).get k' = t.get k' := by
  simp only [update, get_mapRows, if_neg h, Option.map_id']

theorem get_deleteWhere (p : K → R → Bool) :
    (t.deleteWhere p).get k = (t.get k).filter fun r => !p k r := by
  ext r
  rw [Option.filter_eq_some_iff, ← mem_rows_iff, ← mem_rows_iff, deleteWhere, List.mem_filter]

@[simp] theorem get_erase_self : (t.erase k).get k = none := by
  rw [erase, get_deleteWhere]
  simp

theorem get_erase_ne (h : k' ≠ k) : (t.erase k).get k' = t.get k' := by
  rw [erase, get_deleteWhere]
  cases t.get k' <;> simp [h]

@[simp] theorem get_put_self : (t.put k r).get k = some r := by
  have hnone : (t.erase k).rows.lookup k = none := get_erase_self
  show ((t.erase k).rows ++ [(k, r)]).lookup k = some r
  rw [List.lookup_append, hnone, List.lookup_cons_self, Option.none_or]

theorem get_put_ne (h : k' ≠ k) : (t.put k r).get k' = t.get k' := by
  have hlast : [(k, r)].lookup k' = none := by
    rw [List.lookup_cons, beq_false_of_ne h]
    rfl
  have herase : (t.erase k).rows.lookup k' = t.get k' := get_erase_ne h
  show ((t.erase k).rows ++ [(k, r)]).lookup k' = t.get k'
  rw [List.lookup_append, hlast, Option.or_none, herase]

end Get

end Table

import Mathlib.Data.List.Infix
import Vcli.Lib.FileName

/-! Paths as they are written and the places they lead to. Joining is textual, so that what is
joined can leave the base; where a path leads is found by following its names one by one. -/

namespace Pathname

def IsAbsolute (path : List Char) : Prop := path.head? = some '/'

instance (path : List Char) : Decidable (IsAbsolute path) := inferInstanceAs (Decidable (_ = _))

def join (base path : List Char) : List Char :=
  if IsAbsolute path then path
  else if base.getLast?.all (· = '/') then base ++ path
  else base ++ '/' :: path

abbrev Place := List (List Char)

def enter (here : Place) (name : List Char) : Place :=
  if name = [] ∨ name = ['.'] then here
  else if name = ['.', '.'] then here.dropLast
  else here ++ [name]

def follow (here : Place) (path : List Char) : Place := (FileName.segments path).foldl enter here

def origin (cwd : Place) (path : List Char) : Place := if IsAbsolute path then [] else cwd

def locate (cwd : Place) (path : List Char) : Place := follow (origin cwd path) path

def Under (cwd : Place) (root path : List Char) : Prop := locate cwd root <+: locate cwd path

instance (cwd : Place) (root path : List Char) : Decidable (Under cwd root path) :=
  inferInstanceAs (Decidable (_ <+: _))

structure Plain (name : List Char) : Prop where
  ne_nil : name ≠ []
  ne_dot : name ≠ ['.']
  ne_dots : name ≠ ['.', '.']
  slash : '/' ∉ name

variable {cwd here : Place} {base path name : List Char}

theorem segments_append (base path : List Char) :
    FileName.segments (base ++ '/' :: path) = FileName.segments base ++ FileName.segments path := by
  induction base with
  | nil =>
    have hslash : FileName.segments ('/' :: path) = [] :: FileName.segments path := by
      rw [FileName.segments]
      exact if_pos rfl
    exact hslash
  | cons c base ih =>
    rw [List.cons_append, FileName.segments, FileName.segments, ih]
    split_ifs
    · rfl
    · have hne : FileName.segments base ≠ [] := by
        cases base with
        | nil => simp [FileName.segments]
        | cons d base =>
          rw [FileName.segments]
          split_ifs
          · simp
          · split
            · simp
            · simp
      obtain ⟨s, rest, hs⟩ := List.exists_cons_of_ne_nil hne
      rw [hs]
      rfl

theorem segments_of_no_slash (h : '/' ∉ name) : FileName.segments name = [name] := by
  induction name with
  | nil => rfl
  | cons c name ih =>
    have hc : c ≠ '/' := fun he => h (he ▸ List.mem_cons_self)
    rw [FileName.segments, if_neg hc, ih fun hm => h (List.mem_cons_of_mem _ hm)]

theorem follow_append (here : Place) (base path : List Char) :
    follow here (base ++ '/' :: path) = follow (follow here base) path := by
  rw [follow, segments_append, List.foldl_append]
  rfl

theorem Plain.follow (h : Plain name) : follow here name = here ++ [name] := by
  rw [Pathname.follow, segments_of_no_slash h.slash, List.foldl_cons, List.foldl_nil, enter,
    if_neg (not_or.mpr ⟨h.ne_nil, h.ne_dot⟩), if_neg h.ne_dots]

theorem Plain.relative (h : Plain name) : ¬ IsAbsolute name := by
  intro habs
  exact h.slash (List.mem_of_mem_head? habs)

theorem follow_separator (here : Place) (base : List Char) :
    follow here (base ++ ['/']) = follow here base := follow_append here base []

theorem origin_append (h : base ≠ []) : origin cwd (base ++ path) = origin cwd base := by
  have hiff : IsAbsolute (base ++ path) ↔ IsAbsolute base := by
    rw [IsAbsolute, IsAbsolute, List.head?_append_of_ne_nil base h]
  exact if_congr hiff rfl rfl

theorem locate_join (cwd : Place) (base path : List Char) :
    locate cwd (join base path) = follow (origin (locate cwd base) path) path := by
  unfold join
  split_ifs with habs hlast
  · rw [locate, origin, if_pos habs, origin, if_pos habs]
  · rw [origin, if_neg habs]
    rcases List.eq_nil_or_concat' base with rfl | ⟨init, c, rfl⟩
    · rw [List.nil_append, locate, origin, if_neg habs]
      rfl
    · obtain rfl : c = '/' := by simpa using hlast
      rw [locate, origin_append (by simp), locate, List.append_assoc, List.singleton_append,
        follow_append, follow_separator]
  · rw [origin, if_neg habs]
    rcases List.eq_nil_or_concat' base with rfl | ⟨init, c, rfl⟩
    · simp at hlast
    · rw [locate, origin_append (by simp), locate, follow_append]

theorem Plain.locate_join (h : Plain name) :
    locate cwd (join base name) = locate cwd base ++ [name] := by
  rw [Pathname.locate_join, origin, if_neg h.relative, h.follow]

end Pathname

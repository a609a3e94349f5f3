import Mathlib.Data.List.TakeWhile

/-! File names: the stem and the extension around the last dot, and the last component of a
path. A name that starts with its only dot has no extension. -/

namespace FileName

variable {base ext name : List Char}

def before (name : List Char) : Option (List Char) :=
  match name.reverse.dropWhile (· ≠ '.') with
  | [] => none
  | [_] => none
  | _ :: rest => some rest.reverse

def stem (name : List Char) : List Char := (before name).getD name

def extension (name : List Char) : Option (List Char) :=
  (before name).map fun _ => (name.reverse.takeWhile (· ≠ '.')).reverse

def withExtension (ext name : List Char) : List Char := stem name ++ '.' :: ext

def segments : List Char → List (List Char)
  | [] => [[]]
  | c :: path =>
    if c = '/' then [] :: segments path
    else match segments path with
      | [] => [[c]]
      | s :: rest => (c :: s) :: rest

def last (path : List Char) : Option (List Char) :=
  (((segments path).filter fun s => decide (s ≠ [] ∧ s ≠ ['.'])).getLast?).filter
    fun s => decide (s ≠ ['.', '.'])

theorem before_of_no_dot (h : '.' ∉ name) : before name = none := by
  have hall : name.reverse.dropWhile (· ≠ '.') = [] := by
    rw [List.dropWhile_eq_nil_iff]
    intro c hc
    exact decide_eq_true fun hdot => h (hdot ▸ List.mem_reverse.mp hc)
  rw [before, hall]

theorem before_append (hbase : base ≠ []) (hext : '.' ∉ ext) :
    before (base ++ '.' :: ext) = some base := by
  have hskip : ∀ c ∈ ext.reverse, decide (c ≠ '.') = true := by
    intro c hc
    exact decide_eq_true fun hdot => hext (hdot ▸ List.mem_reverse.mp hc)
  have hdrop : (base ++ '.' :: ext).reverse.dropWhile (· ≠ '.') = '.' :: base.reverse := by
    rw [List.reverse_append, List.reverse_cons, List.append_assoc,
      List.dropWhile_append_of_pos hskip]
    rfl
  rw [before, hdrop]
  cases hrev : base.reverse with
  | nil => exact absurd (List.reverse_eq_nil_iff.mp hrev) hbase
  | cons c rest =>
    show some (c :: rest).reverse = some base
    rw [← hrev, List.reverse_reverse]

theorem stem_of_no_dot (h : '.' ∉ name) : stem name = name := by
  rw [stem, before_of_no_dot h, Option.getD_none]

theorem stem_append (hbase : base ≠ []) (hext : '.' ∉ ext) : stem (base ++ '.' :: ext) = base := by
  rw [stem, before_append hbase hext, Option.getD_some]

theorem dot_not_mem_extension (h : extension name = some ext) : '.' ∉ ext := by
  obtain ⟨rest, -, rfl⟩ := Option.map_eq_some_iff.mp h
  intro hdot
  have hne := List.mem_takeWhile_imp (List.mem_reverse.mp hdot)
  exact of_decide_eq_true hne rfl

theorem mem_of_mem_extension {c : Char} (h : extension name = some ext) (hc : c ∈ ext) :
    c ∈ name := by
  obtain ⟨rest, -, rfl⟩ := Option.map_eq_some_iff.mp h
  have htake := List.takeWhile_prefix (l := name.reverse) (· ≠ '.')
  exact List.mem_reverse.mp (htake.subset (List.mem_reverse.mp hc))

theorem slash_not_mem_segments {path s : List Char} (hs : s ∈ segments path) : '/' ∉ s := by
  induction path generalizing s with
  | nil =>
    rw [List.mem_singleton.mp hs]
    exact List.not_mem_nil
  | cons c path ih =>
    rw [segments] at hs
    split_ifs at hs with hc
    · rcases List.mem_cons.mp hs with rfl | hs
      · exact List.not_mem_nil
      · exact ih hs
    · cases hrest : segments path with
      | nil =>
        rw [hrest] at hs
        rw [List.mem_singleton.mp hs, List.mem_singleton]
        exact fun hslash => hc hslash.symm
      | cons t rest =>
        rw [hrest] at hs ih
        rcases List.mem_cons.mp hs with rfl | hs
        · intro hslash
          rcases List.mem_cons.mp hslash with rfl | hslash
          · exact hc rfl
          · exact ih List.mem_cons_self hslash
        · exact ih (List.mem_cons_of_mem t hs)

theorem slash_not_mem_last {path s : List Char} (h : last path = some s) : '/' ∉ s := by
  have hlast := Option.filter_eq_some_iff.mp h
  exact slash_not_mem_segments (List.mem_filter.mp (List.mem_of_getLast? hlast.1)).1

end FileName

import Mathlib.Data.List.Basic

/-! A stream that arrives in pieces, and the loop that fills a buffer from it. -/

namespace Transport

variable {α : Type}

inductive Arrival (α : Type)
  | piece (c : List α) (h : c ≠ [])
  | fault (message : String)

abbrev Arrivals (α : Type) := List (Arrival α)

namespace Arrivals

def contents : Arrivals α → List α
  | [] => []
  | .piece c _ :: rest => c ++ contents rest
  | .fault _ :: rest => contents rest

def Clean (s : Arrivals α) : Prop := ∀ a ∈ s, ∃ c h, a = .piece c h

/-- One read into a buffer with `room` places. Of a larger piece the rest stays. Reading nothing
means that the peer has closed. -/
def read (room : Nat) : Arrivals α → Except String (List α) × Arrivals α
  | [] => (.ok [], [])
  | .fault message :: rest => (.error message, rest)
  | .piece c _ :: rest =>
    if hlt : room < c.length then
      (.ok (c.take room), .piece (c.drop room) (by simpa using hlt) :: rest)
    else (.ok c, rest)

/-- The elements in pieces: `n + 1` of them for each `n`, and the rest in a last one. -/
def cut : List Nat → List α → Arrivals α
  | [], bytes => if h : bytes = [] then [] else [.piece bytes h]
  | n :: sizes, bytes =>
    if h : bytes = [] then []
    else .piece (bytes.take (n + 1)) (by simpa using h) :: cut sizes (bytes.drop (n + 1))

inductive Filled (α : Type)
  | done (buffer : List α)
  | ended (got : Nat)
  | failed (message : String)
deriving DecidableEq

def fill (n : Nat) (filled : List α) (s : Arrivals α) : Filled α × Arrivals α :=
  if filled.length < n then
    match read (n - filled.length) s with
    | (.error message, s') => (.failed message, s')
    | (.ok [], s') => (.ended filled.length, s')
    | (.ok (a :: more), s') => fill n (filled ++ a :: more) s'
  else (.done filled, s)
termination_by n - filled.length
decreasing_by
  simp only [List.length_append, List.length_cons]
  omega

theorem contents_cons_piece (c : List α) (h : c ≠ []) (rest : Arrivals α) :
    contents (.piece c h :: rest) = c ++ contents rest := rfl

theorem cut_contents (sizes : List Nat) (bytes : List α) : (cut sizes bytes).contents = bytes := by
  induction sizes generalizing bytes with
  | nil =>
    rw [cut]
    split_ifs with h
    · exact h.symm
    · exact List.append_nil bytes
  | cons n sizes ih =>
    rw [cut]
    split_ifs with h
    · exact h.symm
    · rw [contents_cons_piece, ih, List.take_append_drop]

theorem cut_clean (sizes : List Nat) (bytes : List α) : (cut sizes bytes).Clean := by
  induction sizes generalizing bytes with
  | nil =>
    rw [cut]
    split_ifs with h
    · exact List.forall_mem_nil _
    · exact List.forall_mem_singleton.mpr ⟨_, _, rfl⟩
  | cons n sizes ih =>
    rw [cut]
    split_ifs with h
    · exact List.forall_mem_nil _
    · exact List.forall_mem_cons.mpr ⟨⟨_, _, rfl⟩, ih _⟩

theorem Clean.tail {a : Arrival α} {s : Arrivals α} (h : Clean (a :: s)) : Clean s :=
  fun b hb => h b (List.mem_cons_of_mem a hb)

theorem read_contents {room : Nat} {s s' : Arrivals α} {part : List α}
    (h : read room s = (.ok part, s')) : contents s = part ++ contents s' := by
  cases s with
  | nil =>
    obtain ⟨hpart, rfl⟩ := Prod.mk.inj h
    rw [← Except.ok.inj hpart]
    rfl
  | cons a s =>
    cases a with
    | fault message => exact nomatch congrArg Prod.fst h
    | piece c hc =>
      rw [read] at h
      split at h
      · obtain ⟨hpart, rfl⟩ := Prod.mk.inj h
        rw [← Except.ok.inj hpart, contents_cons_piece, contents_cons_piece, ← List.append_assoc,
          List.take_append_drop]
      · obtain ⟨hpart, rfl⟩ := Prod.mk.inj h
        rw [← Except.ok.inj hpart]
        rfl

theorem fill_contents {n : Nat} {filled buffer : List α} {s s' : Arrivals α}
    (h : fill n filled s = (.done buffer, s')) :
    n ≤ buffer.length ∧ filled ++ contents s = buffer ++ contents s' := by
  fun_induction fill n filled s with
  | case1 filled s hlt message t hread => exact nomatch congrArg Prod.fst h
  | case2 filled s hlt t hread => exact nomatch congrArg Prod.fst h
  | case3 filled s hlt a more t hread ih =>
    rw [read_contents hread, ← List.append_assoc]
    exact ih h
  | case4 filled s hlt =>
    obtain ⟨hdone, rfl⟩ := Prod.mk.inj h
    obtain rfl := Filled.done.inj hdone
    exact ⟨by omega, rfl⟩

theorem read_clean {room : Nat} {s : Arrivals α} (h : Clean s) (hroom : 0 < room) :
    ∃ part s', read room s = (.ok part, s') ∧ Clean s' ∧ contents s = part ++ contents s' ∧
      part.length ≤ room ∧ (part = [] → contents s = []) := by
  cases s with
  | nil => exact ⟨[], [], rfl, h, rfl, Nat.zero_le _, fun _ => rfl⟩
  | cons a s =>
    obtain ⟨c, hc, rfl⟩ := h a (List.mem_cons_self ..)
    rw [read]
    by_cases hlt : room < c.length
    · rw [dif_pos hlt]
      refine ⟨_, _, rfl, ?_, ?_, ?_, fun hnil => ?_⟩
      · exact List.forall_mem_cons.mpr ⟨⟨_, _, rfl⟩, h.tail⟩
      · exact read_contents (dif_pos hlt)
      · exact List.length_take_le ..
      · have hlen := congrArg List.length hnil
        rw [List.length_take, List.length_nil] at hlen
        omega
    · rw [dif_neg hlt]
      exact ⟨c, s, rfl, h.tail, rfl, by omega, fun hnil => absurd hnil hc⟩

/-- The loop gets the next `n` elements however they are cut, and tells how far it came when
there are fewer. -/
theorem fill_clean {n : Nat} {filled : List α} {s : Arrivals α} (h : Clean s)
    (hlen : filled.length ≤ n) :
    ∃ s', Clean s' ∧
      if n ≤ (filled ++ contents s).length then
        fill n filled s = (.done ((filled ++ contents s).take n), s') ∧
          contents s' = (filled ++ contents s).drop n
      else fill n filled s = (.ended (filled ++ contents s).length, s') ∧ contents s' = [] := by
  fun_induction fill n filled s with
  -- a clean transport reports no failure
  | case1 filled s hlt message s' hread =>
    obtain ⟨part, t, hpart, -⟩ := read_clean h (show 0 < n - filled.length by omega)
    exact absurd (congrArg Prod.fst (hread.symm.trans hpart)) nofun
  | case2 filled s hlt s' hread =>
    obtain ⟨part, t, hpart, hclean, hcontents, -, hnil⟩ :=
      read_clean h (show 0 < n - filled.length by omega)
    obtain ⟨hfst, rfl⟩ := Prod.mk.inj (hread.symm.trans hpart)
    have hpartnil : part = [] := (Except.ok.inj hfst).symm
    have hempty := hnil hpartnil
    refine ⟨s', hclean, ?_⟩
    rw [hempty, List.append_nil, if_neg (by omega)]
    rw [hempty, hpartnil, List.nil_append] at hcontents
    exact ⟨rfl, hcontents.symm⟩
  | case3 filled s hlt a more s' hread ih =>
    obtain ⟨part, t, hpart, hclean, hcontents, hroom, -⟩ :=
      read_clean h (show 0 < n - filled.length by omega)
    obtain ⟨hfst, rfl⟩ := Prod.mk.inj (hread.symm.trans hpart)
    have hpart' : part = a :: more := (Except.ok.inj hfst).symm
    subst hpart'
    rw [hcontents, ← List.append_assoc]
    refine ih hclean ?_
    rw [List.length_append]
    omega
  | case4 filled s hlt =>
    have hfull : filled.length = n := by omega
    refine ⟨s, h, ?_⟩
    rw [if_pos (by rw [List.length_append]; omega), ← hfull, List.take_left, List.drop_left]
    exact ⟨rfl, rfl⟩

theorem fill_whole {n : Nat} {s : Arrivals α} (h : Clean s) {part rest : List α}
    (hcontents : contents s = part ++ rest) (hlen : part.length = n) :
    ∃ s', Clean s' ∧ contents s' = rest ∧ fill n [] s = (.done part, s') := by
  obtain ⟨s', hclean, hfill⟩ := fill_clean h (show ([] : List α).length ≤ n from Nat.zero_le n)
  rw [List.nil_append, hcontents, if_pos (by rw [List.length_append]; omega), ← hlen,
    List.take_left, List.drop_left] at hfill
  exact ⟨s', hclean, hfill.2, hlen ▸ hfill.1⟩

theorem fill_short {n : Nat} {s : Arrivals α} (h : Clean s) (hlen : (contents s).length < n) :
    ∃ s', Clean s' ∧ contents s' = [] ∧ fill n [] s = (.ended (contents s).length, s') := by
  obtain ⟨s', hclean, hfill⟩ := fill_clean h (show ([] : List α).length ≤ n from Nat.zero_le n)
  rw [List.nil_append, if_neg (by omega)] at hfill
  exact ⟨s', hclean, hfill.2, hfill.1⟩

end Arrivals

end Transport

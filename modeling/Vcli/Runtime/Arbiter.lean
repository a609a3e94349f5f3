import Mathlib.Data.String.Basic
import Vcli.Core.Basic

/-! Action arbitration: at most one candidate of a tick dispatches. -/

namespace Vcli.Arbiter

variable {T : Type}

structure Candidate (T : Type) where
  programId : ProgramId
  priority : Int
  payload : T

structure Decision (T : Type) where
  programId : ProgramId
  payload : T
  dispatch : Bool
  loserOf : Option ProgramId

/-- `Iterator::max_by`: of several maximal elements the last one is returned. -/
def maxBy (cmp : T → T → Ordering) : List T → Option T
  | [] => none
  | x :: xs => some (xs.foldl (fun best y => if cmp best y = .gt then best else y) x)

def compareCandidates (a b : Candidate T) : Ordering :=
  (compare a.priority b.priority).then (compare a.programId.toString b.programId.toString)

def resolve (candidates : List (Candidate T)) : List (Decision T) :=
  if candidates.length ≤ 1 then
    candidates.map fun c => ⟨c.programId, c.payload, true, none⟩
  else
    match (maxBy compareCandidates candidates).map Candidate.programId with
    | none => []
    | some winner => candidates.map fun c =>
        if c.programId = winner then ⟨c.programId, c.payload, true, none⟩
        else ⟨c.programId, c.payload, false, some winner⟩

def loserOf (candidates : List (Candidate T)) (id : ProgramId) : Option ProgramId :=
  if candidates.length ≤ 1 then none
  else match (maxBy compareCandidates candidates).map Candidate.programId with
    | none => none
    | some winner => if id = winner then none else some winner

theorem maxBy_eq_none {cmp : T → T → Ordering} {l : List T} : maxBy cmp l = none ↔ l = [] := by
  cases l <;> simp [maxBy]

/-- Arbitration keeps the candidates, in order and with their payloads, and adds a verdict
to each. -/
theorem resolve_eq_map (candidates : List (Candidate T)) :
    resolve candidates = candidates.map fun c => ⟨c.programId, c.payload,
      (loserOf candidates c.programId).isNone, loserOf candidates c.programId⟩ := by
  unfold resolve loserOf
  split_ifs with hlen
  · rfl
  · cases hmax : maxBy compareCandidates candidates with
    | none =>
      rw [maxBy_eq_none.mp hmax] at hlen
      exact absurd (Nat.zero_le 1) hlen
    | some w =>
      apply List.map_congr_left
      intro c _
      by_cases hc : c.programId = w.programId <;> simp [hc]

section Greatest
variable {cmp : T → T → Ordering}

theorem foldl_mem (l : List T) (best : T) :
    l.foldl (fun best y => if cmp best y = .gt then best else y) best ∈ best :: l := by
  induction l generalizing best with
  | nil => exact List.mem_cons_self
  | cons z l ih =>
    have hnext := ih (if cmp best z = .gt then best else z)
    rcases List.mem_cons.mp hnext with heq | hmem
    · rw [List.foldl_cons, heq]
      split_ifs
      · exact List.mem_cons_self
      · exact List.mem_cons_of_mem _ List.mem_cons_self
    · exact List.mem_cons_of_mem _ (List.mem_cons_of_mem _ hmem)

theorem maxBy_mem {l : List T} {w : T} (h : maxBy cmp l = some w) : w ∈ l := by
  cases l with
  | nil => exact nomatch h
  | cons x l =>
    obtain rfl := Option.some.inj h
    exact foldl_mem l x

variable [Std.TransCmp cmp]

theorem foldl_greatest (cmp : T → T → Ordering) [Std.TransCmp cmp] (l : List T) (best : T) :
    (cmp best (l.foldl (fun best y => if cmp best y = .gt then best else y) best)).isLE ∧
      ∀ y ∈ l, (cmp y (l.foldl (fun best y => if cmp best y = .gt then best else y) best)).isLE := by
  induction l generalizing best with
  | nil => exact ⟨Std.ReflCmp.isLE_rfl, fun _ hy => absurd hy List.not_mem_nil⟩
  | cons z l ih =>
    obtain ⟨hbest, hall⟩ := ih (if cmp best z = .gt then best else z)
    have hsteps : (cmp best (if cmp best z = .gt then best else z)).isLE ∧
        (cmp z (if cmp best z = .gt then best else z)).isLE := by
      by_cases hgt : cmp best z = .gt
      · rw [if_pos hgt]
        exact ⟨Std.ReflCmp.isLE_rfl, Ordering.isLE_of_eq_lt (Std.OrientedCmp.lt_of_gt hgt)⟩
      · rw [if_neg hgt]
        exact ⟨Ordering.isLE_iff_ne_gt.mpr hgt, Std.ReflCmp.isLE_rfl⟩
    refine ⟨Std.TransCmp.isLE_trans hsteps.1 hbest, fun y hy => ?_⟩
    rcases List.mem_cons.mp hy with rfl | hy
    · exact Std.TransCmp.isLE_trans hsteps.2 hbest
    · exact hall y hy

theorem maxBy_greatest {l : List T} {w : T} (h : maxBy cmp l = some w) :
    ∀ y ∈ l, (cmp y w).isLE := by
  cases l with
  | nil => exact nomatch h
  | cons x l =>
    obtain rfl := Option.some.inj h
    obtain ⟨hbest, hall⟩ := foldl_greatest cmp l x
    intro y hy
    rcases List.mem_cons.mp hy with rfl | hy
    · exact hbest
    · exact hall y hy

end Greatest

instance : Std.TransCmp (compareCandidates (T := T)) :=
  inferInstanceAs (Std.TransCmp (compareLex (compareOn Candidate.priority)
    (compareOn fun c : Candidate T => c.programId.toString)))

theorem programId_of_compare {a b : Candidate T} (h : compareCandidates a b = .eq) :
    a.programId = b.programId := by
  obtain ⟨-, hid⟩ := Ordering.then_eq_eq.mp h
  exact ProgramId.toString_injective (Std.LawfulEqCmp.eq_of_compare hid)

/-- The winner does not depend on the order of the candidates. -/
theorem winner_perm {l l' : List (Candidate T)} (h : l.Perm l') :
    (maxBy compareCandidates l).map Candidate.programId =
      (maxBy compareCandidates l').map Candidate.programId := by
  cases hw : maxBy compareCandidates l with
  | none =>
    rw [maxBy_eq_none.mp hw] at h
    rw [List.nil_perm.mp h]
    rfl
  | some w =>
    cases hw' : maxBy compareCandidates l' with
    | none =>
      rw [maxBy_eq_none.mp hw'] at h
      rw [List.perm_nil.mp h] at hw
      exact nomatch hw
    | some w' =>
      have hle : (compareCandidates w w').isLE :=
        maxBy_greatest hw' w (h.mem_iff.mp (maxBy_mem hw))
      have hge : (compareCandidates w' w).isLE :=
        maxBy_greatest hw w' (h.mem_iff.mpr (maxBy_mem hw'))
      exact congrArg some (programId_of_compare (Std.OrientedCmp.isLE_antisymm hle hge))

theorem loserOf_perm {l l' : List (Candidate T)} (h : l.Perm l') (id : ProgramId) :
    loserOf l id = loserOf l' id := by
  rw [loserOf, loserOf, h.length_eq, winner_perm h]

def Candidate.Below (a b : Candidate T) : Prop :=
  a.priority < b.priority ∨
    a.priority = b.priority ∧ a.programId.toString < b.programId.toString

theorem compareCandidates_eq_lt {a b : Candidate T} :
    compareCandidates a b = .lt ↔ a.Below b := by
  rw [compareCandidates, Ordering.then_eq_lt, Int.compare_eq_lt, Int.compare_eq_eq,
    compare_lt_iff_lt, Candidate.Below]

section Winner
variable {candidates : List (Candidate T)} {w : Candidate T}

theorem below_winner (hw : maxBy compareCandidates candidates = some w) {c : Candidate T}
    (hc : c ∈ candidates) (hne : c.programId ≠ w.programId) : c.Below w := by
  rw [← compareCandidates_eq_lt]
  have hle : (compareCandidates c w).isLE := maxBy_greatest hw c hc
  cases hcmp : compareCandidates c w with
  | lt => rfl
  | eq => exact absurd (programId_of_compare hcmp) hne
  | gt =>
    rw [hcmp] at hle
    exact nomatch hle

theorem loserOf_eq (hw : maxBy compareCandidates candidates = some w) {c : Candidate T}
    (hc : c ∈ candidates) :
    loserOf candidates c.programId =
      if c.programId = w.programId then none else some w.programId := by
  unfold loserOf
  split_ifs with hlen heq hne
  · rfl
  · match candidates, hlen with
    | [x], _ =>
      have hcw : c = w := (List.mem_singleton.mp hc).trans (Option.some.inj hw)
      exact absurd (congrArg Candidate.programId hcw) heq
  · simp only [hw, Option.map_some, hne, if_true]
  · simp only [hw, Option.map_some]
    rw [if_neg (by assumption)]

theorem filter_programId (hids : (candidates.map Candidate.programId).Nodup)
    (hw : w ∈ candidates) :
    candidates.filter (fun c => decide (c.programId = w.programId)) = [w] := by
  have hnodup : candidates.Nodup := List.Nodup.of_map _ hids
  apply List.perm_singleton.mp
  apply (List.perm_ext_iff_of_nodup (hnodup.filter _) (List.nodup_singleton w)).mpr
  intro c
  rw [List.mem_filter, List.mem_singleton, decide_eq_true_iff]
  constructor
  · rintro ⟨hc, heq⟩
    exact List.inj_on_of_nodup_map hids hc hw heq
  · rintro rfl
    exact ⟨hw, rfl⟩

theorem dispatched_eq (hids : (candidates.map Candidate.programId).Nodup)
    (hw : maxBy compareCandidates candidates = some w) :
    (resolve candidates).filter Decision.dispatch = [⟨w.programId, w.payload, true, none⟩] := by
  have hwins : ∀ c ∈ candidates, (loserOf candidates c.programId).isNone =
      decide (c.programId = w.programId) := by
    intro c hc
    rw [loserOf_eq hw hc]
    by_cases heq : c.programId = w.programId <;> simp [heq]
  rw [resolve_eq_map, List.filter_map, Function.comp_def, List.filter_congr hwins,
    filter_programId hids (maxBy_mem hw), List.map_singleton, loserOf_eq hw (maxBy_mem hw),
    if_pos rfl]
  rfl

end Winner

/-- Arbitration settles every list of candidates of distinct programs: one verdict each, in
order; one winner, above all others and named by the losers; and the order of the list
decides nothing. -/
theorem resolve_settles (candidates : List (Candidate T))
    (hids : (candidates.map Candidate.programId).Nodup) :
    (resolve candidates).map (fun d => (d.programId, d.payload)) =
        candidates.map (fun c => (c.programId, c.payload)) ∧
      (candidates ≠ [] → ∃ w ∈ candidates, (∀ c ∈ candidates, c ≠ w → c.Below w) ∧
        (resolve candidates).filter Decision.dispatch =
          [⟨w.programId, w.payload, true, none⟩] ∧
        ∀ d ∈ resolve candidates, d.dispatch = false → d.loserOf = some w.programId) ∧
      ∀ other, candidates.Perm other →
        (∃ verdict : Candidate T → Decision T, resolve candidates = candidates.map verdict ∧
          resolve other = other.map verdict) ∧
        (resolve other).filter Decision.dispatch =
          (resolve candidates).filter Decision.dispatch := by
  refine ⟨?_, ?_, ?_⟩
  · rw [resolve_eq_map, List.map_map]
    rfl
  · intro hne
    cases hmax : maxBy compareCandidates candidates with
    | none => exact absurd (maxBy_eq_none.mp hmax) hne
    | some w =>
      refine ⟨w, maxBy_mem hmax, ?_, dispatched_eq hids hmax, ?_⟩
      · intro c hc hcw
        apply below_winner hmax hc
        intro heq
        exact hcw (List.inj_on_of_nodup_map hids hc (maxBy_mem hmax) heq)
      · intro d hd hlost
        rw [resolve_eq_map, List.mem_map] at hd
        obtain ⟨c, hc, rfl⟩ := hd
        rw [loserOf_eq hmax hc] at hlost ⊢
        by_cases heq : c.programId = w.programId
        · simp [heq] at hlost
        · rw [if_neg heq]
  · intro other hperm
    -- a verdict depends on the winner, and that does not depend on the order
    have hsame : resolve other = other.map fun c => ⟨c.programId, c.payload,
        (loserOf candidates c.programId).isNone, loserOf candidates c.programId⟩ := by
      rw [resolve_eq_map]
      apply List.map_congr_left
      intro c _
      rw [loserOf_perm hperm]
    refine ⟨⟨_, resolve_eq_map candidates, hsame⟩, ?_⟩
    have hout : (resolve candidates).Perm (resolve other) := by
      rw [resolve_eq_map, hsame]
      exact hperm.map _
    cases hmax : maxBy compareCandidates candidates with
    | none =>
      rw [maxBy_eq_none.mp hmax] at hperm ⊢
      rw [List.nil_perm.mp hperm]
    | some w =>
      -- one decision at most dispatches, so the two lists agree and not just as multisets
      have hfilter := hout.filter Decision.dispatch
      rw [dispatched_eq hids hmax] at hfilter ⊢
      exact List.singleton_perm.mp hfilter |>.symm

theorem resolve_settles_three :
    ([(⟨⟨1⟩, 3, "a"⟩ : Candidate String), ⟨⟨2⟩, 3, "b"⟩, ⟨⟨3⟩, 0, "c"⟩].map
        Candidate.programId).Nodup ∧
      (resolve [⟨⟨1⟩, 3, "a"⟩, ⟨⟨2⟩, 3, "b"⟩, ⟨⟨3⟩, 0, "c"⟩]).map
          (fun d => (d.programId, d.payload)) = [(⟨1⟩, "a"), (⟨2⟩, "b"), (⟨3⟩, "c")] :=
  ⟨by decide, (resolve_settles [⟨⟨1⟩, 3, "a"⟩, ⟨⟨2⟩, 3, "b"⟩, ⟨⟨3⟩, 0, "c"⟩] (by decide)).1⟩

end Vcli.Arbiter

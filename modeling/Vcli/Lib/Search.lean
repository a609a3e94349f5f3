import Mathlib.Algebra.BigOperators.Group.List.Basic
import Mathlib.Algebra.Ring.Int.Defs
import Mathlib.Algebra.Ring.Nat
import Mathlib.Data.List.Chain
import Mathlib.Logic.Function.Basic
import Mathlib.Logic.Relation

/-! Depth-first search for a cycle, with an explicit stack and a colour for every node. -/

namespace Search

open Relation

inductive Color
  | white
  | gray
  | black
deriving DecidableEq, Repr

/-- The colours and the nodes in progress, the innermost first, each with the edges that are
still to be followed. -/
structure State (α : Type) where
  color : α → Color
  stack : List (α × List α)

variable {α : Type} (keys : List α) (edges : α → List α)

def Edge (x y : α) : Prop := y ∈ edges x ∧ y ∈ keys

namespace State

def path (s : State α) : List α := (s.stack.map Prod.fst).reverse

variable [DecidableEq α]

def enter (x : α) (s : State α) : State α :=
  ⟨Function.update s.color x .gray, (x, edges x) :: s.stack⟩

def untouched (color : α → Color) : List α → Nat
  | [] => 0
  | k :: l => (if color k = .white then (edges k).length + 1 else 0) + untouched color l

def weight (s : State α) : Nat :=
  untouched edges s.color keys + (s.stack.map fun e => e.2.length + 1).sum

theorem untouched_update (x : α) (color : α → Color) {c : Color} (hc : c ≠ .white) (l : List α) :
    untouched edges (Function.update color x c) l +
      (if x ∈ l ∧ color x = .white then (edges x).length + 1 else 0) ≤
        untouched edges color l := by
  induction l with
  | nil => simp [untouched]
  | cons k l ih =>
    rw [untouched, untouched]
    by_cases hk : k = x
    · subst hk
      rw [Function.update_self, if_neg hc]
      by_cases hwhite : color k = .white
      · rw [if_pos ⟨List.mem_cons_self, hwhite⟩, if_pos hwhite]
        omega
      · rw [if_neg fun h => hwhite h.2, if_neg hwhite]
        omega
    · have hmem : x ∈ k :: l ↔ x ∈ l := by simp [Ne.symm hk]
      rw [Function.update_of_ne hk]
      simp only [hmem]
      omega

variable {keys}

theorem weight_enter {x : α} {color : α → Color} (stack : List (α × List α)) (hx : x ∈ keys)
    (hwhite : color x = .white) :
    weight keys edges (enter edges x ⟨color, stack⟩) ≤ weight keys edges ⟨color, stack⟩ := by
  have hgray := untouched_update edges x color
    (nofun : Color.gray ≠ .white) keys
  rw [if_pos ⟨hx, hwhite⟩] at hgray
  simp only [weight, enter, List.map_cons, List.sum_cons]
  omega

variable (keys)

theorem weight_black (x : α) (color : α → Color) (stack : List (α × List α)) :
    weight keys edges ⟨Function.update color x .black, stack⟩ ≤
      weight keys edges ⟨color, stack⟩ := by
  have hblack := untouched_update edges x color
    (nofun : Color.black ≠ .white) keys
  simp only [weight]
  omega

end State

open State

section Loop

variable [DecidableEq α]

/-- The nodes from the first meeting of `next` on, and `next` again. -/
def loopAt (path : List α) (next : α) : List α :=
  path.drop ((path.findIdx? (· == next)).getD 0) ++ [next]

def visit (s : State α) : Except (List α) (α → Color) :=
  match s with
  | ⟨color, []⟩ => .ok color
  | ⟨color, (x, []) :: below⟩ => visit ⟨Function.update color x .black, below⟩
  | ⟨color, (x, next :: rest) :: below⟩ =>
    if _hnext : next ∈ keys then
      match _hcolor : color next with
      | .white => visit (enter edges next ⟨color, (x, rest) :: below⟩)
      | .gray => .error (loopAt (path ⟨color, (x, rest) :: below⟩) next)
      | .black => visit ⟨color, (x, rest) :: below⟩
    else visit ⟨color, (x, rest) :: below⟩
termination_by s.weight keys edges
decreasing_by
  · have hless := weight_black keys edges x color below
    simp only [weight, List.map_cons, List.sum_cons] at hless ⊢
    omega
  · have hless := weight_enter edges ((x, rest) :: below) _hnext _hcolor
    simp only [weight, List.map_cons, List.sum_cons, List.length_cons] at hless ⊢
    omega
  · simp only [weight, List.map_cons, List.sum_cons, List.length_cons]
    omega
  · simp only [weight, List.map_cons, List.sum_cons, List.length_cons]
    omega

def sweep : List α → (α → Color) → Except (List α) (α → Color)
  | [], color => .ok color
  | start :: rest, color =>
    if color start = .white then do
      let color ← visit keys edges (enter edges start ⟨color, []⟩)
      sweep rest color
    else sweep rest color

end Loop

section Sound

/-- The edges of the nodes in progress lead to black nodes, are still to be followed, or led to
the node that is in progress above. -/
def Pending (color : α → Color) : Option α → List (α × List α) → Prop
  | _, [] => True
  | above, (x, rest) :: below =>
    (∀ y, Edge keys edges x y → y ∈ rest ∨ color y = .black ∨ above = some y) ∧
      Pending color (some x) below

/-- What holds at every turn of a search, with `above` about to be entered. -/
structure Sound (above : Option α) (s : State α) : Prop where
  gray : ∀ x, s.color x = .gray ↔ x ∈ s.stack.map Prod.fst
  nodup : (s.stack.map Prod.fst).Nodup
  closed : ∀ x y, s.color x = .black → Edge keys edges x y → s.color y = .black
  acyclic : ∀ x, s.color x = .black → ¬ TransGen (Edge keys edges) x x
  pending : Pending keys edges s.color above s.stack

variable {keys edges}

theorem Pending.mono {color color' : α → Color} (h : ∀ x, color x = .black → color' x = .black)
    {above : Option α} {stack : List (α × List α)} (hp : Pending keys edges color above stack) :
    Pending keys edges color' above stack := by
  induction stack generalizing above with
  | nil => trivial
  | cons e stack ih =>
    refine ⟨fun y hy => ?_, ih hp.2⟩
    exact (hp.1 y hy).imp_right fun hdone => hdone.imp_left (h y)

theorem Pending.leave {color : α → Color} {x : α} (hx : color x = .black)
    {stack : List (α × List α)} (hp : Pending keys edges color (some x) stack) :
    Pending keys edges color none stack := by
  cases stack with
  | nil => trivial
  | cons e stack =>
    refine ⟨fun y hy => ?_, hp.2⟩
    rcases hp.1 y hy with hrest | hblack | habove
    · exact .inl hrest
    · exact .inr (.inl hblack)
    · rw [← Option.some.inj habove]
      exact .inr (.inl hx)

theorem Sound.closed_trans {above : Option α} {s : State α} (h : Sound keys edges above s) {x y : α}
    (hx : s.color x = .black) (hxy : TransGen (Edge keys edges) x y) : s.color y = .black := by
  induction hxy with
  | single hedge => exact h.closed _ _ hx hedge
  | tail _ hedge ih => exact h.closed _ _ ih hedge

variable [DecidableEq α]

theorem Sound.enter {x : α} {color : α → Color} {stack : List (α × List α)}
    (h : Sound keys edges (some x) ⟨color, stack⟩) (hwhite : color x = .white) :
    Sound keys edges none (enter edges x ⟨color, stack⟩) := by
  have hnot : x ∉ stack.map Prod.fst := by
    intro hx
    have hgray : color x = .gray := (h.gray x).mpr hx
    exact nomatch hwhite.symm.trans hgray
  have hblack : ∀ y, Function.update color x .gray y = .black ↔ color y = .black := by
    intro y
    by_cases hy : y = x
    · subst hy
      rw [Function.update_self, hwhite]
      exact ⟨nofun, nofun⟩
    · rw [Function.update_of_ne hy]
  constructor
  · intro y
    show Function.update color x .gray y = .gray ↔ y ∈ x :: stack.map Prod.fst
    by_cases hy : y = x
    · subst hy
      simp
    · rw [Function.update_of_ne hy, List.mem_cons, h.gray y]
      simp [hy]
  · exact List.nodup_cons.mpr ⟨hnot, h.nodup⟩
  · exact fun y z hy hedge => (hblack z).mpr (h.closed y z ((hblack y).mp hy) hedge)
  · exact fun y hy => h.acyclic y ((hblack y).mp hy)
  · exact ⟨fun y hy => .inl hy.1, h.pending.mono fun y hy => (hblack y).mpr hy⟩

theorem Sound.leave {x : α} {color : α → Color} {below : List (α × List α)}
    (h : Sound keys edges none ⟨color, (x, []) :: below⟩) :
    Sound keys edges none ⟨Function.update color x .black, below⟩ := by
  have hgray : color x = .gray := (h.gray x).mpr List.mem_cons_self
  have hnodup := List.nodup_cons.mp h.nodup
  -- the stack has nothing above the node, and all of its edges have been followed
  have hedges : ∀ y, Edge keys edges x y → color y = .black := by
    intro y hy
    rcases h.pending.1 y hy with hrest | hblack | habove
    · exact nomatch hrest
    · exact hblack
    · exact nomatch habove
  have hkeep : ∀ y, color y = .black → Function.update color x .black y = .black := by
    intro y hy
    by_cases hyx : y = x
    · rw [hyx, Function.update_self]
    · rwa [Function.update_of_ne hyx]
  constructor
  · intro y
    show Function.update color x .black y = .gray ↔ y ∈ below.map Prod.fst
    by_cases hy : y = x
    · subst hy
      rw [Function.update_self]
      exact ⟨nofun, fun hmem => absurd hmem hnodup.1⟩
    · have hall := h.gray y
      rw [List.map_cons, List.mem_cons] at hall
      rw [Function.update_of_ne hy]
      exact hall.trans (or_iff_right hy)
  · exact hnodup.2
  · intro y z hy hedge
    refine hkeep z ?_
    by_cases hyx : y = x
    · subst hyx
      exact hedges z hedge
    · have hy' : color y = .black := (Function.update_of_ne hyx _ _).symm.trans hy
      exact h.closed y z hy' hedge
  · intro y hy hcycle
    by_cases hyx : y = x
    · -- a way back to the node would make it black before it is
      subst hyx
      obtain ⟨z, hedge, hback⟩ := TransGen.head'_iff.mp hcycle
      have hz := hedges z hedge
      have hblack : color y = .black := by
        rcases reflTransGen_iff_eq_or_transGen.mp hback with heq | htrans
        · rwa [← heq] at hz
        · exact h.closed_trans hz htrans
      exact nomatch hgray.symm.trans hblack
    · have hy' : color y = .black := (Function.update_of_ne hyx _ _).symm.trans hy
      exact h.acyclic y hy' hcycle
  · exact (h.pending.2.mono hkeep).leave (Function.update_self ..)

omit [DecidableEq α] in
theorem Sound.skip {x next : α} {rest : List α} {color : α → Color} {below : List (α × List α)}
    (h : Sound keys edges none ⟨color, (x, next :: rest) :: below⟩)
    (hnext : next ∈ keys → color next = .black) :
    Sound keys edges none ⟨color, (x, rest) :: below⟩ := by
  refine ⟨h.gray, h.nodup, h.closed, h.acyclic, fun y hy => ?_, h.pending.2⟩
  rcases h.pending.1 y hy with hrest | hdone
  · rcases List.mem_cons.mp hrest with rfl | hrest
    · exact .inr (.inl (hnext hy.2))
    · exact .inl hrest
  · exact .inr hdone

omit [DecidableEq α] in
theorem Sound.follow {x next : α} {rest : List α} {color : α → Color} {below : List (α × List α)}
    (h : Sound keys edges none ⟨color, (x, next :: rest) :: below⟩) :
    Sound keys edges (some next) ⟨color, (x, rest) :: below⟩ := by
  refine ⟨h.gray, h.nodup, h.closed, h.acyclic, fun y hy => ?_, h.pending.2⟩
  rcases h.pending.1 y hy with hrest | hblack | habove
  · rcases List.mem_cons.mp hrest with rfl | hrest
    · exact .inr (.inr rfl)
    · exact .inl hrest
  · exact .inr (.inl hblack)
  · exact nomatch habove

/-- A search that comes to its end leaves nothing in progress. -/
theorem visit_sound {s : State α} {color : α → Color} (h : Sound keys edges none s)
    (hvisit : visit keys edges s = .ok color) : Sound keys edges none ⟨color, []⟩ := by
  fun_induction visit keys edges s with
  | case1 color' =>
    rw [← Except.ok.inj hvisit]
    exact h
  | case2 color' x below ih => exact ih h.leave hvisit
  | case3 color' x next rest below hnext hwhite ih => exact ih (h.follow.enter hwhite) hvisit
  | case4 => exact nomatch hvisit
  | case5 color' x next rest below hnext hblack ih => exact ih (h.skip fun _ => hblack) hvisit
  | case6 color' x next rest below hnext ih =>
    exact ih (h.skip fun hmem => absurd hmem hnext) hvisit

theorem visit_keeps {s : State α} {color : α → Color} (h : Sound keys edges none s)
    (hvisit : visit keys edges s = .ok color) {x : α}
    (hx : s.color x = .black ∨ x ∈ s.stack.map Prod.fst) : color x = .black := by
  fun_induction visit keys edges s with
  | case1 color' =>
    rw [← Except.ok.inj hvisit]
    exact hx.resolve_right nofun
  | case2 color' y below ih =>
    refine ih h.leave hvisit ?_
    show Function.update color' y .black x = .black ∨ x ∈ below.map Prod.fst
    by_cases hxy : x = y
    · subst hxy
      exact .inl (Function.update_self ..)
    · rw [Function.update_of_ne hxy]
      rw [List.map_cons, List.mem_cons] at hx
      exact hx.imp_right fun hmem => hmem.resolve_left hxy
  | case3 color' y next rest below hnext hwhite ih =>
    refine ih (h.follow.enter hwhite) hvisit ?_
    rcases hx with hblack | hmem
    · have hne : x ≠ next := fun heq => nomatch (heq ▸ hblack).symm.trans hwhite
      exact .inl ((Function.update_of_ne hne _ _).trans hblack)
    · exact .inr (List.mem_cons_of_mem _ hmem)
  | case4 => exact nomatch hvisit
  | case5 color' y next rest below hnext hblack ih =>
    exact ih (h.skip fun _ => hblack) hvisit hx
  | case6 color' y next rest below hnext ih =>
    exact ih (h.skip fun hmem => absurd hmem hnext) hvisit hx

theorem sweep_sound {l : List α} {color color' : α → Color}
    (h : Sound keys edges none ⟨color, []⟩) (hsweep : sweep keys edges l color = .ok color') :
    Sound keys edges none ⟨color', []⟩ ∧ (∀ x, color x = .black → color' x = .black) ∧
      ∀ x ∈ l, color' x = .black := by
  induction l generalizing color with
  | nil =>
    obtain rfl : color = color' := Except.ok.inj hsweep
    exact ⟨h, fun _ hx => hx, nofun⟩
  | cons start l ih =>
    rw [sweep] at hsweep
    split_ifs at hsweep with hwhite
    · cases hvisit : visit keys edges (State.enter edges start ⟨color, []⟩) with
      | error names =>
        rw [hvisit] at hsweep
        exact nomatch hsweep
      | ok between =>
        rw [hvisit] at hsweep
        have hstart : Sound keys edges none (State.enter edges start ⟨color, []⟩) :=
          Sound.enter ⟨h.gray, h.nodup, h.closed, h.acyclic, trivial⟩ hwhite
        obtain ⟨hsound, hkept, hall⟩ := ih (visit_sound hstart hvisit) hsweep
        refine ⟨hsound, fun x hx => hkept x (visit_keeps hstart hvisit (.inl ?_)), ?_⟩
        · have hne : x ≠ start := fun heq => nomatch (heq ▸ hx).symm.trans hwhite
          exact (Function.update_of_ne hne _ _).trans hx
        · refine List.forall_mem_cons.mpr ⟨?_, hall⟩
          exact hkept start (visit_keeps hstart hvisit (.inr List.mem_cons_self))
    · obtain ⟨hsound, hkept, hall⟩ := ih h hsweep
      refine ⟨hsound, hkept, List.forall_mem_cons.mpr ⟨hkept start ?_, hall⟩⟩
      -- nothing is in progress between two searches
      cases hcolor : color start with
      | white => exact absurd hcolor hwhite
      | gray => exact nomatch (h.gray start).mp hcolor
      | black => rfl

theorem sweep_acyclic {color : α → Color}
    (h : sweep keys edges keys (fun _ => .white) = .ok color) (x : α) :
    ¬ TransGen (Edge keys edges) x x := by
  have hstart : Sound keys edges none ⟨fun _ => .white, []⟩ :=
    ⟨fun x => ⟨nofun, nofun⟩, List.nodup_nil, nofun, nofun, trivial⟩
  obtain ⟨hsound, -, hall⟩ := sweep_sound hstart h
  intro hcycle
  obtain ⟨y, -, hedge⟩ := TransGen.tail'_iff.mp hcycle
  exact hsound.acyclic x (hall x hedge.2) hcycle

end Sound

section Found

variable {keys edges}

structure IsLoop (R : α → α → Prop) (l : List α) : Prop where
  length : 2 ≤ l.length
  ends : l.head? = l.getLast?
  chain : l.IsChain R

theorem IsLoop.transGen {R : α → α → Prop} {l : List α} (h : IsLoop R l) :
    ∃ x, TransGen R x x := by
  obtain ⟨hlen, hends, hchain⟩ := h
  match l with
  | [] => exact absurd hlen (Nat.not_succ_le_zero 1)
  | [x] => exact absurd hlen (Nat.not_succ_le_self 1)
  | x :: y :: l =>
    obtain ⟨hedge, hrest⟩ := List.isChain_cons_cons.mp hchain
    have hlast : (y :: l).getLast (List.cons_ne_nil y l) = x := by
      rw [List.head?_cons, List.getLast?_cons_cons, List.getLast?_eq_getLast_of_ne_nil
        (List.cons_ne_nil y l)] at hends
      exact (Option.some.inj hends).symm
    exact ⟨x, .head' hedge (List.relationReflTransGen_of_exists_isChain_cons l hrest hlast)⟩

structure Trodden (keys : List α) (edges : α → List α) (s : State α) : Prop where
  chain : s.path.IsChain (Edge keys edges)
  todo : ∀ e ∈ s.stack, ∀ y ∈ e.2, y ∈ edges e.1

theorem path_cons (color : α → Color) (x : α) (rest : List α) (below : List (α × List α)) :
    State.path ⟨color, (x, rest) :: below⟩ = (below.map Prod.fst).reverse ++ [x] := by
  rw [State.path, List.map_cons, List.reverse_cons]

theorem Trodden.leave {color color' : α → Color} {x : α} {rest : List α}
    {below : List (α × List α)} (h : Trodden keys edges ⟨color, (x, rest) :: below⟩) :
    Trodden keys edges ⟨color', below⟩ := by
  have hchain := h.chain
  rw [path_cons] at hchain
  exact ⟨hchain.left_of_append, fun e he => h.todo e (List.mem_cons_of_mem _ he)⟩

theorem Trodden.skip {color : α → Color} {x next : α} {rest : List α} {below : List (α × List α)}
    (h : Trodden keys edges ⟨color, (x, next :: rest) :: below⟩) :
    Trodden keys edges ⟨color, (x, rest) :: below⟩ := by
  refine ⟨h.chain, fun e he y hy => ?_⟩
  rcases List.mem_cons.mp he with rfl | he
  · exact h.todo _ List.mem_cons_self y (List.mem_cons_of_mem _ hy)
  · exact h.todo e (List.mem_cons_of_mem _ he) y hy

variable [DecidableEq α]

theorem Trodden.enter {color : α → Color} {x next : α} {rest : List α}
    {below : List (α × List α)} (h : Trodden keys edges ⟨color, (x, rest) :: below⟩)
    (hedge : Edge keys edges x next) :
    Trodden keys edges (enter edges next ⟨color, (x, rest) :: below⟩) := by
  constructor
  · show ((next :: x :: below.map Prod.fst).reverse).IsChain _
    have hchain := h.chain
    rw [path_cons] at hchain
    rw [List.reverse_cons, List.reverse_cons]
    refine hchain.append (List.isChain_singleton next) fun y hy z hz => ?_
    rw [List.getLast?_concat] at hy
    rw [← Option.some.inj hy, ← Option.some.inj hz]
    exact hedge
  · intro e he y hy
    rcases List.mem_cons.mp he with rfl | he
    · exact hy
    · exact h.todo e he y hy

theorem loopAt_isLoop {path : List α} {x next : α} (hchain : path.IsChain (Edge keys edges))
    (hlast : path.getLast? = some x) (hmem : next ∈ path) (hedge : Edge keys edges x next) :
    IsLoop (Edge keys edges) (loopAt path next) := by
  obtain ⟨l, r, rfl, hfirst⟩ := List.eq_append_cons_of_mem hmem
  have hidx : (l ++ next :: r).findIdx? (· == next) = some l.length := by
    have hl : l.findIdx? (· == next) = none := by
      rw [List.findIdx?_eq_none_iff]
      intro y hy
      exact beq_false_of_ne fun heq => hfirst (heq ▸ hy)
    rw [List.findIdx?_append, hl, Option.none_or, List.findIdx?_cons, beq_self_eq_true,
      if_pos rfl, Option.map_some, Nat.zero_add]
  have hloop : loopAt (l ++ next :: r) next = next :: r ++ [next] := by
    rw [loopAt, hidx, Option.getD_some, List.drop_left]
  rw [List.getLast?_append_of_ne_nil _ (List.cons_ne_nil next r)] at hlast
  rw [hloop]
  refine ⟨?_, ?_, ?_⟩
  · rw [List.length_append, List.length_cons, List.length_singleton]
    exact Nat.succ_le_succ (Nat.succ_le_succ (Nat.zero_le _))
  · rw [List.getLast?_concat]
    rfl
  · refine hchain.right_of_append.append (List.isChain_singleton next) fun y hy z hz => ?_
    rw [hlast] at hy
    rw [← Option.some.inj hy, ← Option.some.inj hz]
    exact hedge

/-- The search only gives up on a loop, and reports it. -/
theorem visit_found {s : State α} {loop : List α} (h : Sound keys edges none s)
    (ht : Trodden keys edges s) (hvisit : visit keys edges s = .error loop) :
    IsLoop (Edge keys edges) loop := by
  fun_induction visit keys edges s with
  | case1 color => exact nomatch hvisit
  | case2 color x below ih => exact ih h.leave ht.leave hvisit
  | case3 color x next rest below hnext hwhite ih =>
    have hedge : Edge keys edges x next :=
      ⟨ht.todo _ List.mem_cons_self next List.mem_cons_self, hnext⟩
    exact ih (h.follow.enter hwhite) (ht.skip.enter hedge) hvisit
  | case4 color x next rest below hnext hgray =>
    have hedge : Edge keys edges x next :=
      ⟨ht.todo _ List.mem_cons_self next List.mem_cons_self, hnext⟩
    have hmem : next ∈ State.path ⟨color, (x, rest) :: below⟩ :=
      List.mem_reverse.mpr ((h.gray next).mp hgray)
    rw [← Except.error.inj hvisit]
    refine loopAt_isLoop ht.skip.chain ?_ hmem hedge
    rw [path_cons, List.getLast?_concat]
  | case5 color x next rest below hnext hblack ih =>
    exact ih (h.skip fun _ => hblack) ht.skip hvisit
  | case6 color x next rest below hnext ih =>
    exact ih (h.skip fun hmem => absurd hmem hnext) ht.skip hvisit

theorem sweep_found {l : List α} {color : α → Color} {loop : List α}
    (h : Sound keys edges none ⟨color, []⟩) (hsweep : sweep keys edges l color = .error loop) :
    IsLoop (Edge keys edges) loop := by
  induction l generalizing color with
  | nil => exact nomatch hsweep
  | cons start l ih =>
    rw [sweep] at hsweep
    split_ifs at hsweep with hwhite
    · have hstart : Sound keys edges none (State.enter edges start ⟨color, []⟩) :=
        Sound.enter ⟨h.gray, h.nodup, h.closed, h.acyclic, trivial⟩ hwhite
      cases hvisit : visit keys edges (State.enter edges start ⟨color, []⟩) with
      | error names =>
        rw [hvisit] at hsweep
        rw [← Except.error.inj hsweep]
        refine visit_found hstart ⟨List.isChain_singleton start, fun e he y hy => ?_⟩ hvisit
        rw [List.mem_singleton.mp he] at hy ⊢
        exact hy
      | ok between =>
        rw [hvisit] at hsweep
        exact ih (visit_sound hstart hvisit) hsweep
    · exact ih h hsweep

omit [DecidableEq α] in
theorem sound_start : Sound keys edges none ⟨fun _ => .white, []⟩ :=
  ⟨fun _ => ⟨nofun, nofun⟩, List.nodup_nil, nofun, nofun, trivial⟩

/-- A sweep comes to its end exactly when no node leads to itself. -/
theorem sweep_ok_iff : (∃ color, sweep keys edges keys (fun _ => .white) = .ok color) ↔
    ∀ x, ¬ TransGen (Edge keys edges) x x := by
  constructor
  · rintro ⟨color, h⟩
    exact sweep_acyclic h
  · intro hacyclic
    cases hsweep : sweep keys edges keys (fun _ => .white) with
    | ok color => exact ⟨color, rfl⟩
    | error loop =>
      obtain ⟨x, hx⟩ := (sweep_found sound_start hsweep).transGen
      exact absurd hx (hacyclic x)

end Found

section Beside

variable [DecidableEq α]

def visitBeside (color : α → Color) (path : List α) (stack : List (α × List α)) :
    Except (List α) (α → Color) :=
  match stack with
  | [] => .ok color
  | (x, []) :: below => visitBeside (Function.update color x .black) path.dropLast below
  | (x, next :: rest) :: below =>
    if _hnext : next ∈ keys then
      match _hcolor : color next with
      | .white => visitBeside (Function.update color next .gray) (path ++ [next])
          ((next, edges next) :: (x, rest) :: below)
      | .gray => .error (loopAt path next)
      | .black => visitBeside color path ((x, rest) :: below)
    else visitBeside color path ((x, rest) :: below)
termination_by (State.mk color stack).weight keys edges
decreasing_by
  · have hless := weight_black keys edges x color below
    simp only [weight, List.map_cons, List.sum_cons] at hless ⊢
    omega
  · have hless := weight_enter edges ((x, rest) :: below) _hnext _hcolor
    simp only [enter, weight, List.map_cons, List.sum_cons, List.length_cons] at hless ⊢
    omega
  · simp only [weight, List.map_cons, List.sum_cons, List.length_cons]
    omega
  · simp only [weight, List.map_cons, List.sum_cons, List.length_cons]
    omega

theorem visitBeside_eq (s : State α) :
    visitBeside keys edges s.color s.path s.stack = visit keys edges s := by
  fun_induction visit keys edges s with
  | case1 color => rw [visitBeside]
  | case2 color x below ih =>
    rw [visitBeside, ← ih, path_cons, List.dropLast_concat]
    rfl
  | case3 color x next rest below hnext hwhite ih =>
    have hpath : (enter edges next ⟨color, (x, rest) :: below⟩).path =
        State.path ⟨color, (x, next :: rest) :: below⟩ ++ [next] := List.reverse_cons
    rw [visitBeside, dif_pos hnext, ← ih, hpath]
    split
    · rfl
    · rename_i hgray
      exact nomatch hwhite.symm.trans hgray
    · rename_i hblack
      exact nomatch hwhite.symm.trans hblack
  | case4 color x next rest below hnext hgray =>
    rw [visitBeside, dif_pos hnext]
    split
    · rename_i hwhite
      exact nomatch hgray.symm.trans hwhite
    · rfl
    · rename_i hblack
      exact nomatch hgray.symm.trans hblack
  | case5 color x next rest below hnext hblack ih =>
    rw [visitBeside, dif_pos hnext, ← ih]
    split
    · rename_i hwhite
      exact nomatch hblack.symm.trans hwhite
    · rename_i hgray
      exact nomatch hblack.symm.trans hgray
    · rfl
  | case6 color x next rest below hnext ih =>
    rw [visitBeside, dif_neg hnext, ← ih]
    rfl

def sweepBeside : List α → (α → Color) → Except (List α) (α → Color)
  | [], color => .ok color
  | start :: rest, color =>
    if color start = .white then do
      let color ← visitBeside keys edges (Function.update color start .gray) [start]
        [(start, edges start)]
      sweepBeside rest color
    else sweepBeside rest color

theorem sweepBeside_eq (l : List α) (color : α → Color) :
    sweepBeside keys edges l color = sweep keys edges l color := by
  induction l generalizing color with
  | nil => rfl
  | cons start l ih =>
    have hvisit := visitBeside_eq keys edges (enter edges start ⟨color, []⟩)
    have hstart : visitBeside keys edges (Function.update color start .gray) [start]
        [(start, edges start)] = visit keys edges (enter edges start ⟨color, []⟩) := hvisit
    rw [sweepBeside, sweep, hstart, ih, funext ih]

end Beside

end Search

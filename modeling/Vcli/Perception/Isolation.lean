import Mathlib.Logic.Relation
import Vcli.Lib.Selection
import Vcli.Perception.Noninterference

/-! Runs of many programs over one memory, as one of the programs sees them. -/

namespace Vcli

open Fallible Selection

namespace Perception

/-- The evaluation of `n` may come to `k`. -/
def Reaches (predicates : Predicates) : String → String → Prop :=
  Relation.ReflTransGen fun n k => ∃ p, predicates[n]? = some p ∧ k ∈ p.children

def Needed (predicates : Predicates) (names : List String) (k : String) : Prop :=
  ∃ n ∈ names, Reaches predicates n k

theorem needed_closed (predicates : Predicates) (names : List String) :
    Closed predicates (Needed predicates names) := by
  rintro p ⟨k, ⟨n, hn, hreach⟩, hp⟩ k' hk'
  exact ⟨n, hn, hreach.tail ⟨p, hp, hk'⟩⟩

theorem needed_self {predicates : Predicates} {names : List String} {n : String} (h : n ∈ names) :
    Needed predicates names n := ⟨n, h, .refl⟩

theorem Needed.mono {predicates : Predicates} {names names' : List String} {k : String}
    (h : Needed predicates names k) (hsub : names ⊆ names') : Needed predicates names' k := by
  obtain ⟨n, hn, hreach⟩ := h
  exact ⟨n, hsub hn, hreach⟩

theorem Needed.tail {predicates : Predicates} {names : List String} {n k : String}
    (h : Needed predicates names k) : Needed predicates (n :: names) k :=
  h.mono fun _ hn => List.mem_cons_of_mem n hn

/-- A node that says the same to `P` and to `Q`, when `P` needs the names `T`. -/
structure Shareable (P Q : Profile) (T : String → Prop) (p : PredicateKind) : Prop where
  timeless : p.isTimeless = true
  image : ∀ image confidence region throttleMs, p = .template image confidence region throttleMs →
    P.assets[assetKey image]? = Q.assets[assetKey image]?
  children : p.isLogical = true → ∀ n ∈ p.children, P.predicates[n]? = Q.predicates[n]?
  shallow : p.isLogical = true → Shallow P.predicates T

namespace Round

def needs (t : Round) (w : ProgramId → Profile) (id : ProgramId) : String → Prop :=
  Needed (w id).predicates (under id t.calls)

/-- `call` is made for another program before `id` calls on `name`, and the two calls need nodes
`q` and `p` with the same key. -/
structure Meets (L : Libs) (w : ProgramId → Profile) (id : ProgramId) (t : Round)
    (call : ProgramId × String) (name : String) (p q : PredicateKind) : Prop where
  other : call.1 ≠ id
  before : [call, (id, name)].Sublist t.calls
  own : Held (w id).predicates (Needed (w id).predicates [name]) p
  foreign : Held (w call.1).predicates (Needed (w call.1).predicates [call.2]) q
  key : hashPredicate L p = hashPredicate L q

/-- Whatever `id` can find in the cache of the tick from another program is its own node, the
only one with this key, and says the same to both. -/
def Isolates (L : Libs) (w : ProgramId → Profile) (id : ProgramId) (t : Round) : Prop :=
  ∀ call name p q, t.Meets L w id call name p q →
    (∀ p', Held (w id).predicates (t.needs w id) p' → hashPredicate L p' = hashPredicate L q →
      p' = q) ∧ Shareable (w id) (w call.1) (t.needs w id) q

structure SameFor (id : ProgramId) (t t' : Round) : Prop where
  frame : t.frame = t'.frame
  nowMs : t.nowMs = t'.nowMs
  calls : under id t.calls = under id t'.calls

def Shared (L : Libs) (w : ProgramId → Profile) (id : ProgramId) (t : Round) (p : PredicateKind) :
    Prop :=
  ∃ call name, t.Meets L w id call name p p

section Isolated
variable {L : Libs} {w : ProgramId → Profile} {id : ProgramId} {t : Round}
  {call : ProgramId × String} {name : String} {p q : PredicateKind}

theorem Meets.needed (h : t.Meets L w id call name p q) :
    Held (w id).predicates (t.needs w id) p := by
  have hname : (id, name) ∈ t.calls := h.before.subset (by simp)
  refine h.own.mono fun k hk => hk.mono fun n hn => ?_
  rw [List.mem_singleton.mp hn]
  exact mem_under.mpr hname

theorem Isolates.eq (h : t.Isolates L w id) (hmeets : t.Meets L w id call name p q) : p = q :=
  (h call name p q hmeets).1 p hmeets.needed hmeets.key

theorem Isolates.decided (h : t.Isolates L w id) :
    Decided L (w id).predicates (t.needs w id) (t.Shared L w id) where
  names := needed_closed _ _
  timeless := by
    rintro p ⟨call, name, hmeets⟩
    exact (h call name p p hmeets).2.timeless
  shallow := by
    rintro p ⟨call, name, hmeets⟩
    exact (h call name p p hmeets).2.shallow
  closed := by
    rintro p ⟨call, name, hmeets⟩ hl n hn q hq
    have hq' := (h call name p p hmeets).2.children hl n hn
    rw [hq] at hq'
    refine ⟨call, name, hmeets.other, hmeets.before, ?_, ?_, rfl⟩
    · exact ⟨n, needed_closed _ _ p hmeets.own n hn, hq⟩
    · exact ⟨n, needed_closed _ _ p hmeets.foreign n hn, hq'.symm⟩
  sole := by
    rintro p q _ hq ⟨call, name, hmeets⟩ hkey
    exact ((h call name p p hmeets).1 q hq hkey.symm).symm

theorem meets_of_suffix {rest : List (ProgramId × String)} (hsuf : call :: rest <:+ t.calls)
    (hne : call.1 ≠ id)
    (hp : Held (w id).predicates (Needed (w id).predicates (under id rest)) p)
    (hq : Held (w call.1).predicates (Needed (w call.1).predicates [call.2]) q)
    (hkey : hashPredicate L p = hashPredicate L q) : ∃ name, t.Meets L w id call name p q := by
  obtain ⟨k, ⟨name, hname, hreach⟩, hk⟩ := hp
  have hrest : [(id, name)].Sublist rest := List.singleton_sublist.mpr (mem_under.mp hname)
  refine ⟨name, hne, (hrest.cons_cons call).trans hsuf.sublist, ?_, hq, hkey⟩
  exact ⟨k, ⟨name, List.mem_cons_self, hreach⟩, hk⟩

theorem Isolates.apart (h : t.Isolates L w id) {rest : List (ProgramId × String)}
    (hsuf : call :: rest <:+ t.calls) (hne : call.1 ≠ id) :
    Apart L (t.ctx w id) (t.ctx w call.1) (Needed (w id).predicates (under id rest))
      (Needed (w call.1).predicates [call.2]) (t.Shared L w id) where
  frame := rfl
  nowMs := rfl
  names := needed_closed _ _
  nodes := by
    intro p q hp hq hkey
    obtain ⟨name, hmeets⟩ := meets_of_suffix hsuf hne hp hq hkey
    obtain rfl := h.eq hmeets
    exact ⟨rfl, call, name, hmeets⟩
  images := by
    intro image confidence region throttleMs hp hq
    obtain ⟨name, hmeets⟩ := meets_of_suffix (L := L) hsuf hne hp hq rfl
    exact (h call name _ _ hmeets).2.image image confidence region throttleMs rfl
  children := by
    intro p hp hq
    obtain ⟨name, hmeets⟩ := meets_of_suffix (L := L) hsuf hne hp hq rfl
    exact (h call name p p hmeets).2.children

end Isolated

end Round

section Combine
variable {L : Libs} {predicates : Predicates} {S T : String → Prop} {C D : PredicateKind → Prop}

theorem Decided.fewer (h : Decided L predicates S C) (hT : Closed predicates T)
    (hsub : ∀ k, T k → S k) : Decided L predicates T C where
  names := hT
  timeless := h.timeless
  shallow := fun p hC hl q hq => h.shallow p hC hl q (hq.mono hsub)
  closed := h.closed
  sole := fun p q hp hq => h.sole p q (hp.mono hsub) (hq.mono hsub)

theorem Decided.or (h : Decided L predicates S C) (h' : Decided L predicates S D) :
    Decided L predicates S fun p => C p ∨ D p where
  names := h.names
  timeless := fun p hp => hp.elim (h.timeless p) (h'.timeless p)
  shallow := fun p hp => hp.elim (h.shallow p) (h'.shallow p)
  closed := by
    intro p hp hl n hn q hq
    rcases hp with hC | hD
    · exact .inl (h.closed p hC hl n hn q hq)
    · exact .inr (h'.closed p hD hl n hn q hq)
  sole := fun p q hp hq hor => hor.elim (h.sole p q hp hq) (h'.sole p q hp hq)

theorem Apart.mono {c c' : EvalCtx} (h : Apart L c c' S T C) (hsub : ∀ p, C p → D p) :
    Apart L c c' S T D where
  frame := h.frame
  nowMs := h.nowMs
  names := h.names
  nodes := by
    intro p q hp hq hkey
    obtain ⟨heq, hC⟩ := h.nodes p q hp hq hkey
    exact ⟨heq, hsub p hC⟩
  images := h.images
  children := h.children

end Combine

structure Beside (L : Libs) (c : EvalCtx) (id : ProgramId) (C : PredicateKind → Prop)
    (w : ProgramId → Profile) (t : Round) (l : List (ProgramId × String)) : Prop where
  ctx : t.ctx w id = c
  apart : ∀ call rest, call :: rest <:+ l → call.1 ≠ id →
    Apart L c (t.ctx w call.1) (Needed c.predicates (under id rest))
      (Needed (w call.1).predicates [call.2]) C

theorem Beside.tail {L : Libs} {c : EvalCtx} {id : ProgramId} {C : PredicateKind → Prop}
    {w : ProgramId → Profile} {t : Round} {x : ProgramId × String} {l : List (ProgramId × String)}
    (h : Beside L c id C w t (x :: l)) : Beside L c id C w t l :=
  ⟨h.ctx, fun call rest hsuf => h.apart call rest (hsuf.trans (List.suffix_cons x l))⟩

section Calls
variable {L : Libs} {c : EvalCtx} {id : ProgramId} {C : PredicateKind → Prop} {fuel fuel' : Nat}
  {w w' : ProgramId → Profile} {t t' : Round} {l l' : List (ProgramId × String)} {m m' : Memory}
  {out out' : List Answer × Memory}

theorem runCalls_cons {call : ProgramId × String}
    (h : runCalls L fuel w t (call :: l) m = .ok out) :
    ∃ r m₁ out₁, (evaluateNamed L fuel (t.ctx w call.1) call.2).Returns m r m₁ ∧
      runCalls L fuel w t l m₁ = .ok out₁ ∧ out = ((call.1, r) :: out₁.1, out₁.2) := by
  obtain ⟨r, hcall, hrest⟩ := bind_eq_ok.mp h
  obtain ⟨out₁, hout₁, hout⟩ := bind_eq_ok.mp hrest
  exact ⟨r.1, r.2, out₁, hcall, hout₁, (Except.ok.inj hout).symm⟩

theorem runRounds_cons {ts : List Round} (h : runRounds L fuel w (t :: ts) m = .ok out) :
    ∃ out₁ out₂, runCalls L fuel w t t.calls m.clear = .ok out₁ ∧
      runRounds L fuel w ts out₁.2 = .ok out₂ ∧ out = (out₁.1 ++ out₂.1, out₂.2) := by
  obtain ⟨out₁, hout₁, hrest⟩ := bind_eq_ok.mp h
  obtain ⟨out₂, hout₂, hout⟩ := bind_eq_ok.mp hrest
  exact ⟨out₁, out₂, hout₁, hout₂, (Except.ok.inj hout).symm⟩

theorem Beside.intact {S : String → Prop} {call : ProgramId × String}
    (h : Beside L c id C w t (call :: l)) (hne : call.1 ≠ id)
    (hS : S = Needed c.predicates (under id l)) (hD : Decided L c.predicates S C)
    (hm : Intact L c id S C m m) {r : Except PerceptionError PredicateResult}
    (hret : (evaluateNamed L fuel (t.ctx w call.1) call.2).Returns m r m') :
    Intact L c id S C m m' := by
  subst hS
  have hA := h.apart call l List.suffix_rfl hne
  exact (evaluateNamed_intact hD hA rfl hne m fuel (needed_self List.mem_cons_self) hm hret).1

def Agree (id : ProgramId) (out out' : List Answer × Memory) : Prop :=
  under id out.1 = under id out'.1 ∧
    ∀ n, out'.2.firstTrueAt.lookup ⟨id, n⟩ = out.2.firstTrueAt.lookup ⟨id, n⟩

theorem runCalls_agree (hal : Aligned id l l')
    (hkinds : ∀ (k : String) region baseline threshold,
      c.predicates[k]? ≠ some (.pixelDiff region baseline threshold))
    (hD : Decided L c.predicates (Needed c.predicates (under id l)) C)
    (hl : Beside L c id C w t l) (hl' : Beside L c id C w' t' l')
    (hT : Twin L c id (Needed c.predicates (under id l)) C m m')
    (hrun : runCalls L fuel w t l m = .ok out)
    (hrun' : runCalls L fuel' w' t' l' m' = .ok out') : Agree id out out' := by
  induction hal generalizing m m' out out' with
  | nil =>
    obtain rfl := Except.ok.inj hrun
    obtain rfl := Except.ok.inj hrun'
    exact ⟨rfl, hT.intact.timers⟩
  | left hne hal ih =>
    rw [under_cons_ne hne] at hD hT
    obtain ⟨r, m₁, out₁, hret, hrest, rfl⟩ := runCalls_cons hrun
    have hm := hl.intact hne rfl hD hT.left hret
    obtain ⟨hanswers, htimers⟩ := ih hD hl.tail hl' (hT.after hm hT.right) hrest hrun'
    exact ⟨(under_cons_ne (a := r) hne).trans hanswers, htimers⟩
  | right hne hal ih =>
    obtain ⟨r, m₁, out₁, hret, hrest, rfl⟩ := runCalls_cons hrun'
    have hS := congrArg (Needed c.predicates) (aligned_iff.mp hal)
    have hm := hl'.intact hne hS hD hT.right hret
    obtain ⟨hanswers, htimers⟩ := ih hD hl hl'.tail (hT.after hT.left hm) hrun hrest
    exact ⟨hanswers.trans (under_cons_ne (a := r) hne).symm, htimers⟩
  | both name hal ih =>
    obtain ⟨r, m₁, out₁, hret, hrest, rfl⟩ := runCalls_cons hrun
    obtain ⟨r', m₁', out₁', hret', hrest', rfl⟩ := runCalls_cons hrun'
    rw [under_cons_self] at hD hT
    have hc : c.program = some id := by
      rw [← hl.ctx]
      rfl
    have hstep := evaluateNamed_lockstep hD hc hkinds fuel fuel'
      (needed_self (List.mem_cons_self (a := name)))
    have hret₀ : (evaluateNamed L fuel c name).Returns m r m₁ := by
      rw [← hl.ctx]
      exact hret
    have hret₀' : (evaluateNamed L fuel' c name).Returns m' r' m₁' := by
      rw [← hl'.ctx]
      exact hret'
    obtain ⟨rfl, hT₁⟩ := hstep hT hret₀ hret₀'
    -- from here on the name counts only if it is called again
    obtain ⟨hanswers, htimers⟩ := ih (hD.fewer (needed_closed _ _) fun _ => .tail) hl.tail
      hl'.tail (hT₁.fewer fun _ => .tail) hrest hrest'
    refine ⟨?_, htimers⟩
    rw [under_cons_self, under_cons_self, hanswers]

end Calls

section Rounds
variable {L : Libs} {id : ProgramId} {fuel fuel' : Nat} {w w' : ProgramId → Profile}
  {t t' : Round} {m m' : Memory} {out out' : List Answer × Memory}

theorem Round.SameFor.ctx (h : t.SameFor id t') (hown : w id = w' id) :
    t'.ctx w' id = t.ctx w id := by
  rw [Round.ctx, Round.ctx, h.frame, h.nowMs, hown]

theorem Round.SameFor.needs (h : t.SameFor id t') (hown : w id = w' id) :
    t'.needs w' id = t.needs w id := by
  rw [Round.needs, Round.needs, h.calls, hown]

theorem twin_clear (htimers : ∀ n, m'.firstTrueAt.lookup ⟨id, n⟩ = m.firstTrueAt.lookup ⟨id, n⟩)
    {c : EvalCtx} {S : String → Prop} {C : PredicateKind → Prop} :
    Twin L c id S C m.clear m'.clear :=
  ⟨fun _ _ _ _ hv => (nomatch hv), fun _ _ _ _ hv => (nomatch hv), htimers, fun _ _ _ => rfl⟩

theorem round_agree (hown : w id = w' id) (hsame : t.SameFor id t')
    (hkinds : ∀ (k : String) region baseline threshold,
      (w id).predicates[k]? ≠ some (.pixelDiff region baseline threshold))
    (hsep : t.Isolates L w id) (hsep' : t'.Isolates L w' id)
    (htimers : ∀ n, m'.firstTrueAt.lookup ⟨id, n⟩ = m.firstTrueAt.lookup ⟨id, n⟩)
    (hrun : runCalls L fuel w t t.calls m.clear = .ok out)
    (hrun' : runCalls L fuel' w' t' t'.calls m'.clear = .ok out') : Agree id out out' := by
  have hD' := hsep'.decided
  rw [← hown, hsame.needs hown] at hD'
  have hctx := hsame.ctx hown
  refine runCalls_agree (c := t.ctx w id) (aligned_iff.mpr hsame.calls) hkinds
    (hsep.decided.or hD') ⟨rfl, ?_⟩ ⟨hctx, ?_⟩ (twin_clear htimers) hrun hrun'
  · intro call rest hsuf hne
    exact (hsep.apart hsuf hne).mono fun _ => .inl
  · intro call rest hsuf hne
    have hA := hsep'.apart hsuf hne
    rw [hctx, ← hown] at hA
    exact hA.mono fun _ => .inr

/-- Tick after tick, only the timers of `id` are carried on. -/
theorem runRounds_agree (hown : w id = w' id) {ts ts' : List Round}
    (hsame : List.Forall₂ (Round.SameFor id) ts ts')
    (hkinds : ∀ (k : String) region baseline threshold,
      (w id).predicates[k]? ≠ some (.pixelDiff region baseline threshold))
    (hsep : ∀ t ∈ ts, t.Isolates L w id) (hsep' : ∀ t ∈ ts', t.Isolates L w' id)
    (htimers : ∀ n, m'.firstTrueAt.lookup ⟨id, n⟩ = m.firstTrueAt.lookup ⟨id, n⟩)
    (hrun : runRounds L fuel w ts m = .ok out)
    (hrun' : runRounds L fuel' w' ts' m' = .ok out') : Agree id out out' := by
  induction hsame generalizing m m' out out' with
  | nil =>
    obtain rfl := Except.ok.inj hrun
    obtain rfl := Except.ok.inj hrun'
    exact ⟨rfl, htimers⟩
  | cons hhead htail ih =>
    obtain ⟨out₁, out₂, hcalls, hrest, rfl⟩ := runRounds_cons hrun
    obtain ⟨out₁', out₂', hcalls', hrest', rfl⟩ := runRounds_cons hrun'
    obtain ⟨hanswers₁, htimers₁⟩ := round_agree hown hhead hkinds
      (hsep _ List.mem_cons_self) (hsep' _ List.mem_cons_self) htimers hcalls hcalls'
    obtain ⟨hanswers₂, htimers₂⟩ := ih (fun t ht => hsep t (List.mem_cons_of_mem _ ht))
      (fun t ht => hsep' t (List.mem_cons_of_mem _ ht)) htimers₁ hrest hrest'
    refine ⟨?_, htimers₂⟩
    rw [under_append, under_append, hanswers₁, hanswers₂]

/-- What `id` is told depends on its own profile, frames, times and calls. -/
theorem evaluation_noninterference (hown : w id = w' id) {ts ts' : List Round}
    (hsame : List.Forall₂ (Round.SameFor id) ts ts')
    (hkinds : ∀ (k : String) region baseline threshold,
      (w id).predicates[k]? ≠ some (.pixelDiff region baseline threshold))
    (hsep : ∀ t ∈ ts, t.Isolates L w id) (hsep' : ∀ t ∈ ts', t.Isolates L w' id)
    (hrun : runRounds L fuel w ts .new = .ok out)
    (hrun' : runRounds L fuel' w' ts' .new = .ok out') : under id out.1 = under id out'.1 :=
  (runRounds_agree hown hsame hkinds hsep hsep' (fun _ => rfl) hrun hrun').1

end Rounds

section Looking

def looking (rgb : Rgb) : Profile :=
  ⟨((∅ : Predicates).insert "x" (.colorAt ⟨0, 0⟩ rgb 0)).insert "y" (.allOf ["x"]), ∅⟩

def oddOneOut (id : ProgramId) : Profile :=
  looking (if id = ⟨1⟩ then ⟨0, 0, 0⟩ else ⟨255, 255, 255⟩)

theorem looking_getElem? {rgb : Rgb} {n : String} {p : PredicateKind}
    (h : (looking rgb).predicates[n]? = some p) :
    n = "x" ∧ p = .colorAt ⟨0, 0⟩ rgb 0 ∨ n = "y" ∧ p = .allOf ["x"] := by
  simp only [looking, Std.ExtTreeMap.getElem?_insert] at h
  split_ifs at h with hy hx
  · exact .inr ⟨(Std.compare_eq_iff_eq.mp hy).symm, (Option.some.inj h).symm⟩
  · exact .inl ⟨(Std.compare_eq_iff_eq.mp hx).symm, (Option.some.inj h).symm⟩
  · exact nomatch h

theorem held_looking {rgb : Rgb} {S : String → Prop} {p : PredicateKind}
    (h : Held (looking rgb).predicates S p) : p = .colorAt ⟨0, 0⟩ rgb 0 ∨ p = .allOf ["x"] := by
  obtain ⟨n, _, hn⟩ := h
  exact (looking_getElem? hn).imp And.right And.right

theorem looking_shallow (rgb : Rgb) (S : String → Prop) :
    Shallow (looking rgb).predicates S := by
  intro p hp n hn q hq hl
  rcases held_looking hp with rfl | rfl
  · exact nomatch hn
  · rcases looking_getElem? hq with ⟨_, rfl⟩ | ⟨rfl, _⟩
    · exact nomatch hl
    · exact absurd (List.mem_singleton.mp hn) (by decide)

theorem looking_kinds (rgb : Rgb) (k : String) (region : Region) (baseline : String)
    (threshold : F64) :
    (looking rgb).predicates[k]? ≠ some (.pixelDiff region baseline threshold) := by
  intro h
  rcases looking_getElem? h with ⟨_, h⟩ | ⟨_, h⟩ <;> exact nomatch h

theorem looking_isolates (rgb : Rgb) (t : Round) (id : ProgramId) :
    t.Isolates plainLibs (fun _ => looking rgb) id := by
  intro call name p q hmeets
  refine ⟨?_, ?_, ?_, fun _ _ _ => rfl, fun _ => looking_shallow rgb _⟩
  · intro p' hp' hkey
    rcases held_looking hp' with rfl | rfl <;> rcases held_looking hmeets.foreign with rfl | rfl
    · rfl
    · exact nomatch congrArg PredicateHash.digested hkey
    · exact nomatch congrArg PredicateHash.digested hkey
    · rfl
  · rcases held_looking hmeets.foreign with rfl | rfl <;> rfl
  · rintro image confidence region throttleMs rfl
    rfl

def ownFirst : Round := ⟨.dot, 10, [(⟨1⟩, "y"), (⟨2⟩, "y")]⟩

def ownLast : Round := ⟨.dot, 10, [(⟨2⟩, "y"), (⟨1⟩, "y")]⟩

theorem ownFirst_isolates (L : Libs) (w : ProgramId → Profile) : ownFirst.Isolates L w ⟨1⟩ := by
  intro call name p q hmeets
  have hcalls := hmeets.before.eq_of_length rfl
  exact absurd (congrArg Prod.fst (List.cons.inj hcalls).1) hmeets.other

theorem evaluation_noninterference_looking :
    ∃ out out', runRounds plainLibs 5 (fun _ => looking ⟨0, 0, 0⟩) [ownLast] .new = .ok out ∧
      runRounds plainLibs 5 oddOneOut [ownFirst] .new = .ok out' ∧
      under ⟨1⟩ out.1 = under ⟨1⟩ out'.1 := by
  have hrun : ∃ out, runRounds plainLibs 5 (fun _ => looking ⟨0, 0, 0⟩) [ownLast] .new = .ok out :=
    ⟨_, rfl⟩
  have hrun' : ∃ out, runRounds plainLibs 5 oddOneOut [ownFirst] .new = .ok out := ⟨_, rfl⟩
  obtain ⟨out, hout⟩ := hrun
  obtain ⟨out', hout'⟩ := hrun'
  have hsame : List.Forall₂ (Round.SameFor ⟨1⟩) [ownLast] [ownFirst] := .cons ⟨rfl, rfl, rfl⟩ .nil
  refine ⟨out, out', hout, hout', ?_⟩
  refine evaluation_noninterference ?_ hsame (looking_kinds ⟨0, 0, 0⟩) ?_ ?_ hout hout'
  · rfl
  · exact fun t _ => looking_isolates ⟨0, 0, 0⟩ t ⟨1⟩
  · intro t ht
    rw [List.mem_singleton.mp ht]
    exact ownFirst_isolates plainLibs oddOneOut

/-- Program 2 leaves its result for `all_of ["x"]` to program 1, which has another `x`. -/
theorem another_result_under_the_same_key :
    ¬ ∀ (w w' : ProgramId → Profile) (ts ts' : List Round) (out out' : List Answer × Memory),
      w ⟨1⟩ = w' ⟨1⟩ → List.Forall₂ (Round.SameFor ⟨1⟩) ts ts' →
      (∀ id (k : String) region baseline threshold,
        (w id).predicates[k]? ≠ some (.pixelDiff region baseline threshold) ∧
        (w' id).predicates[k]? ≠ some (.pixelDiff region baseline threshold)) →
      runRounds plainLibs 5 w ts .new = .ok out → runRounds plainLibs 5 w' ts' .new = .ok out' →
      under ⟨1⟩ out.1 = under ⟨1⟩ out'.1 := by
  intro h
  have hsame := h oddOneOut oddOneOut [ownLast] [ownFirst] _ _ rfl (.cons ⟨rfl, rfl, rfl⟩ .nil)
    (fun id k region baseline threshold =>
      ⟨looking_kinds _ k region baseline threshold, looking_kinds _ k region baseline threshold⟩)
    rfl rfl
  exact nomatch hsame

end Looking

end Perception

end Vcli

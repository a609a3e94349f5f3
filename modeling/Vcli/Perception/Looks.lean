import Vcli.Perception.Motion

/-! The looks that the calls of programs take. Whatever is evaluated in a tick, the snapshots and
the cached results of pixel differences are those of some looks, taken one after the other; and a
region that meets its frame shows something. -/

namespace Vcli

open Fallible Perception

section Alike
variable {L : Libs} {frame : Frame} {nowMs : UnixMs} {m m' n : Memory} {w : Look}

/-- Two memories that no look tells apart. -/
structure Alike (L : Libs) (m n : Memory) : Prop where
  cache : ∀ w : Look,
    m.cache.lookup (hashPredicate L w.kind) = n.cache.lookup (hashPredicate L w.kind)
  snapshots : ∀ key, m.priorSnapshots.lookup key = n.priorSnapshots.lookup key

theorem Alike.refl (m : Memory) : Alike L m m := ⟨fun _ => rfl, fun _ => rfl⟩

theorem Alike.symm (h : Alike L m n) : Alike L n m :=
  ⟨fun w => (h.cache w).symm, fun key => (h.snapshots key).symm⟩

theorem Alike.trans (h : Alike L m n) (h' : Alike L n m') : Alike L m m' :=
  ⟨fun w => (h.cache w).trans (h'.cache w), fun key => (h.snapshots key).trans (h'.snapshots key)⟩

theorem Alike.clear (h : Alike L m n) : Alike L m.clear n.clear := ⟨fun _ => rfl, h.snapshots⟩

theorem Alike.remember (h : Alike L m n) (hash : PredicateHash) (r : PredicateResult) :
    Alike L (m.remember hash r) (n.remember hash r) where
  cache := by
    intro w
    by_cases heq : hashPredicate L w.kind = hash
    · rw [heq, lookup_remember_self, lookup_remember_self]
    · rw [lookup_remember_ne heq, lookup_remember_ne heq]
      exact h.cache w
  snapshots := h.snapshots

theorem lookup_record_self {key : SnapshotKey} {snapshot : PriorSnapshot} :
    (m.recordSnapshot key snapshot).priorSnapshots.lookup key = some snapshot :=
  AList.lookup_insert _

theorem lookup_record_ne {key key' : SnapshotKey} {snapshot : PriorSnapshot} (h : key' ≠ key) :
    (m.recordSnapshot key snapshot).priorSnapshots.lookup key' = m.priorSnapshots.lookup key' :=
  AList.lookup_insert_ne h

theorem Alike.record (h : Alike L m n) (key : SnapshotKey) (snapshot : PriorSnapshot) :
    Alike L (m.recordSnapshot key snapshot) (n.recordSnapshot key snapshot) where
  cache := h.cache
  snapshots := by
    intro key'
    by_cases heq : key' = key
    · rw [heq, lookup_record_self, lookup_record_self]
    · rw [lookup_record_ne heq, lookup_record_ne heq]
      exact h.snapshots key'

theorem evalPixelDiff_alike {r : Except PerceptionError PredicateResult} (hmn : Alike L m n)
    (h : (evalPixelDiff L ⟨frame, nowMs, ∅, ∅, none⟩ (.absolute w.rect) w.baseline
      w.threshold).Returns m r m') :
    ∃ n', (evalPixelDiff L ⟨frame, nowMs, ∅, ∅, none⟩ (.absolute w.rect) w.baseline
      w.threshold).Returns n r n' ∧ Alike L m' n' := by
  unfold evalPixelDiff at h
  rcases returns_bind.mp h with ⟨e, hcrop, rfl⟩ | ⟨crop, m₁, hcrop, hrest⟩
  · obtain ⟨hcrop', rfl⟩ := returns_beside.mp hcrop
    exact ⟨n, returns_bind.mpr (.inl ⟨e, returns_beside.mpr ⟨hcrop', rfl⟩, rfl⟩), hmn⟩
  · obtain ⟨hcrop', rfl⟩ := returns_beside.mp hcrop
    have hdigest : digest L frame w.rect = some (dhash L (L.grayscale crop)) := by
      rw [digest, show cropRgb frame w.rect () = .ok (.ok crop, ()) from hcrop']
    obtain ⟨rfl, rfl⟩ := h.unique (evalPixelDiff_returns nowMs m₁ hdigest)
    refine ⟨_, ?_, hmn.record _ _⟩
    rw [hmn.snapshots]
    exact evalPixelDiff_returns nowMs n hdigest

theorem look_alike {r : Except PerceptionError PredicateResult} (hmn : Alike L m n)
    (h : (w.evaluate L frame nowMs).Returns m r m') :
    ∃ n', (w.evaluate L frame nowMs).Returns n r n' ∧ Alike L m' n' := by
  rcases memoize_returns h with ⟨v, hv, rfl, rfl⟩ | ⟨hnone, hmiss⟩
  · rw [hmn.cache] at hv
    exact ⟨n, memoize_hit hv, hmn⟩
  · rw [hmn.cache] at hnone
    rcases hmiss with ⟨e, rfl, hx⟩ | ⟨v, m₁, rfl, hx, rfl⟩
    · obtain ⟨n', hx', halike⟩ := evalPixelDiff_alike hmn hx
      exact ⟨n', memoize_fail hnone hx', halike⟩
    · obtain ⟨n', hx', halike⟩ := evalPixelDiff_alike hmn hx
      exact ⟨_, memoize_miss hnone hx', halike.remember _ v⟩

end Alike

section Taken
variable {L : Libs} {frame : Frame} {nowMs : UnixMs} {c : EvalCtx} {m₀ m n : Memory} {w : Look}

theorem runLooks_append {xs ys : List Look} {as bs : Results}
    {m m₁ m₂ : Memory} (hxs : runLooks L frame nowMs xs m = .ok (as, m₁))
    (hys : runLooks L frame nowMs ys m₁ = .ok (bs, m₂)) :
    runLooks L frame nowMs (xs ++ ys) m = .ok (as ++ bs, m₂) := by
  induction xs generalizing as m with
  | nil =>
    obtain ⟨rfl, rfl⟩ := Prod.mk.inj (Except.ok.inj hxs)
    exact hys
  | cons x xs ih =>
    obtain ⟨⟨r, m'⟩, hx, hrest⟩ := bind_eq_ok.mp hxs
    obtain ⟨⟨rest, m''⟩, hrun, hend⟩ := bind_eq_ok.mp hrest
    obtain ⟨rfl, rfl⟩ := Prod.mk.inj (Except.ok.inj hend)
    exact bind_eq_ok.mpr ⟨(r, m'), hx, bind_eq_ok.mpr ⟨_, ih hrun, rfl⟩⟩

/-- `m` is `m₀` after some looks, as far as looks can tell. -/
def Taken (L : Libs) (frame : Frame) (nowMs : UnixMs) (m₀ m : Memory) : Prop :=
  ∃ ws as n, runLooks L frame nowMs ws m₀ = .ok (as, n) ∧ Alike L m n

theorem taken_refl (m : Memory) : Taken L frame nowMs m m := ⟨[], [], m, rfl, .refl m⟩

theorem taken_of_alike (h : Taken L frame nowMs m₀ m) (hn : Alike L n m) :
    Taken L frame nowMs m₀ n := by
  obtain ⟨ws, as, n', hrun, halike⟩ := h
  exact ⟨ws, as, n', hrun, hn.trans halike⟩

theorem look_taken :
    Yields (Taken L c.frame c.nowMs m₀) (w.evaluate L c.frame c.nowMs) fun _ => True := by
  intro m r m' htaken hret
  obtain ⟨ws, as, n, hrun, halike⟩ := htaken
  obtain ⟨n', hlook, halike'⟩ := look_alike halike hret
  refine ⟨⟨ws ++ [w], as ++ [r], n', ?_, halike'⟩, trivial⟩
  exact runLooks_append hrun (bind_eq_ok.mpr ⟨_, hlook, rfl⟩)

theorem look_of_hash {p : PredicateKind} (h : hashPredicate L w.kind = hashPredicate L p) :
    ∃ x : Look, p = x.kind := by
  have hcanonical := congrArg PredicateHash.digested h
  cases p with
  | pixelDiff region baseline threshold =>
    cases region with
    | absolute rect => exact ⟨⟨rect, baseline, threshold⟩, rfl⟩
    | window | relativeTo => exact nomatch (PredicateKind.pixelDiff.inj hcanonical).1
  | template | colorAt | allOf | anyOf | not | elapsedMsSinceTrue => exact nomatch hcanonical

theorem other_taken {p : PredicateKind} {x : Eval PredicateResult} (hp : ∀ w : Look, p ≠ w.kind)
    (hx : Yields (Taken L c.frame c.nowMs m₀) x fun _ => True) :
    Yields (Taken L c.frame c.nowMs m₀) (memoize (hashPredicate L p) x) fun _ => True := by
  refine yields_memoize (fun _ _ _ _ => trivial) hx fun m r htaken _ => ?_
  refine taken_of_alike htaken ⟨fun w => lookup_remember_ne fun heq => ?_, fun _ => rfl⟩
  obtain ⟨x, hx⟩ := look_of_hash heq
  exact hp x hx

theorem dispatch_taken {p : PredicateKind} {ev : String → Nat → Eval PredicateResult}
    (hp : ∀ w : Look, p ≠ w.kind)
    (hev : ∀ n depth, Yields (Taken L c.frame c.nowMs m₀) (ev n depth) fun _ => True) (depth : Nat) :
    Yields (Taken L c.frame c.nowMs m₀) (dispatch L c ev depth p) fun _ => True := by
  cases p with
  | colorAt | template => exact yields_beside fun _ _ => trivial
  | pixelDiff region baseline threshold =>
    cases region with
    | absolute rect => exact absurd rfl (hp ⟨rect, baseline, threshold⟩)
    | window | relativeTo => exact yields_pure trivial
  | allOf of | anyOf of => exact evalUntil_keeps fun n _ => hev n depth
  | not of => exact yields_bind (hev of depth) (fun _ _ => trivial) fun _ _ => yields_pure trivial
  | elapsedMsSinceTrue child ms =>
    cases hc : c.program with
    | none =>
      rw [dispatch, evalElapsed, hc]
      exact yields_fail trivial
    | some program =>
      refine evalElapsed_keeps hc ?_ ?_ (hev child 0)
      · intro m atMs h
        refine taken_of_alike h ⟨fun _ => ?_, fun _ => ?_⟩
        · rw [setFirstTrueAt_cache]
        · rw [setFirstTrueAt_priorSnapshots]
      · exact fun m h => taken_of_alike h ⟨fun _ => rfl, fun _ => rfl⟩

theorem node_taken (p : PredicateKind) {ev : String → Nat → Eval PredicateResult}
    (hev : ∀ n depth, Yields (Taken L c.frame c.nowMs m₀) (ev n depth) fun _ => True) (depth : Nat) :
    Yields (Taken L c.frame c.nowMs m₀) (memoize (hashPredicate L p) (dispatch L c ev depth p))
      fun _ => True := by
  by_cases hlook : ∃ w : Look, p = w.kind
  · obtain ⟨w, rfl⟩ := hlook
    exact look_taken
  · have hp : ∀ w : Look, p ≠ w.kind := fun w heq => hlook ⟨w, heq⟩
    exact other_taken hp (dispatch_taken hp hev depth)

theorem evaluateNamed_taken (fuel : Nat) (name : String) :
    Yields (Taken L c.frame c.nowMs m₀) (Perception.evaluateNamed L fuel c name) fun _ => True := by
  have hnodes : NodesKeep L c (fun _ => True) (Taken L c.frame c.nowMs m₀) :=
    fun _ hev p _ depth => node_taken p (fun n d => hev n trivial d) depth
  exact evaluateNamed_keeps hnodes fuel trivial

end Taken

section Runs
variable {L : Libs} {fuel : Nat} {profiles : ProgramId → Profile}

theorem looks_alike {frame : Frame} {nowMs : UnixMs} {ws : List Look} {as : Results}
    {m m' n : Memory} (h : Alike L m n) (hrun : runLooks L frame nowMs ws m = .ok (as, m')) :
    ∃ n', runLooks L frame nowMs ws n = .ok (as, n') ∧ Alike L m' n' := by
  induction ws generalizing as m n with
  | nil =>
    obtain ⟨rfl, rfl⟩ := Prod.mk.inj (Except.ok.inj hrun)
    exact ⟨n, rfl, h⟩
  | cons w ws ih =>
    obtain ⟨⟨r, m₁⟩, hlook, hrest⟩ := bind_eq_ok.mp hrun
    obtain ⟨⟨rest, m₂⟩, hlooks, hend⟩ := bind_eq_ok.mp hrest
    obtain ⟨rfl, rfl⟩ := Prod.mk.inj (Except.ok.inj hend)
    obtain ⟨n₁, hlook', h₁⟩ := look_alike h hlook
    obtain ⟨n', hlooks', h'⟩ := ih h₁ hlooks
    exact ⟨n', bind_eq_ok.mpr ⟨_, hlook', bind_eq_ok.mpr ⟨_, hlooks', rfl⟩⟩, h'⟩

theorem calls_taken {t : Round} {calls : List (ProgramId × String)} {answers : List Answer}
    {m₀ m m' : Memory} (h : Taken L t.frame t.nowMs m₀ m)
    (hrun : runCalls L fuel profiles t calls m = .ok (answers, m')) :
    Taken L t.frame t.nowMs m₀ m' := by
  induction calls generalizing answers m with
  | nil =>
    obtain ⟨-, rfl⟩ := Prod.mk.inj (Except.ok.inj hrun)
    exact h
  | cons call calls ih =>
    obtain ⟨⟨r, m₁⟩, hcall, hrest⟩ := bind_eq_ok.mp hrun
    obtain ⟨⟨out, m₂⟩, hcalls, hend⟩ := bind_eq_ok.mp hrest
    obtain ⟨-, rfl⟩ := Prod.mk.inj (Except.ok.inj hend)
    have hafter := (evaluateNamed_taken fuel call.2 h hcall).1
    exact ih hafter hcalls

/-- Whatever the programs of a run evaluate, they leave to the looks to come what some looks alone
leave, taken in the same ticks. -/
theorem rounds_taken {ts : List Round} {answers : List Answer} {m m' n : Memory}
    (h : Alike L m n) (hrun : runRounds L fuel profiles ts m = .ok (answers, m')) :
    ∃ vs results n', vs.map (fun v => (v.frame, v.nowMs)) = ts.map (fun t => (t.frame, t.nowMs)) ∧
      runViewings L vs n = .ok (results, n') ∧ Alike L m' n' := by
  induction ts generalizing answers m n with
  | nil =>
    obtain ⟨-, rfl⟩ := Prod.mk.inj (Except.ok.inj hrun)
    exact ⟨[], [], n, rfl, rfl, h⟩
  | cons t ts ih =>
    obtain ⟨⟨first, m₁⟩, hcalls, hrest⟩ := bind_eq_ok.mp hrun
    obtain ⟨⟨out, m₂⟩, hrounds, hend⟩ := bind_eq_ok.mp hrest
    obtain ⟨-, rfl⟩ := Prod.mk.inj (Except.ok.inj hend)
    obtain ⟨ws, as, n₁, hlooks, h₁⟩ := calls_taken (taken_refl _) hcalls
    obtain ⟨n₂, hlooks', h₂⟩ := looks_alike h.clear hlooks
    obtain ⟨vs, results, n', hticks, hviewings, h'⟩ := ih (h₁.trans h₂) hrounds
    refine ⟨⟨t.frame, t.nowMs, ws⟩ :: vs, as :: results, n', ?_, ?_, h'⟩
    · rw [List.map_cons, List.map_cons, hticks]
    · exact bind_eq_ok.mpr ⟨_, hlooks', bind_eq_ok.mpr ⟨_, hviewings, rfl⟩⟩

end Runs

section Visible
variable {L : Libs} {frame : Frame} {rect : Rect}

def FitsI32 (n : Int) : Prop := -2147483648 ≤ n ∧ n ≤ 2147483647

structure Frame.Whole (frame : Frame) : Prop where
  left : FitsI32 frame.bounds.x
  top : FitsI32 frame.bounds.y
  width : FitsI32 frame.bounds.w
  height : FitsI32 frame.bounds.h
  right : FitsI32 (frame.bounds.x + frame.bounds.w)
  bottom : FitsI32 (frame.bounds.y + frame.bounds.h)
  pixels : ∀ x y : Nat, (x : Int) < frame.bounds.w → (y : Int) < frame.bounds.h →
    y * frame.stride + x * 4 + 4 ≤ frame.pixels.length

structure Rect.Meets (rect : Rect) (frame : Frame) : Prop where
  right : FitsI32 (rect.x + rect.w)
  bottom : FitsI32 (rect.y + rect.h)
  across : max rect.x frame.bounds.x < min (rect.x + rect.w) (frame.bounds.x + frame.bounds.w)
  along : max rect.y frame.bounds.y < min (rect.y + rect.h) (frame.bounds.y + frame.bounds.h)

def Sees {α : Type} (x : Glance α) : Prop := ∃ a, x.Returns () (.ok a) ()

theorem sees_bind {α β : Type} {x : Glance α} {f : α → Glance β} (hx : Sees x)
    (hf : ∀ a, Sees (f a)) : Sees (x >>= f) := by
  obtain ⟨a, ha⟩ := hx
  obtain ⟨b, hb⟩ := hf a
  exact ⟨b, returns_bind.mpr (.inr ⟨a, (), ha, hb⟩)⟩

theorem sees_pure {α : Type} (a : α) : Sees (pure a) := ⟨a, returns_pure.mpr ⟨rfl, rfl⟩⟩

theorem sees_checkedI32 {α : Type} {n : Int} {f : Int → Glance α} (h : FitsI32 n)
    (hf : Sees (f n)) : Sees (checkedI32 n >>= f) := by
  obtain ⟨a, ha⟩ := hf
  have hn : (checkedI32 n).Returns () (.ok n) () := by
    rw [checkedI32, if_pos (show -2147483648 ≤ n ∧ n ≤ 2147483647 from h)]
    exact returns_pure.mpr ⟨rfl, rfl⟩
  exact ⟨a, returns_bind.mpr (.inr ⟨n, (), hn, ha⟩)⟩

theorem sees_mapM {α β : Type} {f : α → Glance β} {l : List α} (hf : ∀ a ∈ l, Sees (f a)) :
    Sees (l.mapM f) := by
  suffices h : ∀ done, Sees (List.mapM.loop f l done) from h []
  induction l with
  | nil => exact fun done => sees_pure done.reverse
  | cons a l ih =>
    intro done
    refine sees_bind (hf a List.mem_cons_self) fun b => ?_
    exact ih (fun a' ha' => hf a' (List.mem_cons_of_mem _ ha')) (b :: done)

theorem pixelRgb_sees (hframe : frame.Whole) {x y : Int} (hx : 0 ≤ x) (hy : 0 ≤ y)
    (hright : x < frame.bounds.w) (hbottom : y < frame.bounds.h) : Sees (pixelRgb frame x y) := by
  have hinside : ¬ (x < 0 ∨ y < 0 ∨ frame.bounds.w ≤ x ∨ frame.bounds.h ≤ y) := by omega
  have hpixels := hframe.pixels x.toNat y.toNat (by omega) (by omega)
  have hlength : 4 ≤ (frame.pixels.drop (y.toNat * frame.stride + x.toNat * 4)).length := by
    rw [List.length_drop]
    omega
  rw [pixelRgb, if_neg hinside]
  match hdrop : frame.pixels.drop (y.toNat * frame.stride + x.toNat * 4) with
  | b₀ :: b₁ :: b₂ :: b₃ :: rest =>
    cases frame.format with
    | bgra8 => exact sees_pure (Rgb.mk b₂ b₁ b₀)
    | rgba8 => exact sees_pure (Rgb.mk b₀ b₁ b₂)
  | [] | [_] | [_, _] | [_, _, _] =>
    rw [hdrop] at hlength
    simp at hlength

theorem cropRgb_sees (hframe : frame.Whole) (hrect : rect.Meets frame) :
    Sees (cropRgb frame rect) := by
  obtain ⟨hright, hbottom, hacross, halong⟩ := hrect
  obtain ⟨hleft', htop', hwidth', hheight', hright', hbottom', -⟩ := id hframe
  rw [cropRgb]
  refine sees_checkedI32 hright (sees_checkedI32 hright' ?_)
  refine sees_checkedI32 hbottom (sees_checkedI32 hbottom' ?_)
  unfold FitsI32 at *
  rw [if_neg (by omega)]
  refine sees_checkedI32 (by unfold FitsI32; omega) (sees_checkedI32 (by unfold FitsI32; omega) ?_)
  refine sees_bind (sees_mapM fun row hrow => sees_mapM fun col hcol => ?_) fun _ => sees_pure _
  simp only [List.bind_eq_flatMap, List.pure_def, List.mem_flatMap, List.mem_range,
    List.mem_singleton] at hrow hcol
  obtain ⟨row, hrow, rfl⟩ := hrow
  obtain ⟨col, hcol, rfl⟩ := hcol
  refine sees_checkedI32 (by unfold FitsI32; omega) (sees_checkedI32 (by unfold FitsI32; omega) ?_)
  refine sees_checkedI32 (by unfold FitsI32; omega) (sees_checkedI32 (by unfold FitsI32; omega) ?_)
  exact pixelRgb_sees hframe (by omega) (by omega) (by omega) (by omega)

theorem Viewing.visible_of_meets {v : Viewing} (hframe : v.frame.Whole)
    (hmeets : ∀ w ∈ v.looks, w.rect.Meets v.frame) : v.Visible L := by
  intro w hw
  obtain ⟨crop, hcrop⟩ := cropRgb_sees hframe (hmeets w hw)
  rw [digest, show cropRgb v.frame w.rect () = .ok (.ok crop, ()) from hcrop]
  rfl

end Visible

end Vcli

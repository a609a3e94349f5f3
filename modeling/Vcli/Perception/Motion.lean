import Vcli.Perception.Noninterference

/-! Pixel differences over a run of ticks. The snapshot of a region is kept under the region and
the baseline, a result under the whole predicate; within a tick the two must not get mixed up. -/

namespace Vcli

open Fallible

/-- A `pixel_diff` predicate over an absolute region, as it is evaluated in a tick. -/
structure Look where
  rect : Rect
  baseline : String
  threshold : F64
deriving DecidableEq

def Look.kind (w : Look) : PredicateKind := .pixelDiff (.absolute w.rect) w.baseline w.threshold

structure Viewing where
  frame : Frame
  nowMs : UnixMs
  looks : List Look
deriving DecidableEq

section Evaluate
variable (L : Libs)

def Look.key (w : Look) : SnapshotKey := ⟨L.nfc w.baseline, w.rect⟩

def Look.evaluate (frame : Frame) (nowMs : UnixMs) (w : Look) : Eval PredicateResult :=
  memoize (hashPredicate L w.kind)
    (evalPixelDiff L ⟨frame, nowMs, ∅, ∅, none⟩ (.absolute w.rect) w.baseline w.threshold)

def digest (frame : Frame) (rect : Rect) : Option (BitVec 64) :=
  match cropRgb frame rect () with
  | .ok (.ok crop, _) => some (dhash L (L.grayscale crop))
  | _ => none

abbrev Results := List (Except PerceptionError PredicateResult)

def runLooks (frame : Frame) (nowMs : UnixMs) : List Look → Memory → Except Crash (Results × Memory)
  | [], m => .ok ([], m)
  | w :: ws, m => do
    let r ← w.evaluate L frame nowMs m
    let rest ← runLooks frame nowMs ws r.2
    return (r.1 :: rest.1, rest.2)

def runViewings : List Viewing → Memory → Except Crash (List Results × Memory)
  | [], m => .ok ([], m)
  | v :: vs, m => do
    let r ← runLooks L v.frame v.nowMs v.looks m.clear
    let rest ← runViewings vs r.2
    return (r.1 :: rest.1, rest.2)

def lastLook (key : SnapshotKey) (past : List Viewing) : Option Viewing :=
  past.reverse.find? fun u => u.looks.any fun x => decide (x.key L = key)

def Moved (past : List Viewing) (v : Viewing) (w : Look) : Prop :=
  ∃ u now before, lastLook L (w.key L) past = some u ∧ digest L v.frame w.rect = some now ∧
    digest L u.frame w.rect = some before ∧
    (F64.sixtyFourths (hamming now before)).ge w.threshold = true

def Compares : List Viewing → List Viewing → List Results → Prop
  | _, [], [] => True
  | past, v :: vs, as :: rest =>
    List.Forall₂ (fun w a => ∃ r, a = .ok r ∧ (r.truthy = true ↔ Moved L past v w)) v.looks as ∧
      Compares (past ++ [v]) vs rest
  | _, _, _ => False

def Viewing.Visible (v : Viewing) : Prop := ∀ w ∈ v.looks, (digest L v.frame w.rect).isSome

def Viewing.Uniform (v : Viewing) : Prop :=
  ∀ x ∈ v.looks, ∀ y ∈ v.looks, x.key L = y.key L → x.threshold.canonical = y.threshold.canonical

end Evaluate

section Calls
variable {L : Libs} {c : EvalCtx} {w : Look} {name : String}

/-- A call for a name that stands for such a predicate is such a look, whoever calls. -/
theorem evaluateNamed_look (fuel : Nat) (h : c.predicates[name]? = some w.kind) :
    Perception.evaluateNamed L fuel c name = w.evaluate L c.frame c.nowMs := by
  rw [Perception.evaluateNamed, h]
  rfl

theorem evaluateNamedWithDepth_look (fuel : Nat) {depth : Nat}
    (hdepth : depth < Perception.maxRecursionDepth) (h : c.predicates[name]? = some w.kind) :
    Perception.evaluateNamedWithDepth L c (fuel + 1) name depth =
      w.evaluate L c.frame c.nowMs := by
  rw [Perception.evaluateNamedWithDepth, if_neg (Nat.not_le.mpr hdepth), h]
  rfl

end Calls

section Threshold

theorem isNan_of_rank {y : F64} (h : y.rank = 0) : y.isNan = false := by
  have hmag : y.bits &&& 0x7fffffffffffffff#64 = 0#64 := by
    unfold F64.rank at h
    split_ifs at h with hsign
    · exact BitVec.eq_of_toNat_eq (by rw [Int.neg_eq_zero] at h; exact_mod_cast h)
    · have hzero : y.bits = 0#64 := BitVec.eq_of_toNat_eq (by exact_mod_cast h)
      rw [hzero]
      rfl
  rw [F64.isNan, hmag]
  rfl

theorem ge_canonical (x y : F64) : x.ge y.canonical = x.ge y := by
  unfold F64.canonical
  split_ifs with hzero
  · have hnan := isNan_of_rank hzero
    have hnone : (⟨0#64⟩ : F64).isNan = false := by decide
    have hrank : (⟨0#64⟩ : F64).rank = 0 := by decide
    rw [F64.ge, F64.ge, hnan, hnone, hrank, hzero]
  · rfl

theorem ge_of_canonical {x y z : F64} (h : y.canonical = z.canonical) : x.ge y = x.ge z := by
  rw [← ge_canonical x y, h, ge_canonical]

end Threshold

section Looking
variable {L : Libs} {past : List Viewing} {v : Viewing} {w x : Look} {l : List Look} {m : Memory}

theorem hash_eq_iff : hashPredicate L w.kind = hashPredicate L x.kind ↔
    w.key L = x.key L ∧ w.threshold.canonical = x.threshold.canonical := by
  simp only [hashPredicate, Look.kind, Look.key, PredicateKind.canonical, Region.canonical,
    PredicateHash.mk.injEq, PredicateKind.pixelDiff.injEq, Region.absolute.injEq,
    SnapshotKey.mk.injEq]
  constructor
  · rintro ⟨hrect, hbase, hthr⟩
    exact ⟨⟨hbase, hrect⟩, hthr⟩
  · rintro ⟨⟨hbase, hrect⟩, hthr⟩
    exact ⟨hrect, hbase, hthr⟩

theorem moved_congr (hkey : w.key L = x.key L)
    (hthr : w.threshold.canonical = x.threshold.canonical) :
    Moved L past v w ↔ Moved L past v x := by
  have hrect : w.rect = x.rect := congrArg SnapshotKey.rect hkey
  have hge : ∀ y : F64, y.ge w.threshold = y.ge x.threshold := fun _ => ge_of_canonical hthr
  simp only [Moved, hkey, hrect, hge]

def Remembers (L : Libs) (past : List Viewing) (m : Memory) : Prop :=
  ∀ w : Look, m.priorSnapshots.lookup (w.key L) = (lastLook L (w.key L) past).bind fun u =>
    (digest L u.frame w.rect).map fun d => ⟨d, u.nowMs⟩

/-- The memory within a tick, after the looks `l`: their results are in the cache, their snapshots
are those of this tick, and the rest is as it was. -/
structure Amid (L : Libs) (past : List Viewing) (v : Viewing) (l : List Look) (m : Memory) :
    Prop where
  cached : ∀ x ∈ l, ∃ r, m.cache.lookup (hashPredicate L x.kind) = some r ∧
    (r.truthy = true ↔ Moved L past v x)
  uncached : ∀ w : Look, (∀ x ∈ l, hashPredicate L x.kind ≠ hashPredicate L w.kind) →
    m.cache.lookup (hashPredicate L w.kind) = none
  taken : ∀ x ∈ l, m.priorSnapshots.lookup (x.key L) =
    (digest L v.frame x.rect).map fun d => ⟨d, v.nowMs⟩
  kept : ∀ w : Look, (∀ x ∈ l, x.key L ≠ w.key L) → m.priorSnapshots.lookup (w.key L) =
    (lastLook L (w.key L) past).bind fun u =>
      (digest L u.frame w.rect).map fun d => ⟨d, u.nowMs⟩

theorem amid_start (h : Remembers L past m) : Amid L past v [] m.clear where
  cached := fun _ hx => absurd hx List.not_mem_nil
  uncached := fun _ _ => AList.lookup_empty _
  taken := fun _ hx => absurd hx List.not_mem_nil
  kept := fun w _ => h w

theorem amid_end (h : Amid L past v v.looks m) : Remembers L (past ++ [v]) m := by
  intro w
  rw [lastLook, List.reverse_append, List.reverse_singleton, List.singleton_append,
    List.find?_cons]
  cases hany : v.looks.any fun x => decide (x.key L = w.key L) with
  | true =>
    obtain ⟨x, hx, hkey⟩ := List.any_eq_true.mp hany
    have hkey' := of_decide_eq_true hkey
    have hrect : x.rect = w.rect := congrArg SnapshotKey.rect hkey'
    have htaken := h.taken x hx
    rw [hkey', hrect] at htaken
    exact htaken
  | false =>
    refine h.kept w fun x hx hkey => ?_
    exact List.any_eq_false.mp hany x hx (decide_eq_true hkey)

end Looking


section Step
variable {L : Libs} {past : List Viewing} {v : Viewing} {w x : Look} {l : List Look} {m : Memory}

def Look.verdict (w : Look) (now : BitVec 64) (prior : Option PriorSnapshot) : Bool :=
  match prior with
  | none => false
  | some prev => (F64.sixtyFourths (hamming now prev.dhash)).ge w.threshold

theorem evalPixelDiff_returns {frame : Frame} {now : BitVec 64} (nowMs : UnixMs) (m : Memory)
    (h : digest L frame w.rect = some now) :
    (evalPixelDiff L ⟨frame, nowMs, ∅, ∅, none⟩ (.absolute w.rect) w.baseline w.threshold).Returns m
      (.ok ⟨w.verdict now (m.priorSnapshots.lookup (w.key L)), none, nowMs⟩)
      (m.recordSnapshot (w.key L) ⟨now, nowMs⟩) := by
  unfold digest at h
  split at h
  · rename_i crop u hcrop
    obtain rfl := Option.some.inj h
    refine returns_bind.mpr (.inr ⟨crop, m, returns_beside.mpr ⟨hcrop, rfl⟩, ?_⟩)
    refine returns_bind.mpr (.inr ⟨m, m, returns_get.mpr ⟨rfl, rfl⟩, ?_⟩)
    refine returns_bind.mpr (.inr ⟨(), _, returns_modify.mpr ⟨rfl, rfl⟩, ?_⟩)
    change Returns (match m.priorSnapshots.lookup (w.key L) with
      | none => _
      | some prev => _) _ _ _
    cases m.priorSnapshots.lookup (w.key L) with
    | none => exact returns_pure.mpr ⟨rfl, rfl⟩
    | some prev => exact returns_pure.mpr ⟨rfl, rfl⟩
  · exact nomatch h

theorem memoize_hit {hash : PredicateHash} {x : Eval PredicateResult} {r : PredicateResult}
    (h : m.cache.lookup hash = some r) : (memoize hash x).Returns m (.ok r) m := by
  refine returns_bind.mpr (.inr ⟨m, m, returns_get.mpr ⟨rfl, rfl⟩, ?_⟩)
  rw [h]
  exact returns_pure.mpr ⟨rfl, rfl⟩

theorem memoize_miss {hash : PredicateHash} {x : Eval PredicateResult} {r : PredicateResult}
    {m' : Memory} (h : m.cache.lookup hash = none) (hx : x.Returns m (.ok r) m') :
    (memoize hash x).Returns m (.ok r) (m'.remember hash r) := by
  refine returns_bind.mpr (.inr ⟨m, m, returns_get.mpr ⟨rfl, rfl⟩, ?_⟩)
  rw [h]
  refine returns_bind.mpr (.inr ⟨r, m', hx, ?_⟩)
  exact returns_bind.mpr (.inr ⟨(), _, returns_modify.mpr ⟨rfl, rfl⟩, returns_pure.mpr ⟨rfl, rfl⟩⟩)

theorem memoize_fail {hash : PredicateHash} {x : Eval PredicateResult} {e : PerceptionError}
    {m' : Memory} (h : m.cache.lookup hash = none) (hx : x.Returns m (.error e) m') :
    (memoize hash x).Returns m (.error e) m' := by
  refine returns_bind.mpr (.inr ⟨m, m, returns_get.mpr ⟨rfl, rfl⟩, ?_⟩)
  rw [h]
  exact returns_bind.mpr (.inl ⟨e, hx, rfl⟩)

/-- The comparison with what is remembered of the earlier ticks is the one with the last look. -/
theorem verdict_iff {now : BitVec 64} (hnow : digest L v.frame w.rect = some now) :
    w.verdict now ((lastLook L (w.key L) past).bind fun u =>
      (digest L u.frame w.rect).map fun d => ⟨d, u.nowMs⟩) = true ↔ Moved L past v w := by
  constructor
  · intro hverdict
    cases hlast : lastLook L (w.key L) past with
    | none =>
      rw [hlast] at hverdict
      exact nomatch hverdict
    | some u =>
      rw [hlast, Option.bind_some] at hverdict
      cases hbefore : digest L u.frame w.rect with
      | none =>
        rw [hbefore] at hverdict
        exact nomatch hverdict
      | some before =>
        rw [hbefore] at hverdict
        exact ⟨u, now, before, hlast, hnow, hbefore, hverdict⟩
  · rintro ⟨u, now', before, hlast, hnow', hbefore, hge⟩
    obtain rfl := Option.some.inj (hnow.symm.trans hnow')
    rw [hlast, Option.bind_some, hbefore]
    exact hge

theorem Amid.append {m' : Memory} (h : Amid L past v l m) {r : PredicateResult}
    (hresult : m'.cache.lookup (hashPredicate L w.kind) = some r)
    (htruthy : r.truthy = true ↔ Moved L past v w)
    (hcache : ∀ hash, hash ≠ hashPredicate L w.kind →
      m'.cache.lookup hash = m.cache.lookup hash)
    (hsnapshot : m'.priorSnapshots.lookup (w.key L) =
      (digest L v.frame w.rect).map fun d => ⟨d, v.nowMs⟩)
    (hothers : ∀ key, key ≠ w.key L → m'.priorSnapshots.lookup key = m.priorSnapshots.lookup key) :
    Amid L past v (l ++ [w]) m' where
  cached := by
    intro x hx
    -- looks of one digest share their answer, since they have one key and one throttle
    by_cases heq : hashPredicate L x.kind = hashPredicate L w.kind
    · obtain ⟨hkey, hthr⟩ := hash_eq_iff.mp heq
      rw [heq]
      exact ⟨r, hresult, htruthy.trans (moved_congr hkey hthr).symm⟩
    · rw [hcache _ heq]
      rcases List.mem_append.mp hx with hold | hnew
      · exact h.cached x hold
      · exact absurd (congrArg (fun y => hashPredicate L (Look.kind y))
          (List.mem_singleton.mp hnew)) heq
  uncached := by
    intro y hy
    have hne : hashPredicate L y.kind ≠ hashPredicate L w.kind :=
      fun heq => hy w (List.mem_append_right _ List.mem_cons_self) heq.symm
    rw [hcache _ hne]
    exact h.uncached y fun x hx => hy x (List.mem_append_left _ hx)
  taken := by
    intro x hx
    by_cases heq : x.key L = w.key L
    · have hrect : x.rect = w.rect := congrArg SnapshotKey.rect heq
      rw [heq, hrect]
      exact hsnapshot
    · rw [hothers _ heq]
      rcases List.mem_append.mp hx with hold | hnew
      · exact h.taken x hold
      · exact absurd (congrArg (fun y => Look.key L y) (List.mem_singleton.mp hnew)) heq
  kept := by
    intro y hy
    have hne : y.key L ≠ w.key L :=
      fun heq => hy w (List.mem_append_right _ List.mem_cons_self) heq.symm
    rw [hothers _ hne]
    exact h.kept y fun x hx => hy x (List.mem_append_left _ hx)

theorem look_again (h : Amid L past v l m) (hx : x ∈ l) (hkey : x.key L = w.key L)
    (hthr : x.threshold.canonical = w.threshold.canonical) :
    ∃ r, (w.evaluate L v.frame v.nowMs).Returns m (.ok r) m ∧
      (r.truthy = true ↔ Moved L past v w) ∧ Amid L past v (l ++ [w]) m := by
  obtain ⟨r, hr, hmoved⟩ := h.cached x hx
  rw [hash_eq_iff.mpr ⟨hkey, hthr⟩] at hr
  have htruthy : r.truthy = true ↔ Moved L past v w := hmoved.trans (moved_congr hkey hthr)
  have hrect : x.rect = w.rect := congrArg SnapshotKey.rect hkey
  have hsnapshot := h.taken x hx
  rw [hkey, hrect] at hsnapshot
  exact ⟨r, memoize_hit hr, htruthy,
    h.append hr htruthy (fun _ _ => rfl) hsnapshot fun _ _ => rfl⟩

theorem look_anew (h : Amid L past v l m) (hvisible : (digest L v.frame w.rect).isSome)
    (hnew : ∀ x ∈ l, x.key L ≠ w.key L) :
    ∃ r m', (w.evaluate L v.frame v.nowMs).Returns m (.ok r) m' ∧
      (r.truthy = true ↔ Moved L past v w) ∧ Amid L past v (l ++ [w]) m' := by
  obtain ⟨now, hnow⟩ := Option.isSome_iff_exists.mp hvisible
  have hmiss : m.cache.lookup (hashPredicate L w.kind) = none :=
    h.uncached w fun x hx heq => hnew x hx (hash_eq_iff.mp heq).1
  have heval := evalPixelDiff_returns v.nowMs m hnow
  rw [h.kept w hnew] at heval
  refine ⟨_, _, memoize_miss hmiss heval, verdict_iff hnow, ?_⟩
  refine h.append (AList.lookup_insert _) (verdict_iff hnow) ?_ ?_ ?_
  · exact fun hash hne => AList.lookup_insert_ne hne
  · rw [hnow]
    exact AList.lookup_insert _
  · exact fun key hne => AList.lookup_insert_ne hne

theorem look_step (h : Amid L past v l m) (hvisible : (digest L v.frame w.rect).isSome)
    (huniform : ∀ x ∈ l, x.key L = w.key L → x.threshold.canonical = w.threshold.canonical) :
    ∃ r m', (w.evaluate L v.frame v.nowMs).Returns m (.ok r) m' ∧
      (r.truthy = true ↔ Moved L past v w) ∧ Amid L past v (l ++ [w]) m' := by
  by_cases hlike : ∃ x ∈ l, x.key L = w.key L
  · obtain ⟨x, hx, hkey⟩ := hlike
    obtain ⟨r, hagain⟩ := look_again h hx hkey (huniform x hx hkey)
    exact ⟨r, m, hagain⟩
  · exact look_anew h hvisible fun x hx hkey => hlike ⟨x, hx, hkey⟩

end Step

section Run
variable {L : Libs} {past : List Viewing} {v : Viewing} {m : Memory}

theorem looks_compare (hvisible : v.Visible L) (huniform : v.Uniform L) {l : List Look}
    (h : Amid L past v l m) : ∀ ws, v.looks = l ++ ws → ∃ answers m',
      runLooks L v.frame v.nowMs ws m = .ok (answers, m') ∧
      List.Forall₂ (fun w a => ∃ r, a = .ok r ∧ (r.truthy = true ↔ Moved L past v w)) ws answers ∧
      Amid L past v v.looks m' := by
  intro ws hws
  induction ws generalizing l m with
  | nil =>
    rw [List.append_nil] at hws
    rw [hws]
    exact ⟨[], m, rfl, .nil, h⟩
  | cons w ws ih =>
    have hw : w ∈ v.looks := hws ▸ List.mem_append_right _ List.mem_cons_self
    have hl : ∀ x ∈ l, x ∈ v.looks := fun x hx => hws ▸ List.mem_append_left _ hx
    obtain ⟨r, m₁, hret, htruthy, hamid⟩ :=
      look_step h (hvisible w hw) fun x hx hkey => huniform x (hl x hx) w hw hkey
    have hws' : v.looks = l ++ [w] ++ ws := by rw [hws, List.append_assoc, List.singleton_append]
    obtain ⟨answers, m', hrun, hall, hend⟩ := ih hamid hws'
    refine ⟨.ok r :: answers, m', ?_, .cons ⟨r, rfl, htruthy⟩ hall, hend⟩
    exact bind_eq_ok.mpr ⟨_, hret, bind_eq_ok.mpr ⟨_, hrun, rfl⟩⟩

theorem viewings_compare {vs : List Viewing} (hvisible : ∀ v ∈ vs, v.Visible L)
    (huniform : ∀ v ∈ vs, v.Uniform L) (h : Remembers L past m) : ∃ answers m',
      runViewings L vs m = .ok (answers, m') ∧ Compares L past vs answers := by
  induction vs generalizing past m with
  | nil => exact ⟨[], m, rfl, trivial⟩
  | cons v vs ih =>
    obtain ⟨as, m₁, hlooks, hall, hend⟩ := looks_compare (hvisible v List.mem_cons_self)
      (huniform v List.mem_cons_self) (amid_start h) v.looks rfl
    obtain ⟨rest, m', hrun, hcompares⟩ :=
      ih (fun u hu => hvisible u (List.mem_cons_of_mem _ hu))
        (fun u hu => huniform u (List.mem_cons_of_mem _ hu)) (amid_end hend)
    exact ⟨as :: rest, m', bind_eq_ok.mpr ⟨_, hlooks, bind_eq_ok.mpr ⟨_, hrun, rfl⟩⟩,
      hall, hcompares⟩

end Run

section Sloping

def redLibs : Libs :=
  { plainLibs with grayscale := fun image => ⟨image.width, image.height, image.pixels.map (·.r)⟩ }

def striped (row : List UInt8) : Frame :=
  ⟨.rgba8, ⟨0, 0, 9, 8⟩, 36, (List.replicate 8 (row.flatMap fun c => [c, c, c, 255])).flatten, 0⟩

def flat : Frame := striped [0, 0, 0, 0, 0, 0, 0, 0, 0]

def slope : Frame := striped [9, 8, 7, 6, 5, 4, 3, 2, 1]

def coarse : Look := ⟨⟨0, 0, 9, 8⟩, "screen", ⟨0x3fe0000000000000#64⟩⟩

def fine : Look := { coarse with threshold := ⟨0x3fd0000000000000#64⟩ }

def sloping (looks : List Look) : List Viewing := [⟨flat, 0, looks⟩, ⟨slope, 10, looks⟩]

def truths (rest : List Results) : List (List (Option Bool)) :=
  rest.map fun as => as.map fun a => a.toOption.map (·.truthy)

/-- As long as the looks of a tick at one region against one baseline share their threshold, every
look of a run compares with the latest earlier tick in which its region was looked at. -/
theorem pixel_diff_compares (L : Libs) (vs : List Viewing) (hvisible : ∀ v ∈ vs, v.Visible L)
    (huniform : ∀ v ∈ vs, v.Uniform L) : ∃ answers m,
      runViewings L vs .new = .ok (answers, m) ∧ Compares L [] vs answers :=
  viewings_compare hvisible huniform fun _ => rfl

/-- One predicate alone sees every bit turn. -/
theorem pixel_diff_compares_coarse : ∃ answers m,
    runViewings redLibs (sloping [coarse]) .new = .ok (answers, m) ∧
      Compares redLibs [] (sloping [coarse]) answers :=
  pixel_diff_compares redLibs (sloping [coarse])
    (by simp only [sloping, Viewing.Visible]; decide +kernel)
    (by simp only [sloping, Viewing.Uniform]; decide +kernel)

theorem sloping_truths : ((runViewings redLibs (sloping [coarse, fine]) .new).map
    fun r => truths r.1).toOption =
      some [[some false, some false], [some true, some false]] := by
  decide +kernel

theorem fine_moved : Moved redLibs [⟨flat, 0, [coarse, fine]⟩] ⟨slope, 10, [coarse, fine]⟩ fine :=
  ⟨⟨flat, 0, [coarse, fine]⟩, 0xffffffffffffffff#64, 0#64, by decide +kernel⟩

/-- A second predicate with another threshold is compared with the frame it looks at: every bit
has turned, but the finer of the two does not see it. -/
theorem pixel_diff_overtaken : ∃ answers m,
    runViewings redLibs (sloping [coarse, fine]) .new = .ok (answers, m) ∧
      ¬ Compares redLibs [] (sloping [coarse, fine]) answers := by
  have htruths := sloping_truths
  cases hrun : runViewings redLibs (sloping [coarse, fine]) .new with
  | error c =>
    rw [hrun] at htruths
    exact nomatch htruths
  | ok p =>
    obtain ⟨answers, m⟩ := p
    refine ⟨answers, m, rfl, ?_⟩
    intro hcompares
    rw [hrun] at htruths
    rcases answers with _ | ⟨first, _ | ⟨second, _ | ⟨third, rest⟩⟩⟩
    · exact hcompares
    · exact hcompares.2
    · obtain ⟨-, hsecond, -⟩ := hcompares
      cases hsecond with
      | cons hcoarse hrest =>
        cases hrest with
        | cons hfine hnil =>
          obtain ⟨r, rfl, hr⟩ := hfine
          cases hnil
          have hmoved : r.truthy = true := hr.mpr fine_moved
          simp [Except.map, Except.toOption, truths, hmoved] at htruths
    · exact hcompares.2.2

end Sloping

end Vcli

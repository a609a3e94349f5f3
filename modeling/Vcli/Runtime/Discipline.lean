import Vcli.Lib.History
import Vcli.Runtime.WatchTick

/-! The firing discipline of a watch over whole runs, for any clock: what its bookkeeping
remembers of the history of its program. -/

namespace Vcli

open Transducer History

/-- Everything `decide` has checked when it says fire. -/
structure Fires (w : Watch) (wr : WatchRuntime) (truthy : Bool) (nowMs since : UnixMs) : Prop where
  live : wr.retired = false
  fell : wr.lastTruthy = false
  rose : truthy = true
  throttle : ∀ last, wr.lastFiredMs = some last → (w.throttleMs.toNat : Int) ≤ nowMs - last
  intime : ∀ ms, w.lifetime = .timeoutMs ms → nowMs - since < ms.toNat

theorem decideWatch_fire {w : Watch} {wr : WatchRuntime} {truthy : Bool} {nowMs since : UnixMs}
    (h : decideWatch w wr truthy nowMs since = .fire) : Fires w wr truthy nowMs since := by
  unfold decideWatch at h
  split_ifs at h with hret htime hedge
  have hedge' : wr.lastTruthy = false ∧ truthy = true := by
    simpa [Bool.or_eq_true] using hedge
  refine ⟨Bool.not_eq_true _ ▸ hret, hedge'.1, hedge'.2, ?_, ?_⟩
  · intro last hlast
    rw [hlast] at h
    dsimp only at h
    split_ifs at h with hthr
    exact (UnixMs.le_saturatingSub_iff _ _ _).mp (Int.not_lt.mp hthr)
  · intro ms hms
    rw [hms] at htime
    simp only [decide_eq_true_eq, UnixMs.le_saturatingSub_iff] at htime
    exact Int.not_le.mp htime

abbrev LocalMoment := Moment (Option RunningProgram)

def Fired (idx : Nat) (m : LocalMoment) : Prop := m.obs.firedWatch = some idx

def Fell (idx : Nat) (m : LocalMoment) : Prop :=
  ∃ i r, m.obs = .perceived i (.watch idx) (.ok r) ∧ r.truthy = false

def Throttled (w : Watch) (m n : LocalMoment) : Prop :=
  (w.throttleMs.toNat : Int) ≤ n.nowMs - m.nowMs

instance (idx : Nat) : DecidablePred (Fired idx) := fun m =>
  inferInstanceAs (Decidable (m.obs.firedWatch = some idx))

structure Kept (idx : Nat) (w : Watch) (rp : RunningProgram) (T : List LocalMoment) : Prop where
  watch : rp.program.watches[idx]? = some w
  fresh : rp.state = .waiting → rp.watch idx = {}
  since : rp.state = .running → rp.runningSinceMs ≠ none
  oneShot : w.lifetime = .oneShot → (rp.watch idx).retired = false → ∀ x ∈ T, ¬ Fired idx x
  once : w.lifetime = .oneShot → T.countP (fun x => decide (Fired idx x)) ≤ 1
  spaced : Spaced (Fired idx) (Fell idx) (Throttled w) T
  last : ∀ m mid, LastMark (Fired idx) T m mid → (rp.watch idx).lastFiredMs = some m.nowMs ∧
    ((rp.watch idx).lastTruthy = true ∨ ∃ x ∈ mid, Fell idx x)
  timeout : ∀ x ∈ T, Fired idx x → ∀ ms, w.lifetime = .timeoutMs ms →
    ∃ q t, x.live = some q ∧ q.runningSinceMs = some t ∧ x.nowMs - t < ms.toNat

section Step
variable {tk : Tick} {id : ProgramId} {rp q : RunningProgram} {idx : Nat} {w : Watch}
  {T : List LocalMoment} {wr : WatchRuntime} {V : List (RunningProgram × Obs)} {o : WatchOutcome}
  {own : List Obs}

theorem Obs.firedWatch_of_watchOf {x : Obs} (h : x.watchOf = some idx) : x.firedWatch = none := by
  match x, h with
  | perceived .., _ | decided .., _ => rfl

theorem own_not_fired (h : Judged tk id q idx w o own) :
    ∀ x ∈ moments tk.nowMs (own.map fun x => (q, x)), ¬ Fired idx x := by
  intro x hx hf
  obtain ⟨y, hy, rfl⟩ := List.mem_map.mp hx
  obtain ⟨z, hz, rfl⟩ := List.mem_map.mp hy
  have hnone := Obs.firedWatch_of_watchOf (h.watchOf.1 z hz)
  exact nomatch hnone.symm.trans hf

theorem settle_lastFiredMs (o : WatchOutcome) (wr : WatchRuntime) :
    (o.settle wr).lastFiredMs = wr.lastFiredMs := by
  match o with
  | .inert | .terminated _ | .judged _ _ .skip | .judged _ _ .fire | .judged _ _ .retire => rfl

theorem settle_retired {o : WatchOutcome} {wr : WatchRuntime}
    (h : (o.settle wr).retired = false) : wr.retired = false := by
  match o with
  | .inert | .judged _ _ .skip | .judged _ _ .fire => exact h
  | .terminated _ | .judged _ _ .retire => exact nomatch h

/-- The edge memory is cleared only by an evaluation that is on record. -/
theorem settle_lastTruthy (h : Judged tk id q idx w o own) (wr : WatchRuntime) :
    (o.settle wr).lastTruthy = wr.lastTruthy ∨ (o.settle wr).lastTruthy = true ∨
      ∃ x ∈ moments tk.nowMs (own.map fun x => (q, x)), Fell idx x := by
  cases h with
  | retired | terminated | erred => exact .inl rfl
  | @judged pre r hr hp =>
    right
    have hsettle : ((WatchOutcome.judged idx r.truthy (verdictOn tk q idx w r.truthy)).settle
        wr).lastTruthy = r.truthy := by
      cases verdictOn tk q idx w r.truthy <;> rfl
    rw [hsettle]
    cases ht : r.truthy with
    | true => exact .inl rfl
    | false =>
      right
      refine ⟨⟨tk.nowMs, some q, .perceived id (.watch idx) (.ok r)⟩, ?_, id, r, rfl, ht⟩
      apply List.mem_map.mpr
      refine ⟨(q, .perceived id (.watch idx) (.ok r)), ?_, rfl⟩
      exact List.mem_map.mpr ⟨_, List.mem_append_right _ List.mem_cons_self, rfl⟩

theorem Kept.settled (h : Kept idx w rp T) (hj : Judged tk id q idx w o own)
    {rp' : RunningProgram} (hprog : rp'.program = rp.program)
    (hwatch : rp'.watch idx = o.settle (rp.watch idx))
    (hfresh : rp'.state = .waiting → rp'.watch idx = {})
    (hsince : rp'.state = .running → rp'.runningSinceMs ≠ none) :
    Kept idx w rp' (T ++ moments tk.nowMs (own.map fun x => (q, x))) := by
  have hown := own_not_fired hj
  -- a tick that does not fire the watch adds no firing, so those seen are the old ones
  have hold : ∀ x ∈ T ++ moments tk.nowMs (own.map fun x => (q, x)), Fired idx x → x ∈ T := by
    intro x hx hf
    rcases List.mem_append.mp hx with hx | hx
    · exact hx
    · exact absurd hf (hown x hx)
  refine ⟨by rw [hprog]; exact h.watch, hfresh, hsince, ?_, ?_, ?_, ?_, ?_⟩
  · intro hl hr x hx hf
    rw [hwatch] at hr
    exact h.oneShot hl (settle_retired hr) x (hold x hx hf) hf
  · intro hl
    have hzero : (moments tk.nowMs (own.map fun x => (q, x))).countP
        (fun x => decide (Fired idx x)) = 0 :=
      List.countP_eq_zero.mpr fun x hx => by simpa using hown x hx
    rw [List.countP_append, hzero]
    exact h.once hl
  · exact h.spaced.append_unmarked hown
  · intro m mid hlast
    obtain ⟨mid', rfl, hlast'⟩ := hlast.of_append hown
    obtain ⟨htime, hedge⟩ := h.last m mid' hlast'
    rw [hwatch, settle_lastFiredMs]
    refine ⟨htime, ?_⟩
    rcases settle_lastTruthy hj (rp.watch idx) with hs | hs | ⟨x, hx, hf⟩
    · rcases hedge with he | ⟨x, hx, hf⟩
      · exact .inl (hs.trans he)
      · exact .inr ⟨x, List.mem_append_left _ hx, hf⟩
    · exact .inl hs
    · exact .inr ⟨x, List.mem_append_right _ hx, hf⟩
  · exact fun x hx hf => h.timeout x (hold x hx hf) hf

theorem Kept.fired (h : Kept idx w rp T) {t : Bool}
    (hj : Judged tk id q idx w (.judged idx t .fire) own) (hq : q.watch idx = rp.watch idx)
    (hqs : q.runningSinceMs ≠ none) {rp' : RunningProgram} (hprog : rp'.program = rp.program)
    (hwatch : rp'.watch idx =
      afterFire w ((WatchOutcome.judged idx t .fire).settle (rp.watch idx)) tk.nowMs)
    (hfresh : rp'.state = .waiting → rp'.watch idx = {})
    (hsince : rp'.state = .running → rp'.runningSinceMs ≠ none) :
    Kept idx w rp' (T ++ moments tk.nowMs
      ((own.map fun x => (q, x)) ++ [(q, .emitted (.watchFired id idx "watch"))])) := by
  have hown := own_not_fired hj
  have hfires : Fires w (rp.watch idx) t tk.nowMs (q.runningSinceMs.getD tk.nowMs) := by
    generalize ho : WatchOutcome.judged idx t .fire = o at hj
    cases hj with
    | retired | terminated | erred => exact nomatch ho
    | judged hr hp =>
      obtain ⟨-, rfl, hd⟩ := WatchOutcome.judged.inj ho
      rw [← hq]
      exact decideWatch_fire hd.symm
  have hnew : Fired idx (⟨tk.nowMs, some q, .emitted (.watchFired id idx "watch")⟩ : LocalMoment) :=
    rfl
  -- nothing that the tick records before the firing fires, so the last firing is still in `T`
  have hmarks : ∀ m mid, LastMark (Fired idx) (T ++ moments tk.nowMs (own.map fun x => (q, x))) m mid →
      (∃ x ∈ mid, Fell idx x) ∧ (w.throttleMs.toNat : Int) ≤ tk.nowMs - m.nowMs := by
    intro m mid hlast
    obtain ⟨mid', rfl, hlast'⟩ := hlast.of_append hown
    obtain ⟨htime, hedge⟩ := h.last m mid' hlast'
    refine ⟨?_, hfires.throttle _ htime⟩
    rcases hedge with he | ⟨x, hx, hf⟩
    · exact absurd (he.symm.trans hfires.fell) Bool.true_eq_false.mp
    · exact ⟨x, List.mem_append_left _ hx, hf⟩
  have hsplit : T ++ moments tk.nowMs
      ((own.map fun x => (q, x)) ++ [(q, .emitted (.watchFired id idx "watch"))]) =
      T ++ moments tk.nowMs (own.map fun x => (q, x)) ++
        [⟨tk.nowMs, some q, .emitted (.watchFired id idx "watch")⟩] := by
    rw [moments_append, List.append_assoc]
    rfl
  rw [hsplit]
  refine ⟨by rw [hprog]; exact h.watch, hfresh, hsince, ?_, ?_, ?_, ?_, ?_⟩
  · intro hl hr
    rw [hwatch, afterFire, if_pos hl] at hr
    exact nomatch hr
  · intro hl
    -- had a one-shot watch fired, it would be retired by now
    have hnone : ∀ x ∈ T ++ moments tk.nowMs (own.map fun x => (q, x)), ¬ Fired idx x := by
      intro x hx
      rcases List.mem_append.mp hx with hx | hx
      · exact h.oneShot hl hfires.live x hx
      · exact hown x hx
    have hzero : (T ++ moments tk.nowMs (own.map fun x => (q, x))).countP
        (fun x => decide (Fired idx x)) = 0 :=
      List.countP_eq_zero.mpr fun x hx => by simpa using hnone x hx
    rw [List.countP_append, hzero, Nat.zero_add]
    exact List.countP_le_length
  · exact (h.spaced.append_unmarked hown).snoc fun _ => hmarks
  · intro m mid hlast
    obtain ⟨rfl, rfl⟩ := lastMark_snoc hnew hlast
    rw [hwatch]
    exact ⟨rfl, .inl hfires.rose⟩
  · intro x hx hf ms hms
    rcases List.mem_append.mp hx with hx | hx
    · rcases List.mem_append.mp hx with hx | hx
      · exact h.timeout x hx hf ms hms
      · exact absurd hf (hown x hx)
    · obtain ⟨s, hs⟩ := Option.ne_none_iff_exists'.mp hqs
      rw [List.mem_singleton.mp hx]
      refine ⟨q, s, rfl, hs, ?_⟩
      have htime := hfires.intime ms hms
      rwa [hs] at htime

end Step

section Local
variable {σ τ : Type} {B : Backends σ τ} {p : ProgramId} {rp : RunningProgram} {idx : Nat}
  {w : Watch} {T : List LocalMoment} {a : LocalInput σ τ}

def watchTrace (idx : Nat) (T : List LocalMoment) : List LocalMoment :=
  T.filter fun m => m.obs.about idx

theorem watchTrace_append (T U : List LocalMoment) :
    watchTrace idx (T ++ U) = watchTrace idx T ++ watchTrace idx U := List.filter_append _ _

theorem watchTrace_moments (nowMs : UnixMs) (os : List (RunningProgram × Obs)) :
    watchTrace idx (moments nowMs os) = moments nowMs (os.filter fun x => x.2.about idx) := by
  rw [watchTrace, moments, List.filter_map]
  rfl

theorem kept_submitted {program : Program} (assets : Assets) (hw : program.watches[idx]? = some w) :
    Kept idx w (Scheduler.submitted program assets) [] where
  watch := hw
  fresh _ := rfl
  since h := nomatch h
  oneShot _ _ x hx := absurd hx List.not_mem_nil
  once _ := Nat.zero_le 1
  spaced := spaced_nil
  last m mid h := by
    obtain ⟨l, hl⟩ := h.split
    simp at hl
  timeout x hx := absurd hx List.not_mem_nil

theorem kept_resumed {program : Program} (nowMs : UnixMs) (fromStep : Nat) (assets : Assets)
    (hw : program.watches[idx]? = some w) :
    Kept idx w (Scheduler.resumed nowMs fromStep program assets) [] where
  watch := hw
  fresh h := nomatch h
  since _ := Option.some_ne_none _
  oneShot _ _ x hx := absurd hx List.not_mem_nil
  once _ := Nat.zero_le 1
  spaced := spaced_nil
  last m mid h := by
    obtain ⟨l, hl⟩ := h.split
    simp at hl
  timeout x hx := absurd hx List.not_mem_nil

theorem Kept.cancelled (h : Kept idx w rp T) : Kept idx w (cancelled rp) T :=
  { h with
    fresh := fun hs => nomatch hs
    since := fun hs => nomatch hs }

theorem Kept.started (h : Kept idx w rp T) (nowMs : UnixMs) : Kept idx w (started nowMs rp) T :=
  { h with
    fresh := fun hs => nomatch hs
    since := fun _ => Option.some_ne_none _ }

theorem Kept.tick (h : Kept idx w rp T) (tk : Tick) (sur : Surroundings σ τ)
    (loser : Option ProgramId) :
    Kept idx w (tickProgram B tk p sur loser rp).1
      (T ++ watchTrace idx (moments tk.nowMs (tickProgram B tk p sur loser rp).2)) := by
  obtain ⟨hprog, hwaiting, hsince⟩ := tickProgram_frame B tk p rp sur loser
  have hfresh : (tickProgram B tk p sur loser rp).1.state = .waiting →
      (tickProgram B tk p sur loser rp).1.watch idx = {} := by
    intro hs
    have hsame := hwaiting hs
    rw [hsame] at hs ⊢
    exact h.fresh hs
  rw [watchTrace_moments]
  rcases tickProgram_watch B tk p h.watch h.fresh h.since sur loser with
    ⟨hnil, hsame⟩ | ⟨q, hq, hqs, hwt⟩
  · rw [hnil, moments, List.map_nil, List.append_nil]
    exact ⟨by rw [hprog]; exact h.watch, hfresh, hsince h.since, by rw [hsame]; exact h.oneShot,
      h.once, h.spaced, by rw [hsame]; exact h.last, h.timeout⟩
  · generalize hwr : (tickProgram B tk p sur loser rp).1.watch idx = wr at hwt
    generalize (tickProgram B tk p sur loser rp).2.filter (fun x => x.2.about idx) = V at hwt ⊢
    cases hwt with
    | settled hj =>
      exact h.settled hj hprog (by rw [hwr, hq]) hfresh (hsince h.since)
    | fired hj =>
      exact h.fired hj hq hqs hprog (by rw [hwr, hq]) hfresh (hsince h.since)

theorem localStep_kept (h : Kept idx w rp T) (hi : ¬ a.input.inserts p) :
    ∃ rp', (localStep B p (some rp) a).1 = some rp' ∧
      Kept idx w rp' (T ++ watchTrace idx (localStep B p (some rp) a).2) := by
  have hnil : T ++ watchTrace idx [] = T := List.append_nil T
  have hmove := localStep_move (B := B) (p := p) (some rp) a
  generalize localStep B p (some rp) a = r at hmove ⊢
  cases hmove with
  | idle =>
    rw [hnil]
    exact ⟨rp, rfl, h⟩
  | submitted _ _ _ ha | resumed _ _ _ _ ha => exact absurd (ha ▸ rfl) hi
  | cancelled _ reason nowMs hv =>
    obtain rfl := Option.some.inj hv
    refine ⟨_, rfl, ?_⟩
    show Kept idx w (cancelled rp) (T ++ watchTrace idx [])
    rw [hnil]
    exact h.cancelled
  | started _ nowMs hv =>
    obtain rfl := Option.some.inj hv
    refine ⟨_, rfl, ?_⟩
    show Kept idx w (started nowMs rp) (T ++ watchTrace idx [])
    rw [hnil]
    exact h.started nowMs
  | ticked _ t frame hv =>
    obtain rfl := Option.some.inj hv
    exact ⟨_, rfl, h.tick ⟨frame, t.nowMs⟩ a.sur a.loser⟩

theorem run_kept {as : List (LocalInput σ τ)} (h : Kept idx w rp T)
    (hi : ∀ a ∈ as, ¬ a.input.inserts p) :
    ∃ rp', (run (localStep B p) (some rp) as).1 = some rp' ∧
      Kept idx w rp' (T ++ watchTrace idx (run (localStep B p) (some rp) as).2) := by
  have hstep : ∀ (v : Option RunningProgram) (H : List LocalMoment), ∀ a ∈ as,
      (∃ rp', v = some rp' ∧ Kept idx w rp' (T ++ watchTrace idx H)) →
      ∃ rp', (localStep B p v a).1 = some rp' ∧
        Kept idx w rp' (T ++ watchTrace idx (H ++ (localStep B p v a).2)) := by
    rintro v H a ha ⟨rp, rfl, hk⟩
    obtain ⟨rp', hrp', hk'⟩ := localStep_kept (B := B) hk (hi a ha)
    refine ⟨rp', hrp', ?_⟩
    rw [watchTrace_append, ← List.append_assoc]
    exact hk'
  have hrun := run_history hstep (h := []) ⟨rp, rfl, by
    rw [watchTrace, List.filter_nil, List.append_nil]
    exact h⟩
  rwa [List.nil_append] at hrun

theorem localStep_program {v : Option RunningProgram} (hi : ¬ a.input.inserts p) :
    (localStep B p v a).1.map RunningProgram.program = v.map RunningProgram.program := by
  have hmove := localStep_move (B := B) (p := p) v a
  generalize localStep B p v a = r at hmove ⊢
  cases hmove with
  | idle => rfl
  | submitted _ _ _ ha | resumed _ _ _ _ ha => exact absurd (ha ▸ rfl) hi
  | cancelled _ _ _ hv | started _ _ hv =>
    rw [hv]
    rfl
  | ticked rp t frame hv =>
    rw [hv, Option.map_some, (tickProgram_frame B ⟨frame, t.nowMs⟩ p rp a.sur a.loser).1]
    rfl

theorem run_program {v : Option RunningProgram} {as : List (LocalInput σ τ)}
    (hi : ∀ a ∈ as, ¬ a.input.inserts p) :
    (run (localStep B p) v as).1.map RunningProgram.program = v.map RunningProgram.program :=
  run_invariant
    (I := fun u : Option RunningProgram =>
      u.map RunningProgram.program = v.map RunningProgram.program)
    (fun _ a ha h => (localStep_program (hi a ha)).trans h) rfl

theorem localStep_inserts (idx : Nat) (hi : a.input.inserts p) {v : Option RunningProgram} :
    ∃ rp, (localStep B p v a).1 = some rp ∧ watchTrace idx (localStep B p v a).2 = [] ∧
      ∀ w, rp.program.watches[idx]? = some w → Kept idx w rp [] := by
  have hmove := localStep_move (B := B) (p := p) v a
  generalize localStep B p v a = r at hmove ⊢
  cases hmove with
  | idle hnot => exact absurd hi hnot
  | submitted program assets => exact ⟨_, rfl, rfl, fun w hw => kept_submitted assets hw⟩
  | resumed fromStep program assets nowMs =>
    exact ⟨_, rfl, rfl, fun w hw => kept_resumed nowMs fromStep assets hw⟩
  | cancelled _ _ _ _ ha | started _ _ _ ha | ticked _ _ _ _ ha =>
    rw [ha] at hi
    exact hi.elim

theorem run_kept_of_once {as : List (LocalInput σ τ)}
    (hone : as.countP (fun a => decide (a.input.inserts p)) ≤ 1)
    (hrp : (run (localStep B p) none as).1 = some rp)
    (hw : rp.program.watches[idx]? = some w) :
    Kept idx w rp (watchTrace idx (run (localStep B p) none as).2) := by
  induction as with
  | nil => exact nomatch hrp
  | cons a as ih =>
    by_cases ha : a.input.inserts p
    · have hrest : ∀ b ∈ as, ¬ b.input.inserts p := by
        have hzero : as.countP (fun a => decide (a.input.inserts p)) = 0 := by
          rw [List.countP_cons, if_pos (decide_eq_true ha)] at hone
          omega
        intro b hb hins
        exact List.countP_eq_zero.mp hzero b hb (decide_eq_true hins)
      obtain ⟨rp₀, hrp₀, htrace, hkept⟩ := localStep_inserts (B := B) idx (v := none) ha
      rw [run_cons, hrp₀] at hrp ⊢
      have hprog : rp.program = rp₀.program := by
        have hmap := run_program (B := B) (v := some rp₀) hrest
        rw [show (run (localStep B p) (some rp₀) as).1 = some rp from hrp] at hmap
        exact Option.some.inj hmap
      obtain ⟨rp', hrp', hk⟩ := run_kept (B := B) (hkept w (hprog ▸ hw)) hrest
      obtain rfl : rp' = rp := Option.some.inj (hrp'.symm.trans hrp)
      rwa [watchTrace_append, htrace]
    · rw [List.countP_cons, if_neg (by simpa using ha)] at hone
      rw [run_cons, localStep_absent ha] at hrp ⊢
      exact ih hone hrp

def Terminated (idx : Nat) (o : Obs) : Prop :=
  ∃ i r, o = .perceived i (.until idx) (.ok r) ∧ r.truthy = true

section WatchTick
variable {tk : Tick} {q : RunningProgram} {wr : WatchRuntime} {V : List (RunningProgram × Obs)}
  {o : WatchOutcome} {own : List Obs}

theorem settled_not_fired (h : Judged tk p q idx w o own) :
    ∀ x ∈ own.map fun x => (q, x), x.2.firedWatch = none := by
  intro x hx
  obtain ⟨y, hy, rfl⟩ := List.mem_map.mp hx
  exact Obs.firedWatch_of_watchOf (h.watchOf.1 y hy)

theorem WatchTick.of_retired (h : WatchTick tk p q idx w wr V)
    (hr : (q.watch idx).retired = true) :
    wr.retired = true ∧ ∀ x ∈ V, x.2.firedWatch = none := by
  cases h with
  | @settled o own hj =>
    refine ⟨?_, settled_not_fired hj⟩
    by_contra hne
    have hfalse := settle_retired (Bool.not_eq_true _ ▸ hne)
    exact nomatch hr.symm.trans hfalse
  | @fired t own hj =>
    generalize ho : WatchOutcome.judged idx t .fire = o at hj
    cases hj with
    | retired | terminated | erred => exact nomatch ho
    | judged hr' => exact nomatch hr.symm.trans hr'

theorem Judged.of_terminated (h : Judged tk p q idx w o own) {x : Obs} (hx : x ∈ own)
    (ht : Terminated idx x) : o = .terminated idx := by
  obtain ⟨i, r, rfl, htr⟩ := ht
  have hpass : ∀ {pre : List Obs}, Passed p idx w.lifetime pre →
      .perceived i (.until idx) (.ok r) ∉ pre := by
    intro pre hp hmem
    obtain ⟨r', heq, hfalse⟩ := hp.of_mem hmem
    obtain ⟨-, -, rfl⟩ := Obs.perceived.inj heq
    exact nomatch htr.symm.trans (hfalse r rfl)
  cases h with
  | retired => exact absurd hx List.not_mem_nil
  | terminated => rfl
  | erred hr hp =>
    rcases List.mem_append.mp hx with hx | hx
    · exact absurd hx (hpass hp)
    · simp at hx
  | judged hr hp =>
    rcases List.mem_append.mp hx with hx | hx
    · exact absurd hx (hpass hp)
    · simp at hx

theorem WatchTick.of_terminated (h : WatchTick tk p q idx w wr V) {x : RunningProgram × Obs}
    (hx : x ∈ V) (ht : Terminated idx x.2) :
    wr.retired = true ∧ ∀ y ∈ V, y.2.firedWatch = none := by
  cases h with
  | @settled o own hj =>
    refine ⟨?_, settled_not_fired hj⟩
    obtain ⟨y, hy, rfl⟩ := List.mem_map.mp hx
    rw [hj.of_terminated hy ht]
    rfl
  | @fired t own hj =>
    rcases List.mem_append.mp hx with hx | hx
    · obtain ⟨y, hy, rfl⟩ := List.mem_map.mp hx
      exact nomatch hj.of_terminated hy ht
    · rw [List.mem_singleton.mp hx] at ht
      obtain ⟨_, _, heq, _⟩ := ht
      exact nomatch heq

theorem WatchTick.of_lost (h : WatchTick tk p q idx w wr V) {x : RunningProgram × Obs}
    {i : ProgramId} {j : Nat} (hx : x ∈ V) (hd : x.2 = .decided i j .fire)
    (hno : ∀ y ∈ V, y.2.firedWatch = none) :
    wr.lastFiredMs = (q.watch idx).lastFiredMs ∧ wr.retired = (q.watch idx).retired := by
  cases h with
  | @settled o own hj =>
    obtain ⟨y, hy, rfl⟩ := List.mem_map.mp hx
    have hmem : Obs.decided i j .fire ∈ own := hd ▸ hy
    obtain ⟨r, rfl, _, _⟩ := hj.of_decided hmem
    exact ⟨rfl, rfl⟩
  | @fired t own hj =>
    have hlast := hno _ (List.mem_append_right _ List.mem_cons_self)
    exact nomatch hlast

end WatchTick

theorem localStep_watch (h : Kept idx w rp T) (hi : ¬ a.input.inserts p) :
    ∃ rp', (localStep B p (some rp) a).1 = some rp' ∧
      ((watchTrace idx (localStep B p (some rp) a).2 = [] ∧ rp'.watch idx = rp.watch idx) ∨
        ∃ tk q V, q.watch idx = rp.watch idx ∧ WatchTick tk p q idx w (rp'.watch idx) V ∧
          watchTrace idx (localStep B p (some rp) a).2 = moments tk.nowMs V) := by
  have hmove := localStep_move (B := B) (p := p) (some rp) a
  generalize localStep B p (some rp) a = r at hmove ⊢
  cases hmove with
  | idle => exact ⟨rp, rfl, .inl ⟨rfl, rfl⟩⟩
  | submitted _ _ _ ha | resumed _ _ _ _ ha => exact absurd (ha ▸ rfl) hi
  | cancelled _ _ _ hv | started _ _ hv =>
    obtain rfl := Option.some.inj hv
    exact ⟨_, rfl, .inl ⟨rfl, rfl⟩⟩
  | ticked _ t frame hv =>
    obtain rfl := Option.some.inj hv
    refine ⟨_, rfl, ?_⟩
    rcases tickProgram_watch B ⟨frame, t.nowMs⟩ p h.watch h.fresh h.since a.sur a.loser with
      ⟨hnil, hsame⟩ | ⟨q, hq, _, hwt⟩
    · refine .inl ⟨?_, hsame⟩
      rw [watchTrace_moments, hnil]
      rfl
    · exact .inr ⟨_, q, _, hq, hwt, watchTrace_moments _ _⟩

theorem mem_watchTrace {m : LocalMoment} :
    m ∈ watchTrace idx T ↔ m ∈ T ∧ (m.obs.watchOf = some idx ∨ m.obs.firedWatch = some idx) := by
  rw [watchTrace, List.mem_filter, Obs.about, decide_eq_true_iff]

theorem not_fired_of_moments (nowMs : UnixMs) {V : List (RunningProgram × Obs)}
    (hV : ∀ x ∈ V, x.2.firedWatch = none) (h : watchTrace idx T = moments nowMs V) :
    ∀ m ∈ T, ¬ Fired idx m := by
  intro m hm hf
  have hmem := mem_watchTrace.mpr ⟨hm, .inr hf⟩
  rw [h] at hmem
  obtain ⟨x, hx, rfl⟩ := List.mem_map.mp hmem
  exact nomatch (hV x hx).symm.trans hf

theorem localStep_retired (h : Kept idx w rp T) (hi : ¬ a.input.inserts p)
    (hr : (rp.watch idx).retired = true) :
    (∀ m ∈ (localStep B p (some rp) a).2, ¬ Fired idx m) ∧
      ∀ rp', (localStep B p (some rp) a).1 = some rp' → (rp'.watch idx).retired = true := by
  obtain ⟨rp₁, hrp₁, ⟨hnil, hsame⟩ | ⟨tk, q, V, hq, hwt, hV⟩⟩ := localStep_watch (B := B) h hi
  · refine ⟨not_fired_of_moments 0 (V := []) (fun x hx => absurd hx List.not_mem_nil) hnil, ?_⟩
    intro rp' hrp'
    obtain rfl := Option.some.inj (hrp₁.symm.trans hrp')
    rw [hsame]
    exact hr
  · obtain ⟨hret, hno⟩ := hwt.of_retired (by rw [hq]; exact hr)
    refine ⟨not_fired_of_moments _ hno hV, ?_⟩
    intro rp' hrp'
    obtain rfl := Option.some.inj (hrp₁.symm.trans hrp')
    exact hret

theorem run_retired {as : List (LocalInput σ τ)} (h : Kept idx w rp T)
    (hi : ∀ a ∈ as, ¬ a.input.inserts p) (hr : (rp.watch idx).retired = true) :
    ∀ m ∈ (run (localStep B p) (some rp) as).2, ¬ Fired idx m := by
  induction as generalizing rp T with
  | nil => exact fun m hm => absurd hm List.not_mem_nil
  | cons a as ih =>
    have ha := hi a List.mem_cons_self
    obtain ⟨hno, hret⟩ := localStep_retired (B := B) h ha hr
    obtain ⟨rp₁, hrp₁, h₁⟩ := localStep_kept (B := B) h ha
    intro m hm
    rw [run_cons, hrp₁] at hm
    rcases List.mem_append.mp hm with hm | hm
    · exact hno m hm
    · exact ih h₁ (fun b hb => hi b (List.mem_cons_of_mem _ hb)) (hret rp₁ hrp₁) m hm

theorem localStep_terminated (h : Kept idx w rp T) (hi : ¬ a.input.inserts p) {x : LocalMoment}
    (hx : x ∈ (localStep B p (some rp) a).2) (ht : Terminated idx x.obs) :
    (∀ m ∈ (localStep B p (some rp) a).2, ¬ Fired idx m) ∧
      ∀ rp', (localStep B p (some rp) a).1 = some rp' → (rp'.watch idx).retired = true := by
  have hmem : x ∈ watchTrace idx (localStep B p (some rp) a).2 := by
    obtain ⟨i, r, hobs, _⟩ := ht
    exact mem_watchTrace.mpr ⟨hx, .inl (by rw [hobs]; rfl)⟩
  obtain ⟨rp₁, hrp₁, ⟨hnil, _⟩ | ⟨tk, q, V, hq, hwt, hV⟩⟩ := localStep_watch (B := B) h hi
  · rw [hnil] at hmem
    exact absurd hmem List.not_mem_nil
  · rw [hV] at hmem
    obtain ⟨y, hy, rfl⟩ := List.mem_map.mp hmem
    obtain ⟨hret, hno⟩ := hwt.of_terminated hy ht
    refine ⟨not_fired_of_moments _ hno hV, ?_⟩
    intro rp' hrp'
    obtain rfl := Option.some.inj (hrp₁.symm.trans hrp')
    exact hret

theorem localStep_deferral {v : Option RunningProgram} {y : LocalMoment}
    (hy : y ∈ (localStep B p v a).2) (hdef : y.obs.isDeferral = true) :
    ∀ m ∈ (localStep B p v a).2, m.obs.firedWatch = none := by
  have hmove := localStep_move (B := B) (p := p) v a
  generalize localStep B p v a = r at hmove hy ⊢
  cases hmove with
  | idle => exact absurd hy List.not_mem_nil
  | submitted | resumed =>
    rcases List.mem_cons.mp hy with rfl | hy
    · exact nomatch hdef
    · rw [List.mem_singleton.mp hy] at hdef
      exact nomatch hdef
  | cancelled | started =>
    rw [List.mem_singleton.mp hy] at hdef
    exact nomatch hdef
  | ticked =>
    obtain ⟨x, hx, rfl⟩ := List.mem_map.mp hy
    intro m hm
    obtain ⟨z, hz, rfl⟩ := List.mem_map.mp hm
    exact tickProgram_deferral hx hdef z hz

theorem localStep_lost (h : Kept idx w rp T) (hi : ¬ a.input.inserts p) {x y : LocalMoment}
    {i : ProgramId} (hx : x ∈ (localStep B p (some rp) a).2) (hd : x.obs = .decided i idx .fire)
    (hy : y ∈ (localStep B p (some rp) a).2) (hdef : y.obs.isDeferral = true) {rp' : RunningProgram}
    (hrp' : (localStep B p (some rp) a).1 = some rp') :
    (rp'.watch idx).lastFiredMs = (rp.watch idx).lastFiredMs ∧
      (rp'.watch idx).retired = (rp.watch idx).retired := by
  have hno := localStep_deferral hy hdef
  have hmem : x ∈ watchTrace idx (localStep B p (some rp) a).2 :=
    mem_watchTrace.mpr ⟨hx, .inl (by rw [hd]; rfl)⟩
  obtain ⟨rp₁, hrp₁, ⟨hnil, _⟩ | ⟨tk, q, V, hq, hwt, hV⟩⟩ := localStep_watch (B := B) h hi
  · rw [hnil] at hmem
    exact absurd hmem List.not_mem_nil
  · obtain rfl := Option.some.inj (hrp₁.symm.trans hrp')
    have hVno : ∀ z ∈ V, z.2.firedWatch = none := by
      intro z hz
      have hzmem : (⟨tk.nowMs, some z.1, z.2⟩ : LocalMoment) ∈
          watchTrace idx (localStep B p (some rp) a).2 := by
        rw [hV]
        exact List.mem_map_of_mem hz
      exact hno _ (mem_watchTrace.mp hzmem).1
    rw [hV] at hmem
    obtain ⟨z, hz, rfl⟩ := List.mem_map.mp hmem
    rw [← hq]
    exact hwt.of_lost hz hd hVno

end Local

section Global
variable {p : ProgramId} {idx : Nat} {ms : List (Moment ProgramMap)} {m : Moment ProgramMap}

def Moment.FiredFor (p : ProgramId) (idx : Nat) (m : Moment ProgramMap) : Prop :=
  m.obs.subject = some p ∧ m.obs.firedWatch = some idx

def Moment.FellFor (p : ProgramId) (idx : Nat) (m : Moment ProgramMap) : Prop :=
  ∃ r, m.obs = .perceived p (.watch idx) (.ok r) ∧ r.truthy = false

instance (p : ProgramId) (idx : Nat) : DecidablePred (Moment.FiredFor p idx) := fun m =>
  inferInstanceAs (Decidable (m.obs.subject = some p ∧ m.obs.firedWatch = some idx))

theorem Moment.FiredFor.mem (h : m.FiredFor p idx) (hm : m ∈ ms) :
    m.of p ∈ traceOf p ms ∧ Fired idx (m.of p) := ⟨mem_traceOf.mpr ⟨m, hm, h.1, rfl⟩, h.2⟩

theorem watchTrace_cons (h : m.FiredFor p idx) (ms : List (Moment ProgramMap)) :
    watchTrace idx (traceOf p (m :: ms)) = m.of p :: watchTrace idx (traceOf p ms) := by
  have habout : (m.of p).obs.about idx = true := decide_eq_true (.inr h.2)
  rw [traceOf_cons h.1, watchTrace, List.filter_cons, if_pos habout, watchTrace]

theorem spaced_of_local {w : Watch}
    (h : Spaced (Fired idx) (Fell idx) (Throttled w) (watchTrace idx (traceOf p ms))) :
    Spaced (Moment.FiredFor p idx) (Moment.FellFor p idx)
      (fun m n => (w.throttleMs.toNat : Int) ≤ n.nowMs - m.nowMs) ms := by
  intro l m mid n r heq hm hn hmid
  have hlocal := h (watchTrace idx (traceOf p l)) (m.of p) (watchTrace idx (traceOf p mid)) (n.of p)
    (watchTrace idx (traceOf p r)) (by
      rw [heq, traceOf_append, watchTrace_append, watchTrace_cons hm, traceOf_append,
        watchTrace_append, watchTrace_cons hn]) hm.2 hn.2 ?_
  · obtain ⟨⟨x, hx, i, res, hobs, hfalse⟩, hthr⟩ := hlocal
    obtain ⟨y, hy, hsub, rfl⟩ := mem_traceOf.mp (mem_watchTrace.mp hx).1
    have hyobs : y.obs = .perceived i (.watch idx) (.ok res) := hobs
    obtain rfl : i = p := by
      rw [hyobs] at hsub
      exact Option.some.inj hsub
    exact ⟨⟨y, hy, res, hyobs, hfalse⟩, hthr⟩
  · intro x hx hf
    obtain ⟨y, hy, hsub, rfl⟩ := mem_traceOf.mp (mem_watchTrace.mp hx).1
    exact hmid y hy ⟨hsub, hf⟩

theorem countP_of_local : ms.countP (fun m => decide (m.FiredFor p idx)) =
    (watchTrace idx (traceOf p ms)).countP (fun m => decide (Fired idx m)) := by
  rw [watchTrace, traceOf, List.countP_filter, List.countP_map, List.countP_filter]
  apply List.countP_congr
  intro m _
  constructor
  · intro h
    have hf : m.FiredFor p idx := of_decide_eq_true h
    have hlocal : decide (Fired idx (m.of p)) = true := decide_eq_true hf.2
    have habout : (m.of p).obs.about idx = true := decide_eq_true (.inr hf.2)
    have hmine : Moment.mine p m = true := decide_eq_true hf.1
    simp only [Function.comp_apply, hlocal, habout, hmine, Bool.and_self]
  · intro h
    rw [Bool.and_eq_true, Function.comp_apply, Bool.and_eq_true] at h
    exact decide_eq_true ⟨of_decide_eq_true h.2, of_decide_eq_true h.1.1⟩

end Global

namespace Scheduler

variable {σ τ : Type}

structure Disciplined (B : Backends σ τ) (env : Env σ τ) (is : List Input) (p : ProgramId)
    (idx : Nat) (w : Watch) : Prop where
  oneShot : w.lifetime = .oneShot →
    (run (step B) (new env) is).2.countP (fun m => decide (m.FiredFor p idx)) ≤ 1
  spaced : Spaced (Moment.FiredFor p idx) (Moment.FellFor p idx)
    (fun m n => (w.throttleMs.toNat : Int) ≤ n.nowMs - m.nowMs) (run (step B) (new env) is).2
  retired : ∀ pre suf q, is = pre ++ suf →
    (run (step B) (new env) pre).1.programs.lookup p = some q → (q.watch idx).retired = true →
    ∀ m ∈ (run (step B) (run (step B) (new env) pre).1 suf).2, ¬ m.FiredFor p idx
  timeout : ∀ ms, w.lifetime = .timeoutMs ms → ∀ m ∈ (run (step B) (new env) is).2,
    m.FiredFor p idx → ∃ q t, m.live.lookup p = some q ∧ q.runningSinceMs = some t ∧
      m.nowMs - t < ms.toNat
  terminated : ∀ pre i suf, is = pre ++ i :: suf →
    (∃ m ∈ (step B (run (step B) (new env) pre).1 i).2, m.obs.subject = some p ∧
      Terminated idx m.obs) →
    ∀ m ∈ (run (step B) (run (step B) (new env) pre).1 (i :: suf)).2, ¬ m.FiredFor p idx
  lost : ∀ pre i suf q q', is = pre ++ i :: suf →
    (∃ m ∈ (step B (run (step B) (new env) pre).1 i).2, m.obs = .decided p idx .fire) →
    (∃ m ∈ (step B (run (step B) (new env) pre).1 i).2, ∃ st reason,
      m.obs = .emitted (.actionDeferred p st reason)) →
    (run (step B) (new env) pre).1.programs.lookup p = some q →
    (step B (run (step B) (new env) pre).1 i).1.programs.lookup p = some q' →
    (q'.watch idx).lastFiredMs = (q.watch idx).lastFiredMs ∧
      (q'.watch idx).retired = (q.watch idx).retired

variable {B : Backends σ τ} {env : Env σ τ} {is : List Input} {p : ProgramId} {idx : Nat} {w : Watch}
  {rp : RunningProgram}

theorem countP_inputs (as : List (LocalInput σ τ)) :
    as.countP (fun a => decide (a.input.inserts p)) =
      (as.map LocalInput.input).countP (fun i => decide (i.inserts p)) := by
  rw [List.countP_map]
  rfl

theorem kept_of_once (hone : is.countP (fun i => decide (i.inserts p)) ≤ 1)
    (hrp : (run (step B) (new env) is).1.programs.lookup p = some rp)
    (hw : rp.program.watches[idx]? = some w) :
    Kept idx w rp (watchTrace idx (traceOf p (run (step B) (new env) is).2)) := by
  obtain ⟨as, has, hlook, htrace⟩ := run_project (B := B) (p := p) (new env) is
  rw [htrace]
  apply run_kept_of_once _ (hlook.symm.trans hrp) hw
  rw [countP_inputs, has]
  exact hone

theorem countP_pos_of_lookup (hrp : (run (step B) (new env) is).1.programs.lookup p = some rp) :
    1 ≤ is.countP (fun i => decide (i.inserts p)) := by
  by_contra hlt
  have hzero : is.countP (fun i => decide (i.inserts p)) = 0 := by omega
  obtain ⟨as, has, hlook, _⟩ := run_project (B := B) (p := p) (new env) is
  have hnone : (run (localStep B p) none as).1 = none := by
    refine run_invariant (I := fun v => v = none) ?_ rfl
    rintro v a ha rfl
    rw [localStep_absent]
    intro hins
    refine List.countP_eq_zero.mp hzero a.input ?_ (decide_eq_true hins)
    rw [← has]
    exact List.mem_map_of_mem ha
  exact nomatch hrp.symm.trans (hlook.trans hnone)

theorem kept_at (hone : is.countP (fun i => decide (i.inserts p)) ≤ 1)
    (hrp : (run (step B) (new env) is).1.programs.lookup p = some rp)
    (hw : rp.program.watches[idx]? = some w) {pre suf : List Input} (hsplit : is = pre ++ suf)
    {q : RunningProgram} (hq : (run (step B) (new env) pre).1.programs.lookup p = some q) :
    Kept idx w q (watchTrace idx (traceOf p (run (step B) (new env) pre).2)) ∧
      ∀ i ∈ suf, ¬ i.inserts p := by
  have hpos := countP_pos_of_lookup hq
  rw [hsplit, List.countP_append] at hone
  have hsuf : ∀ i ∈ suf, ¬ i.inserts p := by
    have hzero : suf.countP (fun i => decide (i.inserts p)) = 0 := by omega
    exact fun i hi hins => List.countP_eq_zero.mp hzero i hi (decide_eq_true hins)
  refine ⟨kept_of_once (by omega) hq ?_, hsuf⟩
  obtain ⟨as, has, hlocal, _⟩ := run_project (B := B) (p := p) (run (step B) (new env) pre).1 suf
  have hprog : (run (localStep B p) (some q) as).1.map RunningProgram.program = some q.program :=
    run_program fun a ha => hsuf a.input (has ▸ List.mem_map_of_mem ha)
  have hlook : (run (step B) (run (step B) (new env) pre).1 suf).1.programs.lookup p = some rp := by
    rw [hsplit, run_append] at hrp
    exact hrp
  rw [← hq, ← hlocal, hlook] at hprog
  rw [← Option.some.inj hprog]
  exact hw

theorem lookup_of_watchOf {s : Scheduler σ τ} {i : Input} {m : Moment ProgramMap}
    (hm : m ∈ (step B s i).2) (hsub : m.obs.subject = some p) (hw : m.obs.watchOf = some idx) :
    ∃ q, s.programs.lookup p = some q := by
  obtain ⟨a, _, _, htrace⟩ := step_project (B := B) (s := s) (p := p) i
  cases hl : s.programs.lookup p with
  | some q => exact ⟨q, rfl⟩
  | none =>
    have hmem : m.of p ∈ watchTrace idx (localStep B p none a).2 := by
      rw [hl] at htrace
      rw [← htrace]
      exact mem_watchTrace.mpr ⟨mem_traceOf.mpr ⟨m, hm, hsub, rfl⟩, .inl hw⟩
    by_cases hins : a.input.inserts p
    · obtain ⟨_, _, hnil, _⟩ := localStep_inserts (B := B) idx (v := none) hins
      rw [hnil] at hmem
      exact absurd hmem List.not_mem_nil
    · rw [localStep_absent hins] at hmem
      exact absurd hmem List.not_mem_nil

/-- The firing discipline holds for every watch of a program that is inserted once, whatever
the commands, the ticks and the clock. -/
theorem watch_discipline (B : Backends σ τ) (env : Env σ τ) (is : List Input) (p : ProgramId)
    (hone : is.countP (fun i => decide (i.inserts p)) ≤ 1) (rp : RunningProgram)
    (hrp : (run (step B) (new env) is).1.programs.lookup p = some rp) (idx : Nat) (w : Watch)
    (hw : rp.program.watches[idx]? = some w) : Disciplined B env is p idx w := by
  have hkept := kept_of_once hone hrp hw
  refine ⟨?_, spaced_of_local hkept.spaced, ?_, ?_, ?_, ?_⟩
  · intro hl
    rw [countP_of_local]
    exact hkept.once hl
  · intro pre suf q hsplit hq hret m hm hf
    obtain ⟨hk, hsuf⟩ := kept_at hone hrp hw hsplit hq
    obtain ⟨as, has, _, htrace⟩ := run_project (B := B) (p := p) (run (step B) (new env) pre).1 suf
    have hmem := (hf.mem hm).1
    rw [htrace, hq] at hmem
    exact run_retired hk (fun a ha => hsuf a.input (has ▸ List.mem_map_of_mem ha)) hret _ hmem
      hf.2
  · intro ms hl m hm hf
    have hmem := mem_watchTrace.mpr ⟨(hf.mem hm).1, .inr hf.2⟩
    exact hkept.timeout _ hmem hf.2 ms hl
  -- by the terminator the watch is retired, and a watch that is retired does not fire again
  · rintro pre i suf hsplit ⟨m, hm, hsub, hterm⟩ n hn hf
    have hwo : m.obs.watchOf = some idx := by
      obtain ⟨j, r, hobs, _⟩ := hterm
      rw [hobs]
      rfl
    obtain ⟨q, hq⟩ := lookup_of_watchOf hm hsub hwo
    obtain ⟨hk, hsuf⟩ := kept_at hone hrp hw hsplit hq
    obtain ⟨a, ha, hlook, htrace⟩ := step_project (B := B)
      (s := (run (step B) (new env) pre).1) (p := p) i
    rw [hq] at hlook htrace
    have hi : ¬ a.input.inserts p := ha ▸ hsuf i List.mem_cons_self
    have hmem : m.of p ∈ (localStep B p (some q) a).2 :=
      htrace ▸ mem_traceOf.mpr ⟨m, hm, hsub, rfl⟩
    obtain ⟨hno, hret⟩ := localStep_terminated hk hi hmem hterm
    obtain ⟨q', hq', hk'⟩ := localStep_kept (B := B) hk hi
    rcases List.mem_append.mp hn with hn | hn
    · -- in the tick of the terminator itself
      have hnmem := (hf.mem hn).1
      rw [htrace] at hnmem
      exact hno _ hnmem hf.2
    · obtain ⟨as, has, _, htraces⟩ := run_project (B := B) (p := p)
        (step B (run (step B) (new env) pre).1 i).1 suf
      have hnmem := (hf.mem hn).1
      rw [htraces, hlook, hq'] at hnmem
      exact run_retired hk' (fun b hb => hsuf b.input (List.mem_cons_of_mem _
        (has ▸ List.mem_map_of_mem hb))) (hret q' hq') _ hnmem hf.2
  · rintro pre i suf q q' hsplit ⟨m, hm, hobs⟩ ⟨n, hn, st, reason, hnobs⟩ hq hq'
    obtain ⟨hk, hsuf⟩ := kept_at hone hrp hw hsplit hq
    obtain ⟨a, ha, hlook, htrace⟩ := step_project (B := B)
      (s := (run (step B) (new env) pre).1) (p := p) i
    rw [hq] at hlook htrace
    have hi : ¬ a.input.inserts p := ha ▸ hsuf i List.mem_cons_self
    have hmmem : m.of p ∈ (localStep B p (some q) a).2 :=
      htrace ▸ mem_traceOf.mpr ⟨m, hm, by rw [hobs]; rfl, rfl⟩
    have hnmem : n.of p ∈ (localStep B p (some q) a).2 :=
      htrace ▸ mem_traceOf.mpr ⟨n, hn, by rw [hnobs]; rfl, rfl⟩
    -- a program that is deferred in a tick fires none of its watches in it
    have hdef : (n.of p).obs.isDeferral = true := by
      rw [show (n.of p).obs = n.obs from rfl, hnobs]
      rfl
    exact localStep_lost hk hi hmmem hobs hnmem hdef (hlook.symm.trans hq')

theorem watch_discipline_one_shot :
    (∃ m ∈ (run (step (Backends.constant (.ok ⟨true, none, 0⟩))) (new ⟨(), ()⟩)
        (risingRun [⟨.byName "x", [], 0, .oneShot⟩])).2, m.FiredFor ⟨1⟩ 0) ∧
    Disciplined (Backends.constant (.ok ⟨true, none, 0⟩)) ⟨(), ()⟩
      (risingRun [⟨.byName "x", [], 0, .oneShot⟩]) ⟨1⟩ 0 ⟨.byName "x", [], 0, .oneShot⟩ := by
  constructor
  · exact ⟨_, .tail _ (.tail _ (.tail _ (.tail _ (.tail _ (.head _))))), rfl, rfl⟩
  · exact watch_discipline _ _ _ _ (by decide) _ rfl _ _ rfl

end Scheduler

end Vcli

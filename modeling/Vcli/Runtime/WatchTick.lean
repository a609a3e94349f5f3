import Vcli.Runtime.Firing

/-! One tick seen by one watch: of everything the tick records, its own evaluation and at
most one firing concern it, and its bookkeeping moves accordingly. -/

namespace Vcli

def Obs.about (idx : Nat) (o : Obs) : Bool :=
  decide (o.watchOf = some idx ∨ o.firedWatch = some idx)

theorem Obs.In.no_event {part : Part} {id : ProgramId} {o : Obs} (h : o.In part id) :
    o.firedWatch = none ∧ o.isDeferral = false := by
  match o, h with
  | perceived .., _ | decided .., _ | called .., _ | emitted (.actionDispatched ..), _ =>
    exact ⟨rfl, rfl⟩

theorem Obs.Silent.not_about {o : Obs} (h : o.Silent) (idx : Nat) : o.about idx = false := by
  simp [Obs.about, h.1, h.2.1]

theorem SilentAll.filter_about {os : List (RunningProgram × Obs)} (h : SilentAll os) (idx : Nat) :
    os.filter (fun x => x.2.about idx) = [] := by
  rw [List.filter_eq_nil_iff]
  intro x hx
  rw [(h x hx).not_about idx]
  exact Bool.false_ne_true

section Frames
variable {σ τ : Type} (B : Backends σ τ) (tk : Tick) (id : ProgramId) (rp : RunningProgram)

theorem bodyProgram_frame (env : Env σ τ) : ∃ st c b,
    (bodyProgram B tk id rp env).1 = { rp with state := st, bodyCursor := c, bodyState := b } := by
  have hbody := bodyProgram_run B tk id rp env
  generalize bodyProgram B tk id rp env = x at hbody ⊢
  cases hbody with
  | inert | kept | completed | failed => exact ⟨_, _, _, rfl⟩

theorem firePart_frame (env : Env σ τ) (loser : Option ProgramId) (e : ProgEval) :
    ∃ st, (firePart B tk id env loser e rp).1 = { rp with state := st } := by
  have h := firePart_dispatched B tk id env rp loser e
  generalize firePart B tk id env loser e rp = r at h ⊢
  cases h with
  | idle | direct | deferred | done => exact ⟨rp.state, rfl⟩
  | failed => exact ⟨.failed, rfl⟩

theorem firedProgram_same (nowMs : UnixMs) (idx : Nat) :
    SameButWatches (firedProgram nowMs idx rp) rp := by
  unfold firedProgram
  cases rp.program.watches[idx]? with
  | none => exact .refl rp
  | some w => exact ⟨_, rfl⟩

theorem settlePart_same (e : ProgEval) (fw : Option Nat) :
    SameButWatches (settlePart tk e fw rp) rp := by
  cases fw with
  | none => exact updateProgram_same e rp
  | some i => exact (firedProgram_same _ _ i).trans (updateProgram_same e rp)

theorem enterRunning_watch {idx : Nat} (nowMs : UnixMs) (h : rp.watch idx = {}) :
    (enterRunning nowMs rp).watch idx = {} := by
  have hfold : ∀ (is : List Nat) (m : Std.ExtTreeMap Nat WatchRuntime),
      m[idx]?.getD ({} : WatchRuntime) = {} →
      (is.foldl (fun m i => m.insert i {}) m)[idx]?.getD ({} : WatchRuntime) = {} := by
    intro is
    induction is with
    | nil => exact fun m hm => hm
    | cons i is ih =>
      intro m hm
      apply ih
      rw [Std.ExtTreeMap.getElem?_insert]
      split_ifs
      · rfl
      · exact hm
  exact hfold _ _ h

theorem triggerPart_cases (env : Env σ τ) :
    (triggerPart B tk id env rp).1 = rp ∨
      (rp.state = .waiting ∧ ((triggerPart B tk id env rp).1 = enterRunning tk.nowMs rp ∨
        (triggerPart B tk id env rp).1 = { rp with state := .failed })) := by
  unfold triggerPart
  split_ifs with hw
  · dsimp only [triggerProgram]
    split
    · exact .inr ⟨hw, .inl rfl⟩
    · exact .inl rfl
    · exact .inr ⟨hw, .inr rfl⟩
  · exact .inl rfl

theorem triggerPart_program (env : Env σ τ) :
    (triggerPart B tk id env rp).1.program = rp.program := by
  rcases triggerPart_cases B tk id rp env with h | ⟨_, h | h⟩
  · rw [h]
  · rw [h]
    rfl
  · rw [h]

theorem triggerPart_watch {idx : Nat} (env : Env σ τ)
    (hwait : rp.state = .waiting → rp.watch idx = {}) :
    (triggerPart B tk id env rp).1.watch idx = rp.watch idx := by
  rcases triggerPart_cases B tk id rp env with h | ⟨hw, h | h⟩
  · rw [h]
  · rw [h, hwait hw]
    exact enterRunning_watch rp tk.nowMs (hwait hw)
  · rw [h]
    rfl

end Frames

section Watch
variable {σ τ : Type} {B : Backends σ τ} {tk : Tick} {id : ProgramId} {rp : RunningProgram}
  {idx : Nat} {w : Watch}

theorem SameButWatches.program {a b : RunningProgram} (h : SameButWatches a b) :
    a.program = b.program := by
  obtain ⟨m, rfl⟩ := h
  rfl

theorem watch_firedProgram_self (nowMs : UnixMs) (hw : rp.program.watches[idx]? = some w) :
    (firedProgram nowMs idx rp).watch idx = afterFire w (rp.watch idx) nowMs := by
  simp only [firedProgram, hw]
  exact watch_modifyWatch_self _

theorem watch_firedProgram_ne {i : Nat} (nowMs : UnixMs) (h : i ≠ idx) :
    (firedProgram nowMs i rp).watch idx = rp.watch idx := by
  unfold firedProgram
  cases rp.program.watches[i]? with
  | none => rfl
  | some w => exact watch_modifyWatch_ne _ h

inductive WatchTick (tk : Tick) (id : ProgramId) (rp : RunningProgram) (idx : Nat) (w : Watch) :
    WatchRuntime → List (RunningProgram × Obs) → Prop
  | settled {o : WatchOutcome} {own : List Obs} (h : Judged tk id rp idx w o own) :
      WatchTick tk id rp idx w (o.settle (rp.watch idx)) (own.map fun x => (rp, x))
  | fired {t : Bool} {own : List Obs} (h : Judged tk id rp idx w (.judged idx t .fire) own) :
      WatchTick tk id rp idx w
        (afterFire w ((WatchOutcome.judged idx t .fire).settle (rp.watch idx)) tk.nowMs)
        ((own.map fun x => (rp, x)) ++ [(rp, .emitted (.watchFired id idx "watch"))])

theorem seen_in {env : Env σ τ} {x : RunningProgram × Obs}
    (hx : x ∈ (evalProgram B tk id rp env).1.seen) : x.2.In .eval id := by
  obtain ⟨z, hz, rfl⟩ := List.mem_map.mp hx
  exact emits_evalWatches B tk id rp _ env z hz

theorem seen_filter_about {env : Env σ τ} {o : WatchOutcome} {own : List Obs}
    (h : Isolated tk id rp idx w o own (evalProgram B tk id rp env).1.outcomes
      ((evalProgram B tk id rp env).1.seen.map Prod.snd)) :
    (evalProgram B tk id rp env).1.seen.filter (fun x => x.2.about idx) =
      own.map fun x => (rp, x) := by
  have hin : ∀ x ∈ (evalProgram B tk id rp env).1.seen.map Prod.snd, x.In .eval id := by
    intro x hx
    obtain ⟨y, hy, rfl⟩ := List.mem_map.mp hx
    exact seen_in hy
  have hseen : (evalProgram B tk id rp env).1.seen =
      ((evalProgram B tk id rp env).1.seen.map Prod.snd).map fun x => (rp, x) := by
    simp only [evalProgram, List.map_map]
    rfl
  -- the record of a pass has one stretch about the watch and none about it around that
  obtain ⟨l, r, heq, hne⟩ := h.record
  have hout : ∀ x ∈ l ++ r, x.about idx = false := by
    intro x hx
    have hmem : x ∈ l ++ own ++ r := by
      rcases List.mem_append.mp hx with hx | hx
      · exact List.mem_append_left _ (List.mem_append_left _ hx)
      · exact List.mem_append_right _ hx
    have hfired := (hin x (heq ▸ hmem)).no_event.1
    simp [Obs.about, hne x hx, hfired]
  have hself : ∀ x ∈ own, x.about idx = true := by
    intro x hx
    simp [Obs.about, h.judged.watchOf.1 x hx]
  have hfl : l.filter (fun x => x.about idx) = [] := by
    rw [List.filter_eq_nil_iff]
    intro x hx
    simp [hout x (List.mem_append_left _ hx)]
  have hfr : r.filter (fun x => x.about idx) = [] := by
    rw [List.filter_eq_nil_iff]
    intro x hx
    simp [hout x (List.mem_append_right _ hx)]
  have hfo : own.filter (fun x => x.about idx) = own := List.filter_eq_self.mpr hself
  rw [hseen, heq, List.filter_map]
  have hcomp : ((fun x : RunningProgram × Obs => x.2.about idx) ∘ fun x => (rp, x)) =
      fun x => x.about idx := rfl
  rw [hcomp, List.filter_append, List.filter_append, hfl, hfo, hfr, List.nil_append,
    List.append_nil]

theorem watch_runPart (sur : Surroundings σ τ) (loser : Option ProgramId) :
    (runPart B tk id sur loser rp).1.watch idx =
      (settlePart tk (evalProgram B tk id rp sur.eval).1
        (firePart B tk id sur.fire loser (evalProgram B tk id rp sur.eval).1 rp).2.2
        (firePart B tk id sur.fire loser (evalProgram B tk id rp sur.eval).1 rp).1).watch idx := by
  obtain ⟨st, c, b, hbody⟩ := bodyProgram_frame B tk id (settlePart tk
    (evalProgram B tk id rp sur.eval).1
    (firePart B tk id sur.fire loser (evalProgram B tk id rp sur.eval).1 rp).2.2
    (firePart B tk id sur.fire loser (evalProgram B tk id rp sur.eval).1 rp).1) sur.body
  rw [runPart, hbody]
  rfl

theorem runPart_filter_about (sur : Surroundings σ τ) (loser : Option ProgramId) :
    (runPart B tk id sur loser rp).2.filter (fun x => x.2.about idx) =
      (evalProgram B tk id rp sur.eval).1.seen.filter (fun x => x.2.about idx) ++
        (firePart B tk id sur.fire loser (evalProgram B tk id rp sur.eval).1 rp).2.1.filter
          (fun x => x.2.about idx) := by
  have hbody := (silentAll_bodyProgram B tk id (settlePart tk (evalProgram B tk id rp sur.eval).1
    (firePart B tk id sur.fire loser (evalProgram B tk id rp sur.eval).1 rp).2.2
    (firePart B tk id sur.fire loser (evalProgram B tk id rp sur.eval).1 rp).1)
      sur.body).filter_about idx
  simp only [runPart, List.filter_append, hbody, List.append_nil]

theorem runPart_watch (hw : rp.program.watches[idx]? = some w) (sur : Surroundings σ τ)
    (loser : Option ProgramId) :
    WatchTick tk id rp idx w ((runPart B tk id sur loser rp).1.watch idx)
      ((runPart B tk id sur loser rp).2.filter fun x => x.2.about idx) := by
  obtain ⟨o, own, hiso⟩ := (evalProgram_judged B tk id rp sur.eval).isolate_watch hw
  have hupd : ∀ q : RunningProgram, (updateProgram (evalProgram B tk id rp sur.eval).1 q).watch idx =
      o.settle (q.watch idx) := watch_updateProgram hiso.outcome hiso.judged.watchOf.2
  rw [watch_runPart, runPart_filter_about, seen_filter_about hiso]
  -- the firing stage was silent, announced a deferral, or fired one watch
  rcases firePart_record B tk id rp sur.fire loser (evalProgram B tk id rp sur.eval).1 with
    ⟨hnone, hs⟩ | ⟨step, reason, hsame, hnone, heq⟩ | ⟨f, fs, pre, hf, hs, hsame, hsome, heq⟩
  · obtain ⟨st, hst⟩ := firePart_frame B tk id rp sur.fire loser
      (evalProgram B tk id rp sur.eval).1
    rw [hnone, hs.filter_about idx, List.append_nil, settlePart, hupd, hst]
    exact .settled hiso.judged
  · rw [hnone, heq, hsame, settlePart, hupd]
    have hfilter : [(rp, Obs.emitted (.actionDeferred id step reason))].filter
        (fun x => x.2.about idx) = [] := rfl
    rw [hfilter, List.append_nil]
    exact .settled hiso.judged
  · rw [hsome, heq, hsame, settlePart, List.filter_append, hs.filter_about idx, List.nil_append]
    by_cases hidx : f.watch = idx
    · -- the one firing of the program is that of this watch
      obtain ⟨i, t, w', ho, _, hfe⟩ := mem_firesOf.mp (hf ▸ List.mem_cons_self)
      obtain rfl : i = idx := by rw [← hidx, hfe]
      have hoe : WatchOutcome.judged i t .fire = o := hiso.outcome.eq_of_mem ho rfl
      have hfilter : [(rp, Obs.emitted (.watchFired id i "watch"))].filter
          (fun x => x.2.about i) = [(rp, Obs.emitted (.watchFired id i "watch"))] := by
        simp [Obs.about, Obs.firedWatch]
      have hwatch : (updateProgram (evalProgram B tk id rp sur.eval).1 rp).program.watches[i]? =
          some w := by rw [(updateProgram_same _ rp).program, hw]
      rw [hidx, hfilter, watch_firedProgram_self tk.nowMs hwatch, hupd, ← hoe]
      exact .fired (hoe ▸ hiso.judged)
    · have hfilter : [(rp, Obs.emitted (.watchFired id f.watch "watch"))].filter
          (fun x => x.2.about idx) = [] := by
        simp [Obs.about, Obs.firedWatch, Obs.watchOf, hidx]
      rw [hfilter, List.append_nil, watch_firedProgram_ne tk.nowMs hidx, hupd]
      exact .settled hiso.judged

theorem runPart_deferral {sur : Surroundings σ τ} {loser : Option ProgramId}
    {x : RunningProgram × Obs} (hx : x ∈ (runPart B tk id sur loser rp).2)
    (hd : x.2.isDeferral = true) : ∀ y ∈ (runPart B tk id sur loser rp).2, y.2.firedWatch = none := by
  have hbody := silentAll_bodyProgram B tk id (settlePart tk (evalProgram B tk id rp sur.eval).1
    (firePart B tk id sur.fire loser (evalProgram B tk id rp sur.eval).1 rp).2.2
    (firePart B tk id sur.fire loser (evalProgram B tk id rp sur.eval).1 rp).1) sur.body
  have hfire : x ∈ (firePart B tk id sur.fire loser (evalProgram B tk id rp sur.eval).1 rp).2.1 := by
    rcases List.mem_append.mp hx with hx | hx
    · exact absurd (hd.symm.trans (seen_in hx).no_event.2) Bool.true_eq_false.mp
    rcases List.mem_append.mp hx with hx | hx
    · exact hx
    · exact absurd (hd.symm.trans (hbody x hx).2.2) Bool.true_eq_false.mp
  intro y hy
  rcases List.mem_append.mp hy with hy | hy
  · exact (seen_in hy).no_event.1
  rcases List.mem_append.mp hy with hy | hy
  · rcases firePart_record B tk id rp sur.fire loser (evalProgram B tk id rp sur.eval).1 with
      ⟨_, hs⟩ | ⟨step, reason, _, _, heq⟩ | ⟨f, fs, pre, _, hs, _, _, heq⟩
    · exact (hs y hy).2.1
    · rw [heq] at hy
      rw [List.mem_singleton.mp hy]
      rfl
    · rw [heq] at hfire
      rcases List.mem_append.mp hfire with hx | hx
      · exact absurd (hd.symm.trans (hs x hx).2.2) Bool.true_eq_false.mp
      · rw [List.mem_singleton.mp hx] at hd
        exact absurd hd Bool.false_ne_true
  · exact (hbody y hy).2.1

theorem bodyProgram_state (env : Env σ τ) :
    (bodyProgram B tk id rp env).1.state = .waiting → rp.state = .waiting := by
  have hbody := bodyProgram_run B tk id rp env
  generalize bodyProgram B tk id rp env = x at hbody ⊢
  cases hbody with
  | inert | kept => exact fun h => h
  | completed | failed => exact fun h => nomatch h

theorem firePart_state (env : Env σ τ) (loser : Option ProgramId) (e : ProgEval) :
    (firePart B tk id env loser e rp).1.state = .waiting → rp.state = .waiting := by
  have h := firePart_dispatched B tk id env rp loser e
  generalize firePart B tk id env loser e rp = r at h ⊢
  cases h with
  | idle | direct | deferred | done => exact fun hw => hw
  | failed => exact fun hw => nomatch hw

theorem runPart_frame (B : Backends σ τ) (tk : Tick) (id : ProgramId) (rp : RunningProgram)
    (sur : Surroundings σ τ) (loser : Option ProgramId) :
    (runPart B tk id sur loser rp).1.program = rp.program ∧
      (runPart B tk id sur loser rp).1.runningSinceMs = rp.runningSinceMs ∧
      ((runPart B tk id sur loser rp).1.state = .waiting → rp.state = .waiting) := by
  have hstate : (firePart B tk id sur.fire loser (evalProgram B tk id rp sur.eval).1 rp).1.state =
      .waiting → rp.state = .waiting := firePart_state _ _ _
  obtain ⟨st, hst⟩ := firePart_frame B tk id rp sur.fire loser (evalProgram B tk id rp sur.eval).1
  obtain ⟨m, hm⟩ := settlePart_same tk
    (firePart B tk id sur.fire loser (evalProgram B tk id rp sur.eval).1 rp).1
    (evalProgram B tk id rp sur.eval).1
    (firePart B tk id sur.fire loser (evalProgram B tk id rp sur.eval).1 rp).2.2
  obtain ⟨st', c, b, hbody⟩ := bodyProgram_frame B tk id (settlePart tk
    (evalProgram B tk id rp sur.eval).1
    (firePart B tk id sur.fire loser (evalProgram B tk id rp sur.eval).1 rp).2.2
    (firePart B tk id sur.fire loser (evalProgram B tk id rp sur.eval).1 rp).1) sur.body
  refine ⟨?_, ?_, ?_⟩
  · rw [runPart, hbody, hm, hst]
  · rw [runPart, hbody, hm, hst]
  · intro h
    have hsettled := bodyProgram_state _ h
    rw [hm] at hsettled
    exact hstate hsettled

theorem tickProgram_frame (B : Backends σ τ) (tk : Tick) (id : ProgramId) (rp : RunningProgram)
    (sur : Surroundings σ τ) (loser : Option ProgramId) :
    (tickProgram B tk id sur loser rp).1.program = rp.program ∧
      ((tickProgram B tk id sur loser rp).1.state = .waiting →
        (tickProgram B tk id sur loser rp).1 = rp) ∧
      ((rp.state = .running → rp.runningSinceMs ≠ none) →
        (tickProgram B tk id sur loser rp).1.state = .running →
        (tickProgram B tk id sur loser rp).1.runningSinceMs ≠ none) := by
  have hframe := runPart_frame B tk id (triggerPart B tk id sur.trigger rp).1 sur loser
  unfold tickProgram
  dsimp only
  split_ifs with hrun
  · refine ⟨hframe.1.trans (triggerPart_program B tk id rp _), ?_, ?_⟩
    · intro hw
      rw [hrun] at hframe
      exact nomatch hframe.2.2 hw
    · intro hsince _
      rw [hframe.2.1]
      rcases triggerPart_cases B tk id rp sur.trigger with h | ⟨_, h | h⟩
      · rw [h] at hrun ⊢
        exact hsince hrun
      · rw [h]
        exact Option.some_ne_none _
      · rw [h] at hrun
        exact nomatch hrun
  · refine ⟨triggerPart_program B tk id rp _, ?_, fun _ h => absurd h hrun⟩
    intro hw
    rcases triggerPart_cases B tk id rp sur.trigger with h | ⟨_, h | h⟩
    · exact h
    · rw [h] at hrun
      exact absurd rfl hrun
    · rw [h] at hw
      exact nomatch hw

theorem tickProgram_watch (B : Backends σ τ) (tk : Tick) (id : ProgramId)
    (hw : rp.program.watches[idx]? = some w)
    (hwait : rp.state = .waiting → rp.watch idx = {})
    (hsince : rp.state = .running → rp.runningSinceMs ≠ none) (sur : Surroundings σ τ)
    (loser : Option ProgramId) :
    ((tickProgram B tk id sur loser rp).2.filter (fun x => x.2.about idx) = [] ∧
        (tickProgram B tk id sur loser rp).1.watch idx = rp.watch idx) ∨
      ∃ q : RunningProgram, q.watch idx = rp.watch idx ∧ q.runningSinceMs ≠ none ∧
        WatchTick tk id q idx w ((tickProgram B tk id sur loser rp).1.watch idx)
          ((tickProgram B tk id sur loser rp).2.filter fun x => x.2.about idx) := by
  have htrig := (silentAll_triggerPart B tk id rp sur.trigger).filter_about idx
  have hwatch := triggerPart_watch B tk id rp sur.trigger hwait
  unfold tickProgram
  dsimp only
  split_ifs with hrun
  · right
    refine ⟨(triggerPart B tk id sur.trigger rp).1, hwatch, ?_, ?_⟩
    · rcases triggerPart_cases B tk id rp sur.trigger with h | ⟨_, h | h⟩
      · rw [h] at hrun ⊢
        exact hsince hrun
      · rw [h]
        exact Option.some_ne_none _
      · rw [h] at hrun
        exact nomatch hrun
    · rw [List.filter_append, htrig, List.nil_append]
      apply runPart_watch
      rw [triggerPart_program]
      exact hw
  · exact .inl ⟨htrig, hwatch⟩

theorem tickProgram_deferral {sur : Surroundings σ τ} {loser : Option ProgramId}
    {x : RunningProgram × Obs} (hx : x ∈ (tickProgram B tk id sur loser rp).2)
    (hd : x.2.isDeferral = true) :
    ∀ y ∈ (tickProgram B tk id sur loser rp).2, y.2.firedWatch = none := by
  have htrig := silentAll_triggerPart B tk id rp sur.trigger
  unfold tickProgram at hx ⊢
  dsimp only at hx ⊢
  split_ifs at hx ⊢ with hrun
  · rcases List.mem_append.mp hx with hx | hx
    · exact absurd (hd.symm.trans (htrig x hx).2.2) Bool.true_eq_false.mp
    · intro y hy
      rcases List.mem_append.mp hy with hy | hy
      · exact (htrig y hy).2.1
      · exact runPart_deferral hx hd y hy
  · exact fun y hy => (htrig y hy).2.1

end Watch

end Vcli

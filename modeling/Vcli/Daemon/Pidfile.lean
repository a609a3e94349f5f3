import Mathlib.Logic.Function.Basic

/-! The pid file: processes that open, lock and unlink one path, each step on its own. A lock is on
the inode that was opened, and the path may name another one by then. -/

namespace Vcli

/-- Where a process is, with the inode it has open. -/
inductive PidState
  | idle
  | opened (inode : Nat)
  | refused (inode : Nat)
  | locked (inode : Nat)
  | truncated (inode : Nat)
  | holding (inode : Nat)
  | releasing (explicit : Bool) (inode : Nat)
  | unlocked (explicit : Bool) (inode : Nat)
  | closed (explicit : Bool)
  | dropping
deriving DecidableEq

inductive PidEvent
  | open_
  | lock
  | refuse
  | giveUp
  | truncate
  | write
  | fail
  | release
  | drop
  | unlock
  | close
  | unlink
  | unlinkFails
  | die
deriving DecidableEq

/-- The path, the number of inodes so far, who has a lock, the pid that a file tells, and the
processes. -/
structure PidWorld where
  path : Option Nat
  inodes : Nat
  lock : Nat → Option Nat
  text : Nat → Option Nat
  procs : Nat → PidState

namespace PidState

def inode : PidState → Option Nat
  | opened i | refused i | locked i | truncated i | holding i | releasing _ i | unlocked _ i => some i
  | idle | closed _ | dropping => none

def owned : PidState → Option Nat
  | locked i | truncated i | holding i | releasing _ i => some i
  | _ => none

def claimed : PidState → Option Nat
  | opened i | locked i | truncated i | holding i => some i
  | _ => none

/-- The state after `remove_file`: an explicit `release` is followed by `Drop`. -/
def unlinked : PidState → Option PidState
  | closed true => some dropping
  | closed false | dropping => some idle
  | _ => none

end PidState

namespace PidWorld

def initial : PidWorld := ⟨none, 0, fun _ => none, fun _ => none, fun _ => .idle⟩

def move (w : PidWorld) (p : Nat) (s : PidState) : PidWorld :=
  { w with procs := Function.update w.procs p s }

def closing (w : PidWorld) (p : Nat) (inode : Option Nat) : PidWorld :=
  { w with lock := fun i => if inode = some i ∧ w.lock i = some p then none else w.lock i }

def opening (w : PidWorld) (p : Nat) : PidWorld :=
  match w.path with
  | some i => w.move p (.opened i)
  | none => { w with path := some w.inodes, inodes := w.inodes + 1 }.move p (.opened w.inodes)

def locking (w : PidWorld) (p i : Nat) : PidWorld :=
  { w with lock := Function.update w.lock i (some p) }.move p (.locked i)

/-- One step of a process, if it is at that step. An error after the lock ends `acquire` without a
`PidFile`, so that nothing is unlinked. -/
def step (w : PidWorld) (p : Nat) : PidEvent → Option PidWorld
  | .open_ => if w.procs p = .idle then some (w.opening p) else none
  | .lock => match w.procs p with
    | .opened i => if w.lock i = none then some (w.locking p i) else none
    | _ => none
  | .refuse => match w.procs p with
    | .opened i => some (w.move p (.refused i))
    | _ => none
  | .giveUp => match w.procs p with
    | .refused i => some ((w.closing p (some i)).move p .idle)
    | _ => none
  | .truncate => match w.procs p with
    | .locked i => some ({ w with text := Function.update w.text i none }.move p (.truncated i))
    | _ => none
  | .write => match w.procs p with
    | .truncated i => some ({ w with text := Function.update w.text i (some p) }.move p (.holding i))
    | _ => none
  | .fail => match w.procs p with
    | .locked i | .truncated i => some ((w.closing p (some i)).move p .idle)
    | _ => none
  | .release => match w.procs p with
    | .holding i => some (w.move p (.releasing true i))
    | _ => none
  | .drop => match w.procs p with
    | .holding i => some (w.move p (.releasing false i))
    | _ => none
  | .unlock => match w.procs p with
    | .releasing explicit i =>
      some ({ w with lock := Function.update w.lock i none }.move p (.unlocked explicit i))
    | _ => none
  | .close => match w.procs p with
    | .unlocked explicit i => some ((w.closing p (some i)).move p (.closed explicit))
    | _ => none
  | .unlink => (w.procs p).unlinked.map fun s => { w with path := none }.move p s
  | .unlinkFails => (w.procs p).unlinked.map fun s => w.move p s
  | .die => some ((w.closing p (w.procs p).inode).move p .idle)

def run (w : PidWorld) (schedule : List (Nat × PidEvent)) : Option PidWorld :=
  schedule.foldlM (fun w e => w.step e.1 e.2) w

def Holds (w : PidWorld) (p : Nat) : Prop := ∃ i, w.procs p = .holding i

def Undisturbed (w : PidWorld) (p : Nat) (ev : PidEvent) : Prop :=
  ev = .unlink → ∀ q, q ≠ p → ∀ i, w.path = some i → (w.procs q).claimed ≠ some i

/-- Who claims the pid file has opened what the path names, and who owns a lock has it. -/
structure Guarded (w : PidWorld) : Prop where
  named : ∀ p i, (w.procs p).claimed = some i → w.path = some i
  locks : ∀ p i, (w.procs p).owned = some i → w.lock i = some p

section Guarded
variable {w w' : PidWorld} {p q i : Nat} {s : PidState}

theorem guarded_initial : initial.Guarded := ⟨nofun, nofun⟩

/-- It is enough to look at the process that moved, and at what it changed for the others. -/
theorem Guarded.moved (h : w.Guarded) (hprocs : w'.procs = Function.update w.procs p s)
    (hpath : ∀ q ≠ p, ∀ i, (w.procs q).claimed = some i → w'.path = w.path)
    (hlock : ∀ q ≠ p, ∀ i, (w.procs q).owned = some i → w'.lock i = w.lock i)
    (hclaim : ∀ i, s.claimed = some i → w'.path = some i)
    (hown : ∀ i, s.owned = some i → w'.lock i = some p) : w'.Guarded := by
  refine ⟨fun q i hq => ?_, fun q i hq => ?_⟩
  · rw [hprocs] at hq
    by_cases heq : q = p
    · rw [heq, Function.update_self] at hq
      exact hclaim i hq
    · rw [Function.update_of_ne heq] at hq
      exact (hpath q heq i hq).trans (h.named q i hq)
  · rw [hprocs] at hq
    by_cases heq : q = p
    · rw [heq, Function.update_self] at hq
      rw [heq]
      exact hown i hq
    · rw [Function.update_of_ne heq] at hq
      exact (hlock q heq i hq).trans (h.locks q i hq)

theorem Guarded.move (h : w.Guarded) (hpath : w'.path = w.path) (hlock : w'.lock = w.lock)
    (hprocs : w'.procs = Function.update w.procs p s)
    (hclaim : ∀ i, s.claimed = some i → (w.procs p).claimed = some i)
    (hown : ∀ i, s.owned = some i → (w.procs p).owned = some i) : w'.Guarded := by
  refine h.moved hprocs (fun _ _ _ _ => hpath) (fun _ _ i _ => congrFun hlock i)
    (fun i hi => ?_) (fun i hi => ?_)
  · exact hpath.trans (h.named p i (hclaim i hi))
  · exact (congrFun hlock i).trans (h.locks p i (hown i hi))

theorem Guarded.leave (h : w.Guarded) {inode : Option Nat} (hclaim : s.claimed = none)
    (hown : s.owned = none) : ((w.closing p inode).move p s).Guarded := by
  refine h.moved rfl (fun _ _ _ _ => rfl) (fun q hq i hqi => ?_) (fun i hi => ?_) (fun i hi => ?_)
  · have hlock := h.locks q i hqi
    refine if_neg fun hself => hq ?_
    exact Option.some.inj (hlock.symm.trans hself.2)
  · exact nomatch hclaim.symm.trans hi
  · exact nomatch hown.symm.trans hi

theorem Guarded.opening (h : w.Guarded) : (w.opening p).Guarded := by
  unfold PidWorld.opening
  cases hpath : w.path with
  | some i =>
    refine h.moved rfl (fun _ _ _ _ => rfl) (fun _ _ _ _ => rfl) (fun j hj => ?_) nofun
    exact hpath.trans hj
  | none =>
    refine h.moved rfl (fun q _ i hq => ?_) (fun _ _ _ _ => rfl) (fun j hj => hj) nofun
    exact nomatch hpath.symm.trans (h.named q i hq)

theorem Guarded.locking (h : w.Guarded) (hp : w.procs p = .opened i) (hfree : w.lock i = none) :
    (w.locking p i).Guarded := by
  refine h.moved rfl (fun _ _ _ _ => rfl) (fun q _ j hq => ?_) (fun j hj => ?_) (fun j hj => ?_)
  · -- the lock was free, so nobody else owns it
    have hne : j ≠ i := by
      rintro rfl
      exact nomatch hfree.symm.trans (h.locks q j hq)
    exact Function.update_of_ne hne _ _
  · obtain rfl := Option.some.inj hj
    have hclaim : (w.procs p).claimed = some i := congrArg PidState.claimed hp
    exact h.named p i hclaim
  · obtain rfl := Option.some.inj hj
    exact Function.update_self _ _ _

theorem Guarded.unlocking (h : w.Guarded) {explicit : Bool} (hp : w.procs p = .releasing explicit i) :
    PidWorld.Guarded ({ w with lock := Function.update w.lock i none }.move p
      (.unlocked explicit i)) := by
  have hown : w.lock i = some p := h.locks p i (congrArg PidState.owned hp)
  refine h.moved rfl (fun _ _ _ _ => rfl) (fun q hq j hqj => ?_) nofun nofun
  have hne : j ≠ i := by
    rintro rfl
    exact hq (Option.some.inj ((h.locks q j hqj).symm.trans hown))
  exact Function.update_of_ne hne _ _

theorem unlinked_claims {t : PidState} (h : t.unlinked = some s) :
    s.claimed = none ∧ s.owned = none := by
  cases t with
  | closed explicit =>
    cases explicit <;> rw [← Option.some.inj h] <;> exact ⟨rfl, rfl⟩
  | dropping =>
    rw [← Option.some.inj h]
    exact ⟨rfl, rfl⟩
  | _ => exact nomatch h

/-- Whoever claims the pid file has opened the file that is unlinked. -/
theorem Guarded.unlinking (h : w.Guarded) (hs : (w.procs p).unlinked = some s)
    (hapart : w.Undisturbed p .unlink) : PidWorld.Guarded ({ w with path := none }.move p s) := by
  obtain ⟨hclaim, hown⟩ := unlinked_claims hs
  refine h.moved rfl (fun q hq i hqi => ?_) (fun _ _ _ _ => rfl) (fun i hi => ?_) (fun i hi => ?_)
  · exact absurd hqi (hapart rfl q hq i (h.named q i hqi))
  · exact nomatch hclaim.symm.trans hi
  · exact nomatch hown.symm.trans hi

theorem Guarded.step {ev : PidEvent} (h : w.Guarded) (hstep : w.step p ev = some w')
    (hapart : w.Undisturbed p ev) : w'.Guarded := by
  cases ev with
  | open_ =>
    obtain ⟨-, hw⟩ := Option.ite_none_right_eq_some.mp hstep
    rw [← Option.some.inj hw]
    exact h.opening
  | lock =>
    -- a claim arises here only, and the lock has to be free for it
    simp only [PidWorld.step] at hstep
    split at hstep
    · rename_i i hp
      obtain ⟨hfree, hw⟩ := Option.ite_none_right_eq_some.mp hstep
      rw [← Option.some.inj hw]
      exact h.locking hp hfree
    · exact nomatch hstep
  | refuse =>
    simp only [PidWorld.step] at hstep
    split at hstep
    · rw [← Option.some.inj hstep]
      exact h.move rfl rfl rfl nofun nofun
    · exact nomatch hstep
  | giveUp =>
    simp only [PidWorld.step] at hstep
    split at hstep
    · rw [← Option.some.inj hstep]
      exact h.leave rfl rfl
    · exact nomatch hstep
  | truncate =>
    simp only [PidWorld.step] at hstep
    split at hstep
    · rename_i i hp
      rw [← Option.some.inj hstep]
      exact h.move rfl rfl rfl (fun j hj => hp ▸ hj) fun j hj => hp ▸ hj
    · exact nomatch hstep
  | write =>
    simp only [PidWorld.step] at hstep
    split at hstep
    · rename_i i hp
      rw [← Option.some.inj hstep]
      exact h.move rfl rfl rfl (fun j hj => hp ▸ hj) fun j hj => hp ▸ hj
    · exact nomatch hstep
  | fail =>
    simp only [PidWorld.step] at hstep
    split at hstep
    · rw [← Option.some.inj hstep]
      exact h.leave rfl rfl
    · rw [← Option.some.inj hstep]
      exact h.leave rfl rfl
    · exact nomatch hstep
  | release =>
    simp only [PidWorld.step] at hstep
    split at hstep
    · rename_i i hp
      rw [← Option.some.inj hstep]
      exact h.move rfl rfl rfl nofun fun j hj => hp ▸ hj
    · exact nomatch hstep
  | drop =>
    simp only [PidWorld.step] at hstep
    split at hstep
    · rename_i i hp
      rw [← Option.some.inj hstep]
      exact h.move rfl rfl rfl nofun fun j hj => hp ▸ hj
    · exact nomatch hstep
  | unlock =>
    simp only [PidWorld.step] at hstep
    split at hstep
    · rename_i explicit i hp
      rw [← Option.some.inj hstep]
      exact h.unlocking hp
    · exact nomatch hstep
  | close =>
    simp only [PidWorld.step] at hstep
    split at hstep
    · rw [← Option.some.inj hstep]
      exact h.leave rfl rfl
    · exact nomatch hstep
  | unlink =>
    -- the path goes, so that the claim behind it has to be the one of this process
    obtain ⟨s, hs, rfl⟩ := Option.map_eq_some_iff.mp hstep
    exact h.unlinking hs hapart
  | unlinkFails =>
    obtain ⟨s, hs, rfl⟩ := Option.map_eq_some_iff.mp hstep
    obtain ⟨hclaim, hown⟩ := unlinked_claims hs
    refine h.move rfl rfl rfl (fun i hi => ?_) fun i hi => ?_
    · exact nomatch hclaim.symm.trans hi
    · exact nomatch hown.symm.trans hi
  | die =>
    rw [← Option.some.inj hstep]
    exact h.leave rfl rfl

theorem Guarded.unique (h : w.Guarded) (hp : w.Holds p) (hq : w.Holds q) : p = q := by
  obtain ⟨i, hi⟩ := hp
  obtain ⟨j, hj⟩ := hq
  have hpath := h.named p i (congrArg PidState.claimed hi)
  have hpath' := h.named q j (congrArg PidState.claimed hj)
  obtain rfl := Option.some.inj (hpath.symm.trans hpath')
  have hlock := h.locks p i (congrArg PidState.owned hi)
  have hlock' := h.locks q i (congrArg PidState.owned hj)
  exact Option.some.inj (hlock.symm.trans hlock')

end Guarded

def UndisturbedRun (w : PidWorld) : List (Nat × PidEvent) → Prop
  | [] => True
  | e :: es => w.Undisturbed e.1 e.2 ∧ ∀ w', w.step e.1 e.2 = some w' → w'.UndisturbedRun es

theorem Guarded.run {w w' : PidWorld} {schedule : List (Nat × PidEvent)} (h : w.Guarded)
    (hrun : w.run schedule = some w') (hall : w.UndisturbedRun schedule) : w'.Guarded := by
  induction schedule generalizing w with
  | nil =>
    rw [← Option.some.inj hrun]
    exact h
  | cons e es ih =>
    obtain ⟨w₁, hstep, hrest⟩ := Option.bind_eq_some_iff.mp hrun
    exact ih (h.step hstep hall.1) hrest (hall.2 w₁ hstep)

/-- Whatever the schedule, with undisturbed unlinks one process holds the pid file at a time. -/
theorem one_holder {schedule : List (Nat × PidEvent)} {w : PidWorld}
    (hrun : initial.run schedule = some w) (hall : initial.UndisturbedRun schedule) {p q : Nat}
    (hp : w.Holds p) (hq : w.Holds q) : p = q :=
  (guarded_initial.run hrun hall).unique hp hq

def acquiring (p : Nat) : List (Nat × PidEvent) :=
  [(p, .open_), (p, .lock), (p, .truncate), (p, .write)]

def releasing (p : Nat) : List (Nat × PidEvent) :=
  [(p, .release), (p, .unlock), (p, .close), (p, .unlink)]

theorem undisturbedRun_cons {w w' : PidWorld} {e : Nat × PidEvent} {es : List (Nat × PidEvent)}
    (hstep : w.step e.1 e.2 = some w') (he : w.Undisturbed e.1 e.2) (hes : w'.UndisturbedRun es) :
    w.UndisturbedRun (e :: es) := by
  refine ⟨he, fun w₁ hw₁ => ?_⟩
  rw [← Option.some.inj (hstep.symm.trans hw₁)]
  exact hes

def restarted : List (Nat × PidEvent) :=
  acquiring 0 ++ releasing 0 ++ (0, .unlink) :: acquiring 1

theorem undisturbedRun_restarted : initial.UndisturbedRun restarted := by
  have hquiet : ∀ {w : PidWorld} {p : Nat} {ev : PidEvent}, ev ≠ .unlink → w.Undisturbed p ev :=
    fun hne heq => absurd heq hne
  have halone : ∀ {w : PidWorld}, (∀ q, q ≠ 0 → w.procs q = .idle) → w.Undisturbed 0 .unlink := by
    intro w hidle _ q hq i _
    rw [hidle q hq]
    nofun
  have hupdate : ∀ (f : Nat → PidState) (s : PidState), (∀ q, q ≠ 0 → f q = .idle) →
      ∀ q, q ≠ 0 → Function.update f 0 s q = .idle := by
    intro f s hf q hq
    rw [Function.update_of_ne hq]
    exact hf q hq
  -- the first process is alone with its steps until it is done
  refine undisturbedRun_cons rfl (hquiet nofun) ?_
  refine undisturbedRun_cons rfl (hquiet nofun) ?_
  refine undisturbedRun_cons rfl (hquiet nofun) ?_
  refine undisturbedRun_cons rfl (hquiet nofun) ?_
  refine undisturbedRun_cons rfl (hquiet nofun) ?_
  refine undisturbedRun_cons rfl (hquiet nofun) ?_
  refine undisturbedRun_cons rfl (hquiet nofun) ?_
  refine undisturbedRun_cons rfl (halone ?_) ?_
  · iterate 7 apply hupdate
    exact fun q _ => rfl
  refine undisturbedRun_cons rfl (halone ?_) ?_
  · iterate 8 apply hupdate
    exact fun q _ => rfl
  refine undisturbedRun_cons rfl (hquiet nofun) ?_
  refine undisturbedRun_cons rfl (hquiet nofun) ?_
  refine undisturbedRun_cons rfl (hquiet nofun) ?_
  exact undisturbedRun_cons rfl (hquiet nofun) trivial

theorem one_holder_restarted :
    ∃ w, initial.run restarted = some w ∧ w.Holds 1 ∧ ∀ q, w.Holds q → 1 = q := by
  have hend : (initial.run restarted).map (fun w => w.procs 1) = some (.holding 1) := by decide
  obtain ⟨w, hrun, hprocs⟩ := Option.map_eq_some_iff.mp hend
  exact ⟨w, hrun, ⟨1, hprocs⟩, fun q hq => one_holder hrun undisturbedRun_restarted ⟨1, hprocs⟩ hq⟩

/-- A second process acquires between the two unlinks of the first, and a third after them. -/
theorem two_holders :
    ∃ w, initial.run (acquiring 0 ++ releasing 0 ++ acquiring 1 ++ (0, .unlink) :: acquiring 2) =
      some w ∧ w.Holds 1 ∧ w.Holds 2 := by
  have hend : (initial.run (acquiring 0 ++ releasing 0 ++ acquiring 1 ++
      (0, .unlink) :: acquiring 2)).map (fun w => (w.procs 1, w.procs 2)) =
        some (.holding 1, .holding 2) := by decide
  obtain ⟨w, hrun, hprocs⟩ := Option.map_eq_some_iff.mp hend
  exact ⟨w, hrun, ⟨1, congrArg Prod.fst hprocs⟩, ⟨2, congrArg Prod.snd hprocs⟩⟩

end PidWorld

end Vcli

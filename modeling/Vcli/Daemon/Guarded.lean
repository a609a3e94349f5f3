import Vcli.Daemon.Publish
import Vcli.Lib.Simulation

/-! The store behind its mutex. A panic of a handler that holds the lock poisons it: from then on
every other handler that takes it panics as well, and the event pump dies at the next event of a
program, with all that is in its channel. -/

namespace Vcli

open Transducer

/-- A panic while a program is materialized, with the assets as it leaves them, and what is said of
the task that has panicked. -/
structure Hazard (α : Type) where
  crash : α → Program → Option String → UnixMs → Option α
  joinError : String

namespace Hazard

variable {α : Type} (K : Hazard α)

def calm : Hazard α := ⟨fun _ _ _ _ => Option.none, ""⟩

def refusal : Notice := .answered (.error { code := .internal, message := K.joinError })

def submitCrashed (s : Store α) (program : Program) (baseDir : Option String)
    (submittedAt : UnixMs) : Option (Store α) :=
  (K.crash s.assets program baseDir submittedAt).map fun a => { s with assets := a }

def resumeCrashed (L : Loader α) (s : Store α) (pid : ProgramId) (fromStart : Bool)
    (nowMs : UnixMs) : Option (Store α) :=
  match s.resumeProgram pid fromStart nowMs with
  | .error _ => none
  | .ok (_, s) =>
    match s.getProgram pid with
    | .error _ => none
    | .ok row =>
      match L.fromStr row.sourceJson with
      | .error _ => none
      | .ok value =>
        match L.validateValue value with
        | .error _ => none
        | .ok program => K.submitCrashed s program none nowMs

def crashed (L : Loader α) (nowMs : UnixMs) (s : Store α) : Request → Option (Store α)
  | .submit programJson baseDir =>
    match L.validateValue programJson with
    | .error _ => none
    | .ok program => K.submitCrashed s program baseDir nowMs
  | .resume pid fromStart => K.resumeCrashed L s pid fromStart nowMs
  | .cancel _ | .start _ | .gc | .shutdown => none

end Hazard

def Request.locks {α : Type} (L : Loader α) : Request → Bool
  | .submit programJson _ => (L.validateValue programJson).isOk
  | .resume .. | .gc => true
  | .cancel _ | .start _ | .shutdown => false

/-- The daemon with its subscribers, the mutex, and whether the pump has died. -/
structure Guarded (σ τ α : Type) extends Broadcasting σ τ α where
  poisoned : Bool
  pumpGone : Bool

namespace Guarded

variable {σ τ α : Type}

def start (L : Loader α) (nowMs : UnixMs) (env : Env σ τ) (image : Store α) : Guarded σ τ α :=
  { Broadcasting.start L nowMs env image with poisoned := false, pumpGone := false }

def request (w : Guarded σ τ α) (K : Hazard α) (L : Loader α) (nowMs : UnixMs)
    (freshId : ProgramId) (r : Request) : Guarded σ τ α × List Notice :=
  if w.poisoned && r.locks L then (w, [K.refusal])
  else match K.crashed L nowMs w.daemon.store r with
    | some store =>
      ({ w with daemon := { w.daemon with store := store }, poisoned := true }, [K.refusal])
    | none =>
      ({ w with daemon := (w.daemon.request L nowMs freshId r).1 },
        (w.daemon.request L nowMs freshId r).2)

/-- The pump is about to take the lock, and it is poisoned. -/
def lethal (w : Guarded σ τ α) : Bool :=
  w.poisoned && match w.daemon.events with
    | ev :: _ => ev.data.programIdOf.isSome
    | [] => false

/-- The channel goes with the pump that reads from it. -/
def pump (B : Backends σ τ) (w : Guarded σ τ α) : Guarded σ τ α :=
  if w.lethal then { w with daemon := { w.daemon with events := [] }, pumpGone := true }
  else { w with toBroadcasting := (w.toBroadcasting.step B .pump).1 }

/-- What is sent when the pump has gone is lost. -/
def heard (w : Guarded σ τ α) : Guarded σ τ α :=
  { w with daemon := { w.daemon with events := if w.pumpGone then [] else w.daemon.events } }

def obey (B : Backends σ τ) (w : Guarded σ τ α) (i : DaemonInput σ τ α) :
    Guarded σ τ α × List Notice :=
  ({ w with toBroadcasting := (w.toBroadcasting.step B i).1 }.heard, (w.daemon.step B i).2)

/-- A start-up that panics is one with a loader that fails from there on, and the death of the
process before it does anything else. -/
def step (B : Backends σ τ) (w : Guarded σ τ α) :
    Hazard α × DaemonInput σ τ α → Guarded σ τ α × List Notice
  | (K, .request L nowMs freshId r) =>
    if w.daemon.up then w.request K L nowMs freshId r else (w, [])
  | (_, .pump) => (w.pump B, [])
  | (_, .restart L nowMs env) => (start L nowMs env w.daemon.store, [])
  | (_, i) => w.obey B i

section Requests
variable {K : Hazard α} {L : Loader α} {nowMs : UnixMs} {s store : Store α} {r : Request}

/-- As far as the daemon goes, a request that panics is one whose program cannot be materialized. -/
theorem crashed_eq (freshId : ProgramId) {d : Daemon σ τ α}
    (h : K.crashed L nowMs d.store r = some store) :
    ∃ L' : Loader α, (d.request L' nowMs freshId r).1 = { d with store := store } := by
  have hfailing : ∀ a : α, ∃ L' : Loader α, L'.fromStr = L.fromStr ∧
      L'.validateValue = L.validateValue ∧
      ∀ a' program baseDir now, L'.materialize a' program baseDir now =
        (.error { code := .internal, message := K.joinError }, a) := fun a =>
    ⟨{ L with materialize := fun _ _ _ _ => (.error { code := .internal, message := K.joinError }, a) },
      rfl, rfl, fun _ _ _ _ => rfl⟩
  cases r with
  | submit programJson baseDir =>
    simp only [Hazard.crashed] at h
    cases hvalid : L.validateValue programJson with
    | error e => simp [hvalid] at h
    | ok program =>
      simp only [hvalid, Hazard.submitCrashed, Option.map_eq_some_iff] at h
      obtain ⟨a, -, rfl⟩ := h
      obtain ⟨L', -, hsame, hfails⟩ := hfailing a
      refine ⟨L', ?_⟩
      simp only [Daemon.request, hsame, hvalid, submitLocked, hfails]
  | resume pid fromStart =>
    simp only [Hazard.crashed, Hazard.resumeCrashed] at h
    cases hresume : d.store.resumeProgram pid fromStart nowMs with
    | error e => simp [hresume] at h
    | ok out =>
      obtain ⟨outcome, s⟩ := out
      simp only [hresume] at h
      cases hget : s.getProgram pid with
      | error e => simp [hget] at h
      | ok row =>
        simp only [hget] at h
        cases hjson : L.fromStr row.sourceJson with
        | error e => simp [hjson] at h
        | ok value =>
          simp only [hjson] at h
          cases hvalid : L.validateValue value with
          | error e => simp [hvalid] at h
          | ok program =>
            simp only [hvalid, Hazard.submitCrashed, Option.map_eq_some_iff] at h
            obtain ⟨a, -, rfl⟩ := h
            obtain ⟨L', hreads, hsame, hfails⟩ := hfailing a
            refine ⟨L', ?_⟩
            simp only [Daemon.request, resumeLocked, hresume, hget, loadSource, hreads, hjson, hsame,
              hvalid, hfails, Except.map]
  | cancel | start | gc | shutdown => simp [Hazard.crashed] at h

end Requests

variable {B : Backends σ τ} {w : Guarded σ τ α}

theorem step_request (K : Hazard α) (L : Loader α) (nowMs : UnixMs) (freshId : ProgramId)
    (r : Request) :
    (∃ store poisoned, step B w (K, .request L nowMs freshId r) =
        ({ w with daemon := { w.daemon with store := store }, poisoned := poisoned },
          [K.refusal])) ∨
      step B w (K, .request L nowMs freshId r) =
        ({ w with daemon := (w.daemon.step B (.request L nowMs freshId r)).1 },
          (w.daemon.step B (.request L nowMs freshId r)).2) := by
  simp only [step, Daemon.step]
  by_cases hup : w.daemon.up = true
  · rw [if_pos hup, if_pos hup, request]
    split
    · exact .inl ⟨w.daemon.store, w.poisoned, rfl⟩
    · split
      · exact .inl ⟨_, true, rfl⟩
      · exact .inr rfl
  · rw [if_neg hup, if_neg hup]
    exact .inr rfl

theorem pump_kept (w : Guarded σ τ α) :
    (w.pump B).daemon.cmds = w.daemon.cmds ∧ (w.pump B).daemon.sched = w.daemon.sched ∧
      (w.pump B).daemon.inflight = w.daemon.inflight ∧
      (w.pump B).daemon.backlog = w.daemon.backlog ∧
      (w.pump B).daemon.stopped = w.daemon.stopped := by
  unfold pump
  split
  · exact ⟨rfl, rfl, rfl, rfl, rfl⟩
  · simp only [Broadcasting.step, Daemon.step, Daemon.pump]
    split <;> exact ⟨rfl, rfl, rfl, rfl, rfl⟩

/-- The daemon goes on as it would without a mutex, as long as the pump lives. -/
theorem step_daemon (i : Hazard α × DaemonInput σ τ α) (halive : w.pumpGone = false)
    (hspared : i.2 = .pump → w.lethal = false) :
    (step B w i).1.pumpGone = false ∧ ∃ inputs : List (DaemonInput σ τ α),
      (run (Daemon.step B) w.daemon inputs).1 = (step B w i).1.daemon := by
  obtain ⟨K, i⟩ := i
  have hobey : ∀ i : DaemonInput σ τ α, (∀ L nowMs env, i ≠ .restart L nowMs env) →
      (w.obey B i).1.pumpGone = false ∧ ∃ inputs : List (DaemonInput σ τ α),
        (run (Daemon.step B) w.daemon inputs).1 = (w.obey B i).1.daemon := by
    intro i hi
    refine ⟨halive, [i], ?_⟩
    simp only [obey, heard, halive, Broadcasting.step_eq i hi, run_cons, run_nil,
      Bool.false_eq_true, if_false]
  cases i with
  | request L nowMs freshId r =>
    simp only [step]
    by_cases hup : w.daemon.up = true
    · rw [if_pos hup, request]
      split
      · exact ⟨halive, [], rfl⟩
      · split
        · rename_i store hcrash
          obtain ⟨L', hrequest⟩ := crashed_eq freshId hcrash
          refine ⟨halive, [.request L' nowMs freshId r], ?_⟩
          simp only [run_cons, run_nil, Daemon.step, hup, if_true, hrequest]
        · refine ⟨halive, [.request L nowMs freshId r], ?_⟩
          simp only [run_cons, run_nil, Daemon.step, hup, if_true]
    · rw [if_neg hup]
      exact ⟨halive, [], rfl⟩
  | pump =>
    have hsafe : w.lethal = false := hspared rfl
    simp only [step, pump, hsafe, Bool.false_eq_true, if_false]
    exact ⟨halive, [.pump], rfl⟩
  | restart L nowMs env => exact ⟨rfl, [.restart L nowMs env], rfl⟩
  | deliver i => exact hobey (.deliver i) (by simp)
  | bootSend => exact hobey .bootSend (by simp)
  | drain nowMs stamps => exact hobey (.drain nowMs stamps) (by simp)
  | tick t stamps => exact hobey (.tick t stamps) (by simp)

def Spared (w : Guarded σ τ α) (i : Hazard α × DaemonInput σ τ α) : Prop :=
  i.2 = .pump → w.lethal = false

theorem run_daemon {is : List (Hazard α × DaemonInput σ τ α)} (halive : w.pumpGone = false)
    (h : ∀ x ∈ trail (step B) w is, Spared x.1 x.2) :
    ∃ inputs : List (DaemonInput σ τ α),
      (run (Daemon.step B) w.daemon inputs).1 = (run (step B) w is).1.daemon := by
  have hall : ∀ x ∈ trail (step B) w is, x.1.pumpGone = false :=
    trail_invariant (I := fun w : Guarded σ τ α => w.pumpGone = false) halive
      fun x hx hI => (step_daemon x.2 hI (h x hx)).1
  have hrefines : ∃ inputs : List (DaemonInput σ τ α), (∀ b ∈ inputs, True) ∧
      (run (Daemon.step B) w.daemon inputs).1 = (run (step B) w is).1.daemon ∧
      (run (Daemon.step B) w.daemon inputs).2.filterMap (fun _ => (none : Option Unit)) =
        (run (step B) w is).2.filterMap fun _ => none := by
    refine Simulation.run_refines (m := fun w : Guarded σ τ α => w.daemon) fun x hx => ?_
    obtain ⟨-, inputs, hinputs⟩ := step_daemon x.2 (hall x hx) (h x hx)
    exact ⟨inputs, fun _ _ => trivial, hinputs, by simp⟩
  obtain ⟨inputs, -, hstate, -⟩ := hrefines
  exact ⟨inputs, hstate⟩

end Guarded

end Vcli

import Vcli.Daemon.Digests
import Vcli.Daemon.Guarded
import Vcli.Daemon.Mirror

/-! The store follows the scheduler until the event pump has died. A reference that is too short
for a digest makes a submit panic while it holds the lock, and the next event of any program is
then the end of the pump. -/

namespace Vcli

open Transducer

/-- The panics of `materialize_template_assets`, over the paths of the daemon. What has been put
into the store by then stays there. -/
def Hazard.opening (v : Volume) (joinError : String) : Hazard AssetStore where
  crash a program baseDir nowMs :=
    (Fallible.crashState (Opening.materializeImageRef v baseDir nowMs) program.images
      (Opening.start a)).map (·.store)
  joinError := joinError

theorem Hazard.opening_crash_isSome (v : Volume) (joinError : String) (a : AssetStore)
    (program : Program) (baseDir : Option String) (nowMs : UnixMs) :
    ((Hazard.opening v joinError).crash a program baseDir nowMs).isSome ↔
      ∃ panic, Opening.materializeTemplateAssets v baseDir nowMs a program = .error panic := by
  have hmatch := rewriteProgram_matches (Opening.materializeImageRef v baseDir nowMs) program
  have hcrash := hmatch.crash_iff (s := Opening.start a)
  rw [← Fallible.crashState_isSome] at hcrash
  rw [Hazard.opening, Option.isSome_map]
  exact hcrash.symm

namespace Guarded

section Runs
variable {σ τ α : Type} {B : Backends σ τ} {w : Guarded σ τ α}

/-- Only a panic poisons the mutex. -/
theorem step_poisoned {i : Hazard α × DaemonInput σ τ α} (hw : w.poisoned = false)
    (h : ∀ L nowMs s r, i.1.crashed L nowMs s r = none) : (step B w i).1.poisoned = false := by
  obtain ⟨K, i⟩ := i
  cases i with
  | request L nowMs freshId r =>
    simp only [step]
    by_cases hup : w.daemon.up = true
    · rw [if_pos hup, request, hw, Bool.false_and, if_neg Bool.false_ne_true, h]
    · rw [if_neg hup]
      exact hw
  | pump =>
    simp only [step, pump]
    split <;> exact hw
  | restart => rfl
  | deliver | bootSend | drain | tick => exact hw

theorem spared_of_calm {is : List (Hazard α × DaemonInput σ τ α)} (hw : w.poisoned = false)
    (h : ∀ i ∈ is, ∀ L nowMs s r, i.1.crashed L nowMs s r = none) :
    ∀ x ∈ trail (step B) w is, Spared x.1 x.2 := by
  have hclean : ∀ x ∈ trail (step B) w is, x.1.poisoned = false := by
    refine trail_invariant (I := fun w : Guarded σ τ α => w.poisoned = false) hw ?_
    intro x hx hI
    exact step_poisoned hI (h x.2 (mem_of_mem_trail hx))
  intro x hx _
  rw [lethal, hclean x hx, Bool.false_and]

/-- Over whole runs, from any start-up on: whenever everything sent has been handled, the
store has for every program it knows the state that the scheduler has, unless the pump has met
an event of a program while the mutex was poisoned. -/
theorem store_mirrors_scheduler (B : Backends σ τ) (L : Loader α) (nowMs : UnixMs)
    (env : Env σ τ) (image : Store α) (is : List (Hazard α × DaemonInput σ τ α))
    (h : ∀ x ∈ trail (step B) (start L nowMs env image) is, Spared x.1 x.2) :
    let d := (run (step B) (start L nowMs env image) is).1.daemon
    d.Quiet → d.stopped = false → ∀ p rp row, d.sched.programs.lookup p = some rp →
      d.store.row p = some row → row.state = rp.state := by
  have halive : (start L nowMs env image).pumpGone = false := rfl
  obtain ⟨inputs, hdaemon⟩ := run_daemon halive h
  have hquiet := Daemon.quiet_mirrors B L nowMs env image inputs
  rw [show Daemon.startup L nowMs env image = (start L nowMs env image).daemon from rfl,
    hdaemon] at hquiet
  exact hquiet

end Runs

section Concrete

def disk : Disk := ⟨fun _ => .ok [], fun _ => .ok none⟩

def byImage : Loader AssetStore :=
  Loader.daemon disk (fun _ => .error "no source")
    (fun json => match json with
      | .string image => .ok (Opening.showing image)
      | _ => .error { code := .invalidProgram, message := "no image" })
    fun program => .ok program.name

def panics : Hazard AssetStore :=
  .opening ⟨"/data", [], disk.read, fun _ _ => .ok none⟩ "task 7 panicked"

def submitting (id : Nat) (image : String) : Hazard AssetStore × DaemonInput Unit Unit AssetStore :=
  (panics, .request byImage 1 ⟨id⟩ (.submit (.string image) none))

abbrev constant : Backends Unit Unit := Backends.constant (.ok ⟨true, none, 0⟩)

def announcing : Guarded Unit Unit AssetStore := start byImage 0 ⟨(), ()⟩ (.fresh .empty)

def poisoning : List (Hazard AssetStore × DaemonInput Unit Unit AssetStore) :=
  [submitting 1 "/logo.png", (panics, .deliver 0), (panics, .drain 2 fun _ => 2),
    (panics, .pump), (panics, .pump), (panics, .pump), submitting 2 "sha256:ab", (panics, .pump)]

abbrev Rested (d : Daemon Unit Unit AssetStore) : Prop :=
  d.backlog = [] ∧ d.inflight = [] ∧ d.cmds = [] ∧ d.events = [] ∧ d.stopped = false

/-- No event follows the panic, so that store and scheduler agree behind the poisoned mutex. -/
theorem store_mirrors_poisoned :
    ∃ rp row, (run (step constant) announcing poisoning).1.poisoned = true ∧
      (run (step constant) announcing poisoning).1.daemon.sched.programs.lookup ⟨1⟩ = some rp ∧
      (run (step constant) announcing poisoning).1.daemon.store.row ⟨1⟩ = some row ∧
      row.state = rp.state := by
  have hlethal : ((trail (step constant) announcing poisoning).all fun x => !x.1.lethal) = true := by
    decide +kernel
  have hspared : ∀ x ∈ trail (step constant) announcing poisoning, Spared x.1 x.2 := by
    intro x hx _
    exact Bool.not_eq_true' _ ▸ List.all_eq_true.mp hlethal x hx
  obtain ⟨hpoisoned, ⟨hup, hidle, hcmds, hevents, hrun⟩, hsched, hstore⟩ :
      (run (step constant) announcing poisoning).1.poisoned = true ∧
        Rested (run (step constant) announcing poisoning).1.daemon ∧
        ((run (step constant) announcing poisoning).1.daemon.sched.programs.lookup ⟨1⟩).map
          (·.state) = some .waiting ∧
        ((run (step constant) announcing poisoning).1.daemon.store.row ⟨1⟩).map (·.state) =
          some .waiting := by decide +kernel
  obtain ⟨rp, hrp, -⟩ := Option.map_eq_some_iff.mp hsched
  obtain ⟨row, hrow, -⟩ := Option.map_eq_some_iff.mp hstore
  refine ⟨rp, row, hpoisoned, hrp, hrow, ?_⟩
  have hmirrors := store_mirrors_scheduler constant byImage 0 ⟨(), ()⟩ (.fresh .empty) poisoning
    hspared
  rw [show start byImage 0 ⟨(), ()⟩ (.fresh .empty) = announcing from rfl] at hmirrors
  exact hmirrors ⟨hup, hidle, hcmds, hevents⟩ hrun ⟨1⟩ rp row hrp hrow

def starting : List (Hazard AssetStore × DaemonInput Unit Unit AssetStore) :=
  poisoning ++ [(panics, .request byImage 3 ⟨3⟩ (.start ⟨1⟩)), (panics, .deliver 0),
    (panics, .drain 4 fun _ => 4), (panics, .pump)]

/-- Both programs are accepted, everything sent has been handled, and the row stays behind. -/
theorem poisoned_store_falls_behind :
    (Dsl.Accepted Dsl.plainCrates (Opening.showing "/logo.png") ∧
      Dsl.Accepted Dsl.plainCrates (Opening.showing "sha256:ab")) ∧
    (run (step constant) announcing starting).1.daemon.Quiet ∧
      (run (step constant) announcing starting).1.daemon.stopped = false ∧
      ∃ rp row,
        (run (step constant) announcing starting).1.daemon.sched.programs.lookup ⟨1⟩ = some rp ∧
        (run (step constant) announcing starting).1.daemon.store.row ⟨1⟩ = some row ∧
        rp.state = .running ∧ row.state = .waiting := by
  obtain ⟨⟨hup, hidle, hcmds, hevents, hrun⟩, hsched, hstore⟩ :
      Rested (run (step constant) announcing starting).1.daemon ∧
        ((run (step constant) announcing starting).1.daemon.sched.programs.lookup ⟨1⟩).map
          (·.state) = some .running ∧
        ((run (step constant) announcing starting).1.daemon.store.row ⟨1⟩).map (·.state) =
          some .waiting := by decide +kernel
  obtain ⟨rp, hrp, hrunning⟩ := Option.map_eq_some_iff.mp hsched
  obtain ⟨row, hrow, hwaiting⟩ := Option.map_eq_some_iff.mp hstore
  refine ⟨⟨Opening.showing_accepted ?_, Opening.showing_accepted ?_⟩,
    ⟨hup, hidle, hcmds, hevents⟩, hrun, rp, row, hrp, hrow, hrunning, hwaiting⟩
  · decide +kernel
  · decide +kernel

end Concrete

end Guarded

end Vcli

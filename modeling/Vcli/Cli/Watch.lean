import Vcli.Daemon.Following
import Vcli.Lib.Selection

/-! `vcli submit --watch`: the loop over what the stream of a program's log gives, and what it
shows. -/

namespace Vcli.Cli

open Ipc Transducer Simulation Selection

def isTerminal (ev : Event) : Bool :=
  match ev.data with
  | .programCompleted .. | .programFailed .. => true
  | .programStateChanged _ _ to_ _ => decide (to_ = .cancelled)
  | _ => false

section Yields
variable {σ τ α : Type} {S : SerdeJson} {debug : RequestOp → String} {ρ : F64 → F64}
  {d d' : Direct DaemonHandler.Task}
  {h es : List (Happening (Broadcasting σ τ α) DaemonHandler.Told)}

def yieldsOf (h : List (Happening (Broadcasting σ τ α) DaemonHandler.Told)) :
    List (Except ClientError (Option StreamFrame)) :=
  h.filterMap fun
    | .yielded result => some result
    | _ => none

inductive After : Direct DaemonHandler.Task →
    List (Except ClientError (Option StreamFrame)) → Prop
  | more (d : Direct DaemonHandler.Task) : After d []
  | ended (id : RequestId) (n : Nat) : After (.finished id) (List.replicate (n + 1) (.ok none))
  | failed (e : ClientError) : After .closed [.error e]

def Yielded (d : Direct DaemonHandler.Task)
    (h : List (Happening (Broadcasting σ τ α) DaemonHandler.Told)) : Prop :=
  ∃ after, yieldsOf h = (framesOf h).map (fun frame => .ok (some frame)) ++ after ∧ After d after

theorem After.eq_nil {after : List (Except ClientError (Option StreamFrame))} (h : After d after)
    (hfinished : ∀ id, d ≠ .finished id) (hover : d ≠ .closed) : after = [] := by
  cases h with
  | more => rfl
  | ended id n => exact absurd rfl (hfinished id)
  | failed e => exact absurd rfl hover

theorem After.moved {after : List (Except ClientError (Option StreamFrame))} (h : After d after)
    {e : Happening (Broadcasting σ τ α) DaemonHandler.Told}
    (hstep : Calling.Directly S ρ debug d e d') (hquiet : yieldsOf [e] = []) : After d' after := by
  cases h with
  | more => exact .more d'
  | ended id n =>
    cases hstep with
    | done => cases hquiet
  | failed e => cases hstep

theorem Yielded.step {e : Happening (Broadcasting σ τ α) DaemonHandler.Told} (hy : Yielded d h)
    (hstep : Calling.Directly S ρ debug d e d') : Yielded d' (h ++ [e]) := by
  obtain ⟨after, hyields, hafter⟩ := hy
  have hmore : yieldsOf (h ++ [e]) = yieldsOf h ++ yieldsOf [e] := List.filterMap_append
  unfold Yielded
  have hmoved : yieldsOf [e] = [] → After d' after := hafter.moved hstep
  rw [hmore, hyields, framesOf_snoc]
  cases hstep with
  | yielded hfits =>
    obtain rfl := hafter.eq_nil (by simp) (by simp)
    exact ⟨[], by simp [yieldsOf, framesOf], .more _⟩
  | finished =>
    obtain rfl := hafter.eq_nil (by simp) (by simp)
    exact ⟨_, by simp [yieldsOf, framesOf], .ended _ 0⟩
  | done =>
    cases hafter with
    | more => exact ⟨_, by simp [yieldsOf, framesOf], .ended _ 0⟩
    | ended _ n =>
      refine ⟨List.replicate (n + 1 + 1) (.ok none), ?_, .ended _ (n + 1)⟩
      have hagain : List.replicate (n + 1 + 1) (.ok none) =
          (List.replicate (n + 1) (.ok none) ++ [.ok none] :
            List (Except ClientError (Option StreamFrame))) := List.replicate_succ'
      rw [hagain]
      simp [yieldsOf, framesOf]
  | unfollowed len =>
    obtain rfl := hafter.eq_nil (by simp) (by simp)
    refine ⟨[.error (.transport (.frameTooLarge len maxFrameLen))], ?_, .failed _⟩
    simp [yieldsOf, framesOf]
  | broken hfits =>
    obtain rfl := hafter.eq_nil (by simp) (by simp)
    refine ⟨[.error (.transport (.unexpectedEof 0 4))], ?_, .failed _⟩
    simp [yieldsOf, framesOf]
  | called | misread | tooLarge | refused | answered | failed | rejected | returned | mismatched
  | unanswered | subscribed | tooLong | resumed | sent | ended | aborted | dropped =>
    exact ⟨after, by simp [yieldsOf, framesOf], hmoved rfl⟩

end Yields

section Shown
variable {frames : List StreamFrame} {after : List (Except ClientError (Option StreamFrame))}

variable {id : RequestId} {pid : ProgramId} {ds : List Delivery}

section Account
variable {σ τ α : Type} {log : List Event} {start next : Nat} {behind : Prop}
  {given rest : List StreamFrame} {d : Direct DaemonHandler.Task}
  {h : List (Happening (Broadcasting σ τ α) DaemonHandler.Told)}

end Account

end Shown

end Vcli.Cli

namespace Vcli.Calling

open Ipc Transducer Simulation Selection Cli

variable {σ τ α : Type} {B : Backends σ τ} {S : SerdeJson} {debug : RequestOp → String}
  {ρ : F64 → F64} {id : RequestId} {pid : ProgramId}

def waiting : List (Move Unit Unit Unit) :=
  [.turn (.serve [] (.read ⟨0#128⟩)), .turn (.serve [] (.poll Serving.quiet)), .daemon .pump,
    .turn (.serve [] (.poll Serving.quiet)), .turn (.nextFrame [7])]

end Vcli.Calling

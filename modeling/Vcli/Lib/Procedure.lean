import Mathlib.Data.List.Infix

/-! Procedures that work on the outside world one step at a time. They read a flag that others may
raise at any moment, attempt what may fail, and act; a run keeps the history of it all. `wp` gives
pre- and postconditions on histories, whatever the world answers. -/

inductive Procedure (A α : Type)
  | done (a : α)
  | ask (next : Bool → Procedure A α)
  | attempt (next : Bool → Procedure A α)
  | act (a : A) (next : Procedure A α)

namespace Procedure

variable {A α β ε : Type}

inductive Deed (A : Type)
  | asked (raised : Bool)
  | attempted (ok : Bool)
  | acted (a : A)
deriving DecidableEq, Repr

structure World where
  raised : Nat → Bool
  grants : Nat → Bool

def World.quiet : World := ⟨fun _ => false, fun _ => true⟩

def bind : Procedure A α → (α → Procedure A β) → Procedure A β
  | done a, f => f a
  | ask next, f => ask fun b => (next b).bind f
  | attempt next, f => attempt fun b => (next b).bind f
  | act a next, f => act a (next.bind f)

instance : Monad (Procedure A) where
  pure := done
  bind := bind

def run (w : World) : Nat → Procedure A α → α × List (Deed A)
  | _, done a => (a, [])
  | n, ask next =>
    let r := run w (n + 1) (next (w.raised n))
    (r.1, .asked (w.raised n) :: r.2)
  | n, attempt next =>
    let r := run w (n + 1) (next (w.grants n))
    (r.1, .attempted (w.grants n) :: r.2)
  | n, act a next =>
    let r := run w (n + 1) next
    (r.1, .acted a :: r.2)

section Rules
variable {I : List (Deed A) → Deed A → Prop} {Q Q' : α → List (Deed A) → Prop} {h : List (Deed A)}
  {s : Procedure A α}

end Rules

section Exceptions
variable {I : List (Deed A) → Deed A → Prop} {h : List (Deed A)}

end Exceptions

section Flag
variable {s : Procedure A α} {k n : Nat}

end Flag

end Procedure

import Mathlib.Algebra.Group.Int.Defs
import Mathlib.Algebra.Group.Nat.Defs

/-! What an overflow does: a debug build panics, and a release build wraps. -/

namespace Vcli

inductive Build
  | debug
  | release
deriving DecidableEq, Repr

def wrapI32 (n : Int) : Int := n.bmod (2 ^ 32)

def wrapI64 (n : Int) : Int := n.bmod (2 ^ 64)

theorem wrapI32_of_fits {n : Int} (hlow : -2 ^ 31 ≤ n) (hhigh : n < 2 ^ 31) : wrapI32 n = n :=
  Int.bmod_eq_of_le (by omega) (by omega)

theorem wrapI64_of_fits {n : Int} (hlow : -2 ^ 63 ≤ n) (hhigh : n < 2 ^ 63) : wrapI64 n = n :=
  Int.bmod_eq_of_le (by omega) (by omega)

theorem wrapI64_add (n k : Int) : wrapI64 (wrapI64 n + k) = wrapI64 (n + k) := Int.bmod_add_bmod

end Vcli

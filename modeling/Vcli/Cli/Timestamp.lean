import Vcli.Core.Build
import Vcli.Lib.Decimal
import Vcli.Runtime.Body

/-! Timestamps of the command line: the one an event is shown with, and the one that `--since`
reads. -/

namespace Vcli.Cli

inductive Panic
  | overflow
deriving DecidableEq, Repr

abbrev Checked (α : Type) := Except Panic α

def arithI32 (build : Build) (n : Int) : Checked Int :=
  match build with
  | .debug => if -2 ^ 31 ≤ n ∧ n < 2 ^ 31 then .ok n else .error .overflow
  | .release => .ok (wrapI32 n)

def arithI64 (build : Build) (n : Int) : Checked Int :=
  match build with
  | .debug => if -2 ^ 63 ≤ n ∧ n < 2 ^ 63 then .ok n else .error .overflow
  | .release => .ok (wrapI64 n)

section Format
variable (build : Build)

/-- The year, the month and the day; the casts keep the low bits. -/
def civilFromDays (z : Int) : Checked (Int × Nat × Nat) := do
  let z ← arithI64 build (z + 719468)
  let era := (if 0 ≤ z then z else z - 146096).tdiv 146097
  let doe := (z - era * 146097).toNat
  let yoe := (doe - doe / 1460 + doe / 36524 - doe / 146096) / 365
  let y := yoe + era * 400
  let doy := doe - (365 * yoe + yoe / 4 - yoe / 100)
  let mp := (5 * doy + 2) / 153
  let d := doy - (153 * mp + 2) / 5 + 1
  let m := if mp < 10 then mp + 3 else mp - 9
  let y := if m ≤ 2 then y + 1 else y
  return (y.bmod (2 ^ 32), m % 256, d % 256)

def paddedInt (width : Nat) (n : Int) : List Char :=
  if n < 0 then '-' :: Decimal.padded (width - 1) n.natAbs else Decimal.padded width n.natAbs

def formatUnixMs (ms : Int) : Checked String := do
  let totalSecs := ms / 1000
  let subMs := (ms % 1000).toNat
  let days := totalSecs / 86400
  let secsOfDay := (totalSecs % 86400).toNat
  let hour := secsOfDay / 3600
  let minute := secsOfDay % 3600 / 60
  let second := secsOfDay % 60
  let (year, month, day) ← civilFromDays build days
  return String.ofList (paddedInt 4 year ++ '-' :: Decimal.padded 2 month ++
    '-' :: Decimal.padded 2 day ++ 'T' :: Decimal.padded 2 hour ++ ':' :: Decimal.padded 2 minute ++
      ':' :: Decimal.padded 2 second ++ '.' :: Decimal.padded 3 subMs ++ ['Z'])

end Format

section Parse
variable (build : Build)

def daysFromCivil (year : Int) (month day : Nat) : Checked (Option Int) :=
  if ¬ (1 ≤ month ∧ month ≤ 12) ∨ ¬ (1 ≤ day ∧ day ≤ 31) then .ok none
  else do
    let year ← (if month ≤ 2 then arithI32 build (year - 1) else .ok year)
    let start ← (if 0 ≤ year then .ok year else arithI32 build (year - 399))
    let era := start.tdiv 400
    if year - era * 400 < 0 then return none
    let yoe := (year - era * 400).toNat
    let doy := (153 * (if month > 2 then month - 3 else month + 9) + 2) / 5 + day - 1
    let doe := yoe * 365 + yoe / 4 - yoe / 100 + doy
    return some (era * 146097 + doe - 719468)

structure Fields where
  year : Int
  month : Nat
  day : Nat
  hour : Nat
  minute : Nat
  sec : Nat
  millis : Nat
deriving DecidableEq, Repr

def maxI32 : Nat := 2 ^ 31 - 1

def maxU32 : Nat := 2 ^ 32 - 1

def readFields (s : String) : Option Fields := do
  guard (s.toList.getLast? = some 'Z')
  let (date, time) ← Expr.splitOnce 'T' s.toList.dropLast
  let dparts := date.splitOn '-'
  let year ← Decimal.parseSigned maxI32 (← dparts[0]?)
  let month ← Decimal.parseUnsigned maxU32 (← dparts[1]?)
  let day ← Decimal.parseUnsigned maxU32 (← dparts[2]?)
  let (time, frac) := (Expr.splitOnce '.' time).getD (time, ['0'])
  let tparts := time.splitOn ':'
  let hour ← Decimal.parseUnsigned maxU32 (← tparts[0]?)
  let minute ← Decimal.parseUnsigned maxU32 (← tparts[1]?)
  let sec ← Decimal.parseUnsigned maxU32 (← tparts[2]?)
  let millis ← Decimal.parseUnsigned maxU32 frac
  return ⟨year, month, day, hour, minute, sec, millis⟩

def parseRfc3339Utc (s : String) : Checked (Option Int) :=
  match readFields s with
  | none => .ok none
  | some f => do
    match ← daysFromCivil build f.year f.month f.day with
    | none => return none
    | some days =>
      let ms ← arithI64 build (days * 86400000)
      let ms ← arithI64 build (ms + f.hour * 3600000)
      let ms ← arithI64 build (ms + f.minute * 60000)
      let ms ← arithI64 build (ms + f.sec * 1000)
      let ms ← arithI64 build (ms + f.millis)
      return some ms

end Parse

end Vcli.Cli

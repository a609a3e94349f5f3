import Vcli.Core.Event
import Vcli.Core.Sha256
import Vcli.Lib.Sorting

/-! The canonical bytes of a JSON value, and the hash over them. Unicode normalization and the
shortest decimal form of a float are parameters. -/

namespace Vcli

@[elab_as_elim] theorem Json.induct {motive : Json → Prop} (null : motive .null)
    (bool : ∀ b, motive (.bool b)) (number : ∀ n, motive (.number n))
    (string : ∀ s, motive (.string s))
    (array : ∀ items, (∀ v ∈ items, motive v) → motive (.array items))
    (object : ∀ entries : List (String × Json), (∀ e ∈ entries, motive e.2) →
      motive (.object entries)) (v : Json) : motive v :=
  @Json.rec motive (fun items => ∀ v ∈ items, motive v) (fun entries => ∀ e ∈ entries, motive e.2)
    (fun e => motive e.2) null bool number string array object nofun
    (fun _ _ hv hitems => List.forall_mem_cons.mpr ⟨hv, hitems⟩) nofun
    (fun _ _ he hentries => List.forall_mem_cons.mpr ⟨he, hentries⟩) (fun _ _ hv => hv) v

section Each

variable (N : JsonNumber → Prop) (S : String → Prop) (K : List String → Prop)

mutual

/-- `N` holds of every number, `S` of every string and `K` of the keys of every object, at any
depth. -/
def Json.Each : Json → Prop
  | .null => True
  | .bool _ => True
  | .number n => N n
  | .string s => S s
  | .array items => Json.EachItem items
  | .object entries => K (entries.map Prod.fst) ∧ Json.EachEntry entries

def Json.EachItem : List Json → Prop
  | [] => True
  | v :: items => v.Each ∧ Json.EachItem items

def Json.EachEntry : List (String × Json) → Prop
  | [] => True
  | (_, v) :: entries => v.Each ∧ Json.EachEntry entries

end

variable {N S K}

theorem Json.each_array {items : List Json} :
    (Json.array items).Each N S K ↔ ∀ v ∈ items, v.Each N S K := by
  rw [Json.Each]
  induction items with
  | nil => simp [Json.EachItem]
  | cons v items ih => simp [Json.EachItem, ih]

theorem Json.eachEntry_iff {entries : List (String × Json)} :
    Json.EachEntry N S K entries ↔ ∀ e ∈ entries, e.2.Each N S K := by
  induction entries with
  | nil => simp [Json.EachEntry]
  | cons e entries ih => rw [List.forall_mem_cons, ← ih]; rfl

theorem Json.each_object {entries : List (String × Json)} :
    (Json.object entries).Each N S K ↔
      K (entries.map Prod.fst) ∧ ∀ e ∈ entries, e.2.Each N S K := by
  rw [Json.Each, Json.eachEntry_iff]

end Each

def F64.isFinite (x : F64) : Bool := (x.bits &&& 0x7fffffffffffffff#64).ult 0x7ff0000000000000#64

namespace JsonNumber

/-- The numbers a `serde_json::Number` can hold. -/
def Representable : JsonNumber → Prop
  | int i => -2 ^ 63 ≤ i ∧ i < 2 ^ 64
  | float f => f.isFinite

def plain : JsonNumber → JsonNumber
  | int i => int i
  | float f => float (if f.rank = 0 then ⟨0#64⟩ else f)

end JsonNumber

/-- A JSON tree as `serde_json` builds it: its numbers can be held, and no object has a key
twice. -/
def Json.WellFormed (v : Json) : Prop := v.Each JsonNumber.Representable (fun _ => True) List.Nodup

def Value := { v : Json // v.WellFormed }

inductive CanonicalError
  | io (message : String)
deriving DecidableEq, Repr

abbrev Written := Except CanonicalError (List Char)

def utf8 (s : String) : List UInt8 := s.toList.flatMap String.utf8EncodeChar

def decimal (i : Int) : List Char :=
  if i < 0 then '-' :: Nat.toDigits 10 i.natAbs else Nat.toDigits 10 i.natAbs

def escape (c : Char) : List Char :=
  if c = '"' then ['\\', '"']
  else if c = '\\' then ['\\', '\\']
  else if c = '\n' then ['\\', 'n']
  else if c = '\r' then ['\\', 'r']
  else if c = '\t' then ['\\', 't']
  else if c = '\x08' then ['\\', 'b']
  else if c = '\x0c' then ['\\', 'f']
  else if c.toNat < 0x20 then
    ['\\', 'u', '0', '0', Quoted.hexDigit (c.toNat / 16), Quoted.hexDigit (c.toNat % 16)]
  else [c]

def separated : List (List Char) → List Char
  | [] => []
  | [part] => part
  | part :: next :: parts => part ++ ',' :: separated (next :: parts)

section Write

variable (nfc : String → String) (ryu : F64 → List Char)

def writeNumber : JsonNumber → Written
  | .int i =>
    if -2 ^ 63 ≤ i ∧ i < 2 ^ 63 then .ok (if i = 0 then ['0'] else decimal i)
    else if 0 ≤ i ∧ i < 2 ^ 64 then .ok (decimal i)
    else .error (.io "unrepresentable number")
  | .float f =>
    if f.isFinite then .ok (ryu (if f.rank = 0 then ⟨0#64⟩ else f))
    else .error (.io "canonical JSON: non-finite number")

def writeString (s : String) : List Char := '"' :: (nfc s).toList.flatMap escape ++ ['"']

def writeArray (items : List Written) : Written := do
  let items ← items.mapM id
  return '[' :: separated items ++ [']']

def writeObject (entries : List (String × Written)) : Written := do
  let members ← (Sorting.byKey utf8 entries).mapM fun e => do
    let v ← e.2
    return writeString nfc e.1 ++ ':' :: v
  return '\x7b' :: separated members ++ ['\x7d']

mutual

def writeValue : Json → Written
  | .null => .ok "null".toList
  | .bool true => .ok "true".toList
  | .bool false => .ok "false".toList
  | .number n => writeNumber ryu n
  | .string s => .ok (writeString nfc s)
  | .array items => writeArray (writeItems items)
  | .object entries => writeObject nfc (writeEntries entries)

def writeItems : List Json → List Written
  | [] => []
  | v :: items => writeValue v :: writeItems items

def writeEntries : List (String × Json) → List (String × Written)
  | [] => []
  | (k, v) :: entries => (k, writeValue v) :: writeEntries entries

end

def canonicalize (v : Json) : Except CanonicalError (List UInt8) := do
  let text ← writeValue nfc ryu v
  return text.flatMap String.utf8EncodeChar

def predicateHash (v : Json) : Except CanonicalError String := do
  let bytes ← canonicalize nfc ryu v
  return Sha256.sha256Hex bytes

theorem writeItems_eq (items : List Json) : writeItems nfc ryu items =
    items.map (writeValue nfc ryu) := by
  induction items with
  | nil => rfl
  | cons v items ih => rw [writeItems, ih, List.map_cons]

theorem writeEntries_eq (entries : List (String × Json)) : writeEntries nfc ryu entries =
    entries.map (Prod.map id (writeValue nfc ryu)) := by
  induction entries with
  | nil => rfl
  | cons e entries ih => rw [writeEntries, ih, List.map_cons]; rfl

end Write

end Vcli

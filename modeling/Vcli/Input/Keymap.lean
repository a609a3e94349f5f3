import Mathlib.Data.List.Basic
import Vcli.Runtime.Body

/-! The canonical key names and their virtual key codes on macOS. -/

namespace Vcli

inductive NamedKey
  | return_
  | tab
  | space
  | escape
  | backspace
  | delete
  | left
  | right
  | up
  | down
  | home
  | end_
  | pageUp
  | pageDown
  | function (n : UInt8)
deriving DecidableEq, Repr

inductive CanonicalKey
  | char (c : Char)
  | named (key : NamedKey)
deriving DecidableEq, Repr

namespace Keymap

def isWhitespace (c : Char) : Bool :=
  let n := c.toNat
  (9 ≤ n && n ≤ 13) || n = 0x20 || n = 0x85 || n = 0xa0 || n = 0x1680 ||
    (0x2000 ≤ n && n ≤ 0x200a) || n = 0x2028 || n = 0x2029 || n = 0x202f || n = 0x205f || n = 0x3000

def trim (s : List Char) : List Char :=
  ((s.dropWhile isWhitespace).reverse.dropWhile isWhitespace).reverse

def parseU8 (s : List Char) : Option UInt8 :=
  let digits := match s with
    | '+' :: rest => rest
    | _ => s
  if digits = [] ∨ digits.any (fun c => !c.isDigit) then none
  else
    let n := digits.foldl (fun n c => n * 10 + (c.toNat - '0'.toNat)) 0
    if n ≤ 255 then some (.ofNat n) else none

def functionKey (n : List Char) : Option NamedKey :=
  match n with
  | 'f' :: rest => do
    let num ← parseU8 rest
    if 1 ≤ num ∧ num ≤ 12 then some (.function num) else none
  | _ => none

def namedKey (n : String) : Option NamedKey :=
  match n with
  | "return" | "enter" => some .return_
  | "tab" => some .tab
  | "space" => some .space
  | "escape" | "esc" => some .escape
  | "backspace" => some .backspace
  | "delete" | "forward_delete" => some .delete
  | "left" => some .left
  | "right" => some .right
  | "up" => some .up
  | "down" => some .down
  | "home" => some .home
  | "end" => some .end_
  | "page_up" | "pageup" => some .pageUp
  | "page_down" | "pagedown" => some .pageDown
  | _ => none

def parse (name : String) : Except InputError CanonicalKey :=
  let n := (trim name.toList).map Char.toLower
  if n = [] then .error (.unknownKey name)
  else
    match functionKey n with
    | some key => .ok (.named key)
    | none =>
      match namedKey (String.ofList n) with
      | some key => .ok (.named key)
      | none =>
        match n with
        | [c] => .ok (.char c)
        | _ => .error (.unknownKey name)

def asciiToMacosKeycode (c : Char) : Option UInt16 :=
  match c with
  | 'a' => some 0x00
  | 's' => some 0x01
  | 'd' => some 0x02
  | 'f' => some 0x03
  | 'h' => some 0x04
  | 'g' => some 0x05
  | 'z' => some 0x06
  | 'x' => some 0x07
  | 'c' => some 0x08
  | 'v' => some 0x09
  | 'b' => some 0x0b
  | 'q' => some 0x0c
  | 'w' => some 0x0d
  | 'e' => some 0x0e
  | 'r' => some 0x0f
  | 'y' => some 0x10
  | 't' => some 0x11
  | '1' => some 0x12
  | '2' => some 0x13
  | '3' => some 0x14
  | '4' => some 0x15
  | '6' => some 0x16
  | '5' => some 0x17
  | '=' => some 0x18
  | '9' => some 0x19
  | '7' => some 0x1a
  | '-' => some 0x1b
  | '8' => some 0x1c
  | '0' => some 0x1d
  | ']' => some 0x1e
  | 'o' => some 0x1f
  | 'u' => some 0x20
  | '[' => some 0x21
  | 'i' => some 0x22
  | 'p' => some 0x23
  | 'l' => some 0x25
  | 'j' => some 0x26
  | '\'' => some 0x27
  | 'k' => some 0x28
  | ';' => some 0x29
  | '\\' => some 0x2a
  | ',' => some 0x2b
  | '/' => some 0x2c
  | 'n' => some 0x2d
  | 'm' => some 0x2e
  | '.' => some 0x2f
  | '\x60' => some 0x32
  | _ => none

def macosKeycode (key : CanonicalKey) : Option UInt16 :=
  match key with
  | .named .return_ => some 0x24
  | .named .tab => some 0x30
  | .named .space => some 0x31
  | .named .backspace => some 0x33
  | .named .escape => some 0x35
  | .named .delete => some 0x75
  | .named .home => some 0x73
  | .named .end_ => some 0x77
  | .named .pageUp => some 0x74
  | .named .pageDown => some 0x79
  | .named .left => some 0x7b
  | .named .right => some 0x7c
  | .named .down => some 0x7d
  | .named .up => some 0x7e
  | .named (.function n) =>
    match n.toNat with
    | 1 => some 0x7a
    | 2 => some 0x78
    | 3 => some 0x63
    | 4 => some 0x76
    | 5 => some 0x60
    | 6 => some 0x61
    | 7 => some 0x62
    | 8 => some 0x64
    | 9 => some 0x65
    | 10 => some 0x6d
    | 11 => some 0x67
    | 12 => some 0x6f
    | _ => none
  | .char c => asciiToMacosKeycode c

example : parse " Enter" = .ok (.named .return_) := by decide

end Keymap

end Vcli

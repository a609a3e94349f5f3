import Vcli.Core.Program

/-! Validation errors, the place in the document each points at, and the suggestions they
carry. -/

namespace Vcli.Dsl

inductive Segment
  | key (k : String)
  | index (i : Nat)
deriving DecidableEq, Repr

structure JsonPath where
  segments : List Segment
deriving DecidableEq, Repr

namespace JsonPath

def root : JsonPath := ⟨[]⟩

def key (p : JsonPath) (k : String) : JsonPath := ⟨p.segments ++ [.key k]⟩

def index (p : JsonPath) (i : Nat) : JsonPath := ⟨p.segments ++ [.index i]⟩

def escape : Char → List Char
  | '~' => ['~', '0']
  | '/' => ['~', '1']
  | c => [c]

def display : Segment → List Char
  | .key k => '/' :: k.toList.flatMap escape
  | .index i => '/' :: Nat.toDigits 10 i

def toList (p : JsonPath) : List Char := p.segments.flatMap display

end JsonPath

inductive DslErrorKind
  | jsonParse (message : String)
  | unsupportedDslVersion (found expectedMajor : String)
  | missingField (field : String)
  | wrongType (field expected got : String)
  | unknownPredicateName (name : String) (hint : Option String)
  | unknownWatchName (name : String) (hint : Option String)
  | unknownTriggerName (name : String) (hint : Option String)
  | predicateCycle (cycle : List String)
  | elapsedReferenceMissing (name : String)
  | negativeAbsoluteTarget (x y : Int)
  | bodyOnlyStepInWatch (kind : String)
  | malformedExpression (reason raw : String)
  | expressionOnLogicalPredicate (name : String)
  | emptyLogicalOp (op : String)
  | fullDisplayTemplateWithoutOptIn
  | canonicalizationFailed (message : String)
deriving DecidableEq, Repr

structure DslError where
  kind : DslErrorKind
  path : JsonPath
deriving DecidableEq, Repr

section Hint

/-- One character of `longer` may be without a partner. -/
def insertionFrom : Bool → List Char → List Char → Bool
  | _, _, [] => true
  | foundGap, shorter, lc :: longer =>
    match shorter with
    | sc :: rest =>
      if sc = lc then insertionFrom foundGap rest longer
      else if foundGap then false else insertionFrom true shorter longer
    | [] => if foundGap then false else insertionFrom true shorter longer

def isInsertion (shorter longer : List Char) : Bool :=
  longer.length = shorter.length + 1 && insertionFrom false shorter longer

def differences : List Char → List Char → Nat
  | a :: as, b :: bs => (if a = b then 0 else 1) + differences as bs
  | _, _ => 0

def distanceAtMostOne (a b : List Char) : Bool :=
  if a.length = b.length then differences a b ≤ 1
  else if a.length < b.length then isInsertion a b
  else isInsertion b a

/-- The first name within one edit; an exact match ends the search without one. -/
def didYouMean (needle : String) : List String → Option String
  | [] => none
  | c :: candidates =>
    if c = needle then none
    else if distanceAtMostOne needle.toList c.toList then some c
    else didYouMean needle candidates

end Hint

end Vcli.Dsl

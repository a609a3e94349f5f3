import Vcli.Core.Serde
import Vcli.Dsl.Error
import Vcli.Lib.Search

/-! The validator: from a JSON value to a program whose names resolve, whose predicates do not
depend on themselves, and whose step targets are well formed. -/

namespace Vcli.Dsl

abbrev Check := Except DslError Unit

section Expression

inductive Accessor
  | center
  | topLeft
  | box
  | confidence
deriving DecidableEq, Repr

structure Expression where
  name : String
  accessor : Accessor
deriving DecidableEq, Repr

def isValidName : List Char → Bool
  | [] => false
  | c :: cs => (c = '_' || c.isAlpha) && cs.all fun c => c = '_' || c.isAlphanum

def accessorOf (acc : List Char) : Option Accessor :=
  if acc = "center".toList then some .center
  else if acc = "top_left".toList then some .topLeft
  else if acc = "box".toList then some .box
  else if acc = "confidence".toList then some .confidence
  else none

def Expression.parse (src : String) (at_ : JsonPath) : Except DslError Expression :=
  let err (reason : String) := Except.error ⟨.malformedExpression reason src, at_⟩
  match src.toList with
  | '$' :: rest =>
    match rest.splitOn '.' with
    | [] | [] :: _ => err "missing predicate name after '$'"
    | name :: parts =>
      if isValidName name = false then err "predicate name must match [A-Za-z_][A-Za-z0-9_]*"
      else
        match parts with
        | [] => err "missing '.match'"
        | keyword :: parts =>
          if keyword ≠ "match".toList then err "expected '.match' after predicate name"
          else
            match parts with
            | [] => err "missing accessor"
            | acc :: parts =>
              if parts ≠ [] then err "trailing segments after accessor"
              else
                match accessorOf acc with
                | none => err "unknown accessor"
                | some accessor => .ok ⟨String.ofList name, accessor⟩
  | _ => err "expression must begin with '$'"

end Expression

section Predicates

def known (unknown : Option String → DslErrorKind) (name : String) (names : List String)
    (at_ : JsonPath) : Check :=
  if name ∈ names then .ok () else .error ⟨unknown (didYouMean name names), at_⟩

def resolveName (name : String) (names : List String) (at_ : JsonPath) : Check :=
  known (.unknownPredicateName name) name names at_

def resolveElapsed (name : String) (names : List String) (at_ : JsonPath) : Check :=
  known (fun _ => .elapsedReferenceMissing name) name names at_

def checkOperands (op : String) (of : List String) (names : List String) (at_ : JsonPath) : Check :=
  if of = [] then .error ⟨.emptyLogicalOp op, at_.key "of"⟩
  else of.zipIdx.forM fun n => resolveName n.1 names ((at_.key "of").index n.2)

def checkRegionReferences (region : Region) (names : List String) (at_ : JsonPath) : Check :=
  match region with
  | .relativeTo predicate _ _ _ => resolveName predicate names (at_.key "predicate")
  | _ => .ok ()

def checkPredicateReferences (pred : PredicateKind) (names : List String) (at_ : JsonPath) : Check :=
  match pred with
  | .allOf of => checkOperands "all_of" of names at_
  | .anyOf of => checkOperands "any_of" of names at_
  | .not of => resolveName of names (at_.key "of")
  | .elapsedMsSinceTrue predicate _ => resolveElapsed predicate names (at_.key "predicate")
  | .template _ _ region _ | .pixelDiff region _ _ =>
    checkRegionReferences region names (at_.key "region")
  | .colorAt .. => .ok ()

def validatePredicateShape (predicates : Predicates) : Check :=
  predicates.toList.forM fun e =>
    checkPredicateReferences e.2 predicates.keys ((JsonPath.root.key "predicates").key e.1)

def edgesOf : PredicateKind → List String
  | .allOf of | .anyOf of => of
  | .not of => [of]
  | .elapsedMsSinceTrue predicate _ => [predicate]
  | .template _ _ region _ | .pixelDiff region _ _ =>
    match region with
    | .relativeTo predicate _ _ _ => [predicate]
    | _ => []
  | .colorAt .. => []

def edgesIn (predicates : Predicates) (name : String) : List String :=
  (predicates[name]?.map edgesOf).getD []

def validatePredicateGraph (predicates : Predicates) : Check := do
  validatePredicateShape predicates
  match Search.sweep predicates.keys (edgesIn predicates) predicates.keys fun _ => .white with
  | .ok _ => .ok ()
  | .error cycle => .error ⟨.predicateCycle cycle, JsonPath.root.key "predicates"⟩

end Predicates

section Steps

def validateTarget (t : Target) (predicates : Predicates) (at_ : JsonPath) : Check :=
  match t with
  | .absolute p =>
    if p.x < 0 ∨ p.y < 0 then .error ⟨.negativeAbsoluteTarget p.x p.y, at_⟩ else .ok ()
  | .expression raw => do
    let expr ← Expression.parse raw at_
    match predicates[expr.name]? with
    | none => .error ⟨.unknownPredicateName expr.name (didYouMean expr.name predicates.keys), at_⟩
    | some (.allOf _) | some (.anyOf _) | some (.not _) | some (.elapsedMsSinceTrue ..) =>
      .error ⟨.expressionOnLogicalPredicate expr.name, at_⟩
    | some _ => .ok ()

def resolveStepName (name : String) (predicates : Predicates) (at_ : JsonPath) : Check :=
  known (.unknownPredicateName name) name predicates.keys at_

def bodyOnly (kind : String) (inWatch : Bool) (at_ : JsonPath) : Check :=
  if inWatch then .error ⟨.bodyOnlyStepInWatch kind, at_⟩ else .ok ()

def validateStep (s : Step) (predicates : Predicates) (inWatch : Bool) (at_ : JsonPath) : Check :=
  match s with
  | .move tgt | .click tgt _ | .scroll tgt _ _ => validateTarget tgt predicates (at_.key "at")
  | .type _ | .key _ _ => .ok ()
  | .waitFor predicate _ _ => do
    bodyOnly "wait_for" inWatch at_
    resolveStepName predicate predicates (at_.key "predicate")
  | .assert predicate _ => do
    bodyOnly "assert" inWatch at_
    resolveStepName predicate predicates (at_.key "predicate")
  | .sleepMs _ => bodyOnly "sleep_ms" inWatch at_

def validateSteps (inWatch : Bool) (steps : List Step) (predicates : Predicates)
    (base : JsonPath) : Check :=
  steps.zipIdx.forM fun s => validateStep s.1 predicates inWatch (base.index s.2)

def validateBodySteps (steps : List Step) (predicates : Predicates) (base : JsonPath) : Check :=
  validateSteps false steps predicates base

def validateWatchSteps (steps : List Step) (predicates : Predicates) (base : JsonPath) : Check :=
  validateSteps true steps predicates base

end Steps

section Watches

def synthetic : String := "__vcli_inline__"

def rewritePath (at_ path : JsonPath) : JsonPath :=
  match path.toList.dropPrefix? "/predicates/__vcli_inline__".toList with
  | some remainder =>
    ((remainder.splitOn '/').filter (· ≠ [])).foldl (fun p seg => p.key (String.ofList seg)) at_
  | none => path

def validateWatchWhen (when_ : WatchWhen) (predicates : Predicates) (at_ : JsonPath) : Check :=
  match when_ with
  | .byName name => known (.unknownWatchName name) name predicates.keys at_
  | .inline p =>
    if synthetic ∈ predicates then
      .error ⟨.canonicalizationFailed
        "reserved name __vcli_inline__ collides with a user predicate", at_⟩
    else
      (validatePredicateGraph (predicates.insert synthetic p)).mapError fun e =>
        { e with path := rewritePath at_ e.path }

def validateLifetime (l : Lifetime) (predicates : Predicates) (at_ : JsonPath) : Check :=
  match l with
  | .untilPredicate name =>
    known (.unknownPredicateName name) name predicates.keys (at_.key "name")
  | _ => .ok ()

def validateWatch (w : Watch) (predicates : Predicates) (at_ : JsonPath) : Check := do
  validateWatchWhen w.when_ predicates (at_.key "when")
  validateWatchSteps w.steps predicates (at_.key "do")
  validateLifetime w.lifetime predicates (at_.key "lifetime")

def validateWatches (watches : List Watch) (predicates : Predicates) : Check :=
  watches.zipIdx.forM fun w =>
    validateWatch w.1 predicates ((JsonPath.root.key "watches").index w.2)

end Watches

def validateTrigger (trigger : Trigger) (predicates : Predicates) : Check :=
  match trigger with
  | .onPredicate name =>
    known (.unknownTriggerName name) name predicates.keys
      ((JsonPath.root.key "trigger").key "name")
  | _ => .ok ()

/-- What the validator takes from other crates: NFC, the shortest form of a float, the parser of
identifiers and the message of serde for a value that is no program. -/
structure Crates where
  nfc : String → String
  ryu : F64 → List Char
  parseId : String → Option ProgramId
  explain : Json → String

def plainCrates : Crates :=
  ⟨id, fun f => if f = ⟨0x3fe0000000000000#64⟩ then "0.5".toList else "0.0".toList, fun _ => none,
    fun _ => "no program"⟩

abbrev PredicateHashes := Std.ExtTreeMap String String

structure Validated where
  program : Program
  hashes : PredicateHashes

section Parse
variable (X : Crates)

def computePredicateHashes (predicates : Predicates) : Except DslError PredicateHashes :=
  predicates.toList.foldlM (fun out e =>
    match predicateHash X.nfc X.ryu e.2.toValue with
    | .ok h => .ok (out.insert e.1 h)
    | .error (.io message) => .error ⟨.canonicalizationFailed ("io error: " ++ message),
        (JsonPath.root.key "predicates").key e.1⟩) ∅

def finish (program : Program) : Except DslError Validated := do
  validatePredicateGraph program.predicates
  validateTrigger program.trigger program.predicates
  validateWatches program.watches program.predicates
  validateBodySteps program.body program.predicates (JsonPath.root.key "body")
  let hashes ← computePredicateHashes X program.predicates
  return ⟨program, hashes⟩

def supportedDslMajor : String := "0"

def major (version : String) : String := String.ofList (version.toList.takeWhile (· ≠ '.'))

def typeName : Json → String
  | .null => "null"
  | .bool _ => "bool"
  | .number _ => "number"
  | .string _ => "string"
  | .array _ => "array"
  | .object _ => "object"

def parseEnvelopeValue (v : Json) : Except DslError Program :=
  match v with
  | .object entries =>
    match entries.lookup "version" with
    | none => .error ⟨.missingField "version", .root⟩
    | some (.string ver) =>
      if major ver ≠ supportedDslMajor then
        .error ⟨.unsupportedDslVersion ver supportedDslMajor, JsonPath.root.key "version"⟩
      else
        match Program.fromValue X.parseId v with
        | some program => .ok program
        | none => .error ⟨.jsonParse (X.explain v), .root⟩
    | some ver =>
      .error ⟨.wrongType "version" "string" (typeName ver), JsonPath.root.key "version"⟩
  | _ => .error ⟨.wrongType "<root>" "object" (typeName v), .root⟩

def validateValue (v : Json) : Except DslError Validated := do
  let program ← parseEnvelopeValue X v
  finish X program

end Parse

def Accepted (X : Crates) (p : Program) : Prop :=
  ∃ v : Value, ∃ hashes, validateValue X v.1 = .ok ⟨p, hashes⟩

end Vcli.Dsl

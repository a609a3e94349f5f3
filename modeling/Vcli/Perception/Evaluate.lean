import Mathlib.Data.List.AList
import Vcli.Perception.Leaf

/-! Evaluation of named predicates: the shared cache of a tick, the memory across ticks, and the
recursion through the predicate map of a program. -/

namespace Vcli

def F64.canonical (x : F64) : F64 := if x.rank = 0 then ⟨0#64⟩ else x

def Region.canonical (nfc : String → String) : Region → Region
  | absolute rect => absolute rect
  | window app titleContains windowIndex => window (nfc app) (titleContains.map nfc) windowIndex
  | relativeTo predicate anchor offset size => relativeTo (nfc predicate) anchor offset size

/-- The node as its canonical JSON shows it: strings in normal form and a single zero. The
numbers of a document are finite. -/
def PredicateKind.canonical (nfc : String → String) : PredicateKind → PredicateKind
  | template image confidence region throttleMs =>
    template (nfc image) confidence.canonical (region.canonical nfc) throttleMs
  | colorAt point rgb tolerance => colorAt point rgb tolerance
  | pixelDiff region baseline threshold =>
    pixelDiff (region.canonical nfc) (nfc baseline) threshold.canonical
  | allOf of => allOf (of.map nfc)
  | anyOf of => anyOf (of.map nfc)
  | not of => not (nfc of)
  | elapsedMsSinceTrue predicate ms => elapsedMsSinceTrue (nfc predicate) ms

/-- The digest of a node. SHA-256 is taken to be free of collisions, so a digest is as good as
what was digested: the canonical form of the node, without what its names are bound to. -/
structure PredicateHash where
  digested : PredicateKind
deriving DecidableEq, Repr

def hashPredicate (L : Libs) (p : PredicateKind) : PredicateHash := ⟨p.canonical L.nfc⟩

structure ProgramPredKey where
  program : ProgramId
  predicate : String
deriving DecidableEq, Repr

structure SnapshotKey where
  baseline : String
  rect : Rect
deriving DecidableEq, Repr

structure PriorSnapshot where
  dhash : BitVec 64
  atMs : UnixMs
deriving DecidableEq, Repr

/-- The cache of the tick and the state that outlives it. -/
structure Memory where
  cache : AList fun _ : PredicateHash => PredicateResult
  firstTrueAt : AList fun _ : ProgramPredKey => UnixMs
  priorSnapshots : AList fun _ : SnapshotKey => PriorSnapshot

namespace Memory

def new : Memory := ⟨∅, ∅, ∅⟩

def clear (m : Memory) : Memory := { m with cache := ∅ }

def remember (hash : PredicateHash) (r : PredicateResult) (m : Memory) : Memory :=
  { m with cache := m.cache.insert hash r }

def setFirstTrueAt (key : ProgramPredKey) (atMs : UnixMs) (m : Memory) : Memory :=
  match m.firstTrueAt.lookup key with
  | some _ => m
  | none => { m with firstTrueAt := m.firstTrueAt.insert key atMs }

def clearFirstTrueAt (key : ProgramPredKey) (m : Memory) : Memory :=
  { m with firstTrueAt := m.firstTrueAt.erase key }

def recordSnapshot (key : SnapshotKey) (snapshot : PriorSnapshot) (m : Memory) : Memory :=
  { m with priorSnapshots := m.priorSnapshots.insert key snapshot }

end Memory

abbrev Eval (α : Type) := Fallible Memory PerceptionError Crash α

structure EvalCtx where
  frame : Frame
  nowMs : UnixMs
  predicates : Predicates
  assets : Assets
  program : Option ProgramId

section Logical
variable {M : Type → Type} [Monad M]

/-- Evaluate in order up to the first result with the truth value `stop`. -/
def evalUntil (stop : Bool) (nowMs : UnixMs) (ev : String → M PredicateResult) :
    List String → M PredicateResult
  | [] => pure ⟨!stop, none, nowMs⟩
  | name :: rest => do
    let r ← ev name
    if r.truthy = stop then pure ⟨stop, none, nowMs⟩ else evalUntil stop nowMs ev rest

def evalAllOf (nowMs : UnixMs) (ev : String → M PredicateResult) (of : List String) :
    M PredicateResult := evalUntil false nowMs ev of

def evalAnyOf (nowMs : UnixMs) (ev : String → M PredicateResult) (of : List String) :
    M PredicateResult := evalUntil true nowMs ev of

def evalNot (nowMs : UnixMs) (ev : String → M PredicateResult) (name : String) :
    M PredicateResult := do
  let child ← ev name
  return ⟨!child.truthy, none, nowMs⟩

end Logical

/-- The edges of the child and the time since the last rising one, kept for the program under
the name of the child. -/
def evalElapsed (c : EvalCtx) (child : String) (ms : UInt32) (ev : Eval PredicateResult) :
    Eval PredicateResult :=
  match c.program with
  | none => Fallible.fail (.assetDecode "elapsed_ms_since_true evaluated outside program context")
  | some program => do
    let r ← ev
    if r.truthy then
      Fallible.modify (Memory.setFirstTrueAt ⟨program, child⟩ c.nowMs)
      let first := ((← Fallible.get).firstTrueAt.lookup ⟨program, child⟩).getD c.nowMs
      return ⟨decide ((ms.toNat : Int) ≤ UnixMs.saturatingSub c.nowMs first), none, c.nowMs⟩
    else
      Fallible.modify (Memory.clearFirstTrueAt ⟨program, child⟩)
      return ⟨false, none, c.nowMs⟩

def evalPixelDiff (L : Libs) (c : EvalCtx) (region : Region) (baseline : String)
    (threshold : F64) : Eval PredicateResult :=
  match region with
  | .absolute rect => do
    let crop ← Fallible.beside (cropRgb c.frame rect)
    let current := dhash L (L.grayscale crop)
    let prior := (← Fallible.get).priorSnapshots.lookup ⟨L.nfc baseline, rect⟩
    Fallible.modify (Memory.recordSnapshot ⟨L.nfc baseline, rect⟩ ⟨current, c.nowMs⟩)
    match prior with
    | none => return ⟨false, none, c.nowMs⟩
    | some prev =>
      return ⟨(F64.sixtyFourths (hamming current prev.dhash)).ge threshold, none, c.nowMs⟩
  | _ => return ⟨false, none, c.nowMs⟩

/-- The evaluator of each kind. Logical kinds pass their depth on; the clock starts over. -/
def dispatch (L : Libs) (c : EvalCtx) (ev : String → Nat → Eval PredicateResult) (depth : Nat) :
    PredicateKind → Eval PredicateResult
  | .colorAt point rgb tolerance =>
    Fallible.beside (evalColorAt c.frame c.nowMs point rgb tolerance)
  | .pixelDiff region baseline threshold => evalPixelDiff L c region baseline threshold
  | .template image confidence region _ =>
    Fallible.beside (evalTemplate L c.frame c.nowMs c.assets image confidence region)
  | .allOf of => evalAllOf c.nowMs (ev · depth) of
  | .anyOf of => evalAnyOf c.nowMs (ev · depth) of
  | .not of => evalNot c.nowMs (ev · depth) of
  | .elapsedMsSinceTrue child ms => evalElapsed c child ms (ev child 0)

/-- Look into the cache first, and put a new result there; errors are not kept. -/
def memoize (hash : PredicateHash) (x : Eval PredicateResult) : Eval PredicateResult := do
  match (← Fallible.get).cache.lookup hash with
  | some cached => return cached
  | none =>
    let r ← x
    Fallible.modify (Memory.remember hash r)
    return r

namespace Perception

def maxRecursionDepth : Nat := 32

/-- The fuel bounds the nesting of calls; the depth does not, since it starts over below an
elapsed predicate. -/
def evaluateNamedWithDepth (L : Libs) (c : EvalCtx) : Nat → String → Nat → Eval PredicateResult
  | 0, _, _ => Fallible.crash .stackOverflow
  | fuel + 1, name, depth =>
    if maxRecursionDepth ≤ depth then Fallible.fail (.cycle name)
    else
      match c.predicates[name]? with
      | none => Fallible.fail (.unknownPredicate name)
      | some p => memoize (hashPredicate L p)
          (dispatch L c (evaluateNamedWithDepth L c fuel) (depth + 1) p)

def evaluateNamed (L : Libs) (fuel : Nat) (c : EvalCtx) (name : String) : Eval PredicateResult :=
  match c.predicates[name]? with
  | none => Fallible.fail (.unknownPredicate name)
  | some p => memoize (hashPredicate L p) (dispatch L c (evaluateNamedWithDepth L c fuel) 0 p)

structure Profile where
  predicates : Predicates
  assets : Assets

structure Round where
  frame : Frame
  nowMs : UnixMs
  calls : List (ProgramId × String)

def Round.ctx (t : Round) (w : ProgramId → Profile) (id : ProgramId) : EvalCtx :=
  ⟨t.frame, t.nowMs, (w id).predicates, (w id).assets, some id⟩

abbrev Answer := ProgramId × Except PerceptionError PredicateResult

def runCalls (L : Libs) (fuel : Nat) (w : ProgramId → Profile) (t : Round) :
    List (ProgramId × String) → Memory → Except Crash (List Answer × Memory)
  | [], m => .ok ([], m)
  | (id, name) :: rest, m => do
    let r ← evaluateNamed L fuel (t.ctx w id) name m
    let out ← runCalls L fuel w t rest r.2
    return ((id, r.1) :: out.1, out.2)

def runRounds (L : Libs) (fuel : Nat) (w : ProgramId → Profile) :
    List Round → Memory → Except Crash (List Answer × Memory)
  | [], m => .ok ([], m)
  | t :: ts, m => do
    let r ← runCalls L fuel w t t.calls m.clear
    let out ← runRounds L fuel w ts r.2
    return (r.1 ++ out.1, out.2)

end Perception

end Vcli

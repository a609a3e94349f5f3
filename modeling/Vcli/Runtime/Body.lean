import Vcli.Core.Event
import Vcli.Lib.Interaction

/-! The body executor and the action dispatcher, acting on the perception façade and the
input sink and recording every exchange with them. -/

namespace Vcli

inductive PerceptionError
  | unknownPredicate (name : String)
  | cycle (name : String)
  | assetDecode (msg : String)
  | regionOutOfBounds
  | assetNotMaterialized (ref : String)
deriving DecidableEq, Repr

def PerceptionError.toString : PerceptionError → String
  | unknownPredicate name => "unknown predicate reference: " ++ name
  | cycle name => "cycle detected at predicate: " ++ name
  | assetDecode msg => "asset decode: " ++ msg
  | regionOutOfBounds => "region outside frame bounds"
  | assetNotMaterialized ref => "asset bytes not materialized for reference: " ++ ref

inductive InputError
  | halted
  | permissionDenied (detail : String)
  | backend (detail : String)
  | unknownKey (key : String)
  | invalidArgument (msg : String)
  | unimplemented
deriving DecidableEq, Repr

def InputError.toString : InputError → String
  | halted => "input halted: kill switch is engaged"
  | permissionDenied detail => "input permission denied: " ++ detail
  | backend detail => "backend failure: " ++ detail
  | unknownKey key => "unknown key: " ++ key
  | invalidArgument msg => "invalid input argument: " ++ msg
  | unimplemented => "not implemented on this platform"

inductive InputCall
  | mouseMove (to_ : Point)
  | click (at_ : Point) (button : Button) (modifiers : List Modifier) (holdMs : UInt32)
  | typeText (text : String)
  | keyCombo (modifiers : List Modifier) (key : String)
deriving DecidableEq, Repr

namespace InputCall

def isMouse : InputCall → Bool
  | mouseMove _ | click .. => true
  | _ => false

end InputCall

inductive RuntimeError
  | capture (msg : String)
  | input (msg : String)
  | perception (msg : String)
  | waitForTimeout (predicate : String) (waitedMs : UInt32)
  | assertFailed (predicate : String)
  | programTimeout (elapsedMs : UInt32)
  | noveltyTimeout (timeoutMs : UInt32)
  | expressionUnresolved (msg : String)
  | internal (msg : String)
deriving DecidableEq, Repr

inductive ErrorCode
  | captureFailed
  | inputFailed
  | perceptionFailed
  | waitForTimeout
  | assertFailed
  | programTimeout
  | noveltyTimeout
  | expressionUnresolved
  | daemonRestart
  | internal
deriving DecidableEq, Repr

def ErrorCode.asStr : ErrorCode → String
  | captureFailed => "capture_failed"
  | inputFailed => "input_failed"
  | perceptionFailed => "perception_failed"
  | waitForTimeout => "wait_for_timeout"
  | assertFailed => "assert_failed"
  | programTimeout => "program_timeout"
  | noveltyTimeout => "novelty_timeout"
  | expressionUnresolved => "expression_unresolved"
  | daemonRestart => "daemon_restart"
  | internal => "internal"

def RuntimeError.code : RuntimeError → ErrorCode
  | capture _ => .captureFailed
  | input _ => .inputFailed
  | perception _ => .perceptionFailed
  | waitForTimeout .. => .waitForTimeout
  | assertFailed _ => .assertFailed
  | programTimeout _ => .programTimeout
  | noveltyTimeout _ => .noveltyTimeout
  | expressionUnresolved _ => .expressionUnresolved
  | internal _ => .internal

/-- No runtime error carries the code that marks a program resumable. -/
theorem RuntimeError.code_ne_daemonRestart (e : RuntimeError) :
    e.code.asStr ≠ "daemon_restart" := by
  cases e <;> simp [RuntimeError.code, ErrorCode.asStr]

namespace Expr

inductive Accessor
  | matchCenter
  | matchBbox
deriving DecidableEq, Repr

structure ParsedExpr where
  predicate : String
  accessor : Accessor
deriving DecidableEq, Repr

def splitOnce (sep : Char) : List Char → Option (List Char × List Char)
  | [] => none
  | c :: cs => if c = sep then some ([], cs) else
      (splitOnce sep cs).map fun r => (c :: r.1, r.2)

theorem splitOnce_append {sep : Char} {a b : List Char} (h : sep ∉ a) :
    splitOnce sep (a ++ sep :: b) = some (a, b) := by
  induction a with
  | nil => simp [splitOnce]
  | cons c a ih =>
    have hc : c ≠ sep := fun heq => h (heq ▸ List.mem_cons_self)
    rw [List.cons_append, splitOnce, if_neg hc, ih fun ha => h (List.mem_cons_of_mem c ha)]
    rfl

theorem splitOnce_eq_some {sep : Char} {s a b : List Char} :
    splitOnce sep s = some (a, b) ↔ s = a ++ sep :: b ∧ sep ∉ a := by
  constructor
  · intro h
    induction s generalizing a with
    | nil => exact nomatch h
    | cons c s ih =>
      rw [splitOnce] at h
      split at h
      · next hc =>
        obtain ⟨rfl, rfl⟩ := Prod.mk.inj (Option.some.inj h)
        exact ⟨by rw [hc, List.nil_append], List.not_mem_nil⟩
      · next hc =>
        obtain ⟨r, hr, hpair⟩ := Option.map_eq_some_iff.mp h
        obtain ⟨rfl, rfl⟩ := Prod.mk.inj hpair
        obtain ⟨hs, hmem⟩ := ih hr
        refine ⟨by rw [hs, List.cons_append], fun hsep => ?_⟩
        rcases List.mem_cons.mp hsep with heq | hsep
        · exact hc heq.symm
        · exact hmem hsep
  · rintro ⟨rfl, h⟩
    exact splitOnce_append h

theorem splitOnce_eq_none {sep : Char} {s : List Char} (h : sep ∉ s) : splitOnce sep s = none := by
  apply Option.eq_none_iff_forall_ne_some.mpr
  rintro ⟨a, b⟩ hsome
  rw [(splitOnce_eq_some.mp hsome).1] at h
  exact h (List.mem_append_right _ List.mem_cons_self)

def parse (s : String) : Except RuntimeError ParsedExpr :=
  match s.toList with
  | '$' :: rest =>
    match splitOnce '.' rest with
    | none => .error (.expressionUnresolved ("expected '.<accessor>': " ++ s))
    | some (pred, tail) =>
      if pred = [] then .error (.expressionUnresolved ("empty predicate name: " ++ s))
      else if tail = "match.center".toList then .ok ⟨String.ofList pred, .matchCenter⟩
      else if tail = "match.bbox".toList then .ok ⟨String.ofList pred, .matchBbox⟩
      else .error (.expressionUnresolved ("unknown accessor '" ++ String.ofList tail ++ "'"))
  | _ => .error (.expressionUnresolved ("expected '$' prefix: " ++ s))

/-- Inclusive-pixel centre: the offsets are `(w - 1) / 2` and `(h - 1) / 2`. The sums are those of
`i32` on every box whose right and bottom edges are `i32` values, as a frame's are and those of what
is found in it. -/
def resolveCenter (r : PredicateResult) : Except RuntimeError Point :=
  match r.matchData with
  | none => .error (.expressionUnresolved "predicate has no match_data")
  | some md => .ok ⟨md.bbox.x + (max md.bbox.w 1 - 1) / 2, md.bbox.y + (max md.bbox.h 1 - 1) / 2⟩

def resolveBbox (r : PredicateResult) : Except RuntimeError Rect :=
  match r.matchData with
  | none => .error (.expressionUnresolved "predicate has no match_data")
  | some md => .ok md.bbox

end Expr

inductive StepOutcome
  | advanced
  | stalled
  | bodyComplete
  | failed (e : RuntimeError)
deriving DecidableEq, Repr

inductive BodyDefer
  | sleep (wakeAtMs : UnixMs)
  | waitFor (predicate : String) (deadlineMs : UnixMs) (onTimeout : OnTimeout)
deriving DecidableEq, Repr

structure BodyState where
  deferred : Option BodyDefer := none
deriving DecidableEq, Repr

inductive WatchDecision
  | skip
  | fire
  | retire
deriving DecidableEq, Repr

inductive Site
  | trigger
  | until (watch : Nat)
  | watch (watch : Nat)
  | body
deriving DecidableEq, Repr

inductive Obs
  | perceived (id : ProgramId) (site : Site) (r : Except PerceptionError PredicateResult)
  | decided (id : ProgramId) (watch : Nat) (d : WatchDecision)
  | called (id : ProgramId) (call : InputCall) (r : Except InputError Unit)
  | stepped (id : ProgramId) (cursor : Nat) (outcome : StepOutcome)
  | emitted (data : EventData)

def Obs.subject : Obs → Option ProgramId
  | perceived id _ _ | decided id _ _ | called id _ _ | stepped id _ _ => some id
  | emitted data => data.programIdOf

/-- The perception façade over a state `σ` and the input sink over a state `τ`. A query or
a call may depend on, and change, everything its backend remembers. -/
structure Backends (σ τ : Type) where
  clear : σ → σ
  evaluateNamed : String → Predicates → Frame → UnixMs → Assets → ProgramId → σ →
    Except PerceptionError PredicateResult × σ
  call : InputCall → τ → Except InputError Unit × τ

def Backends.constant (r : Except PerceptionError PredicateResult) : Backends Unit Unit where
  clear := id
  evaluateNamed _ _ _ _ _ _ _ := (r, ())
  call _ _ := (.ok (), ())

structure Env (σ τ : Type) where
  perception : σ
  input : τ

structure Tick where
  frame : Frame
  nowMs : UnixMs

structure Caller where
  id : ProgramId
  predicates : Predicates
  assets : Assets

section Body
variable {σ τ : Type} (B : Backends σ τ) (tk : Tick) (c : Caller)

def evaluateNamed (site : Site) (name : String) :
    Interaction (Env σ τ) Obs (Except PerceptionError PredicateResult) := fun env =>
  let r := B.evaluateNamed name c.predicates tk.frame tk.nowMs c.assets c.id env.perception
  (r.1, { env with perception := r.2 }, [.perceived c.id site r.1])

def callInput (call : InputCall) : Interaction (Env σ τ) Obs (Except RuntimeError Unit) :=
  fun env =>
    let r := B.call call env.input
    (r.1.mapError fun e => .input e.toString, { env with input := r.2 }, [.called c.id call r.1])

def resolveTarget : Target → Interaction (Env σ τ) Obs (Except RuntimeError Point)
  | .absolute p => pure (.ok p)
  | .expression s =>
    match Expr.parse s with
    | .error e => pure (.error e)
    | .ok e => do
      match ← evaluateNamed B tk c .body e.predicate with
      | .error err => return .error (.perception err.toString)
      | .ok r =>
        match e.accessor with
        | .matchCenter => return Expr.resolveCenter r
        | .matchBbox => return (Expr.resolveBbox r).map fun b => ⟨b.x, b.y⟩

def dispatchAt (target : Target) (f : Point → InputCall) :
    Interaction (Env σ τ) Obs (Except RuntimeError Unit) := do
  match ← resolveTarget B tk c target with
  | .error e => return .error e
  | .ok p => callInput B c (f p)

def outcomeOf : Except RuntimeError Unit → StepOutcome
  | .ok () => .advanced
  | .error e => .failed e

/-- The action steps, dispatched alike from the body and from a firing watch; `scroll`
moves the cursor and drops its deltas. -/
def dispatchAction : Step → Interaction (Env σ τ) Obs (Except RuntimeError Unit)
  | .move at_ => dispatchAt B tk c at_ .mouseMove
  | .click at_ button => dispatchAt B tk c at_ fun p => .click p button [] 0
  | .scroll at_ _ _ => dispatchAt B tk c at_ .mouseMove
  | .type text => callInput B c (.typeText text)
  | .key key modifiers => callInput B c (.keyCombo modifiers key)
  | .sleepMs _ | .waitFor .. | .assert .. =>
    pure (.error (.internal "body-only step used in watch"))

def stepDeferred : BodyDefer → Interaction (Env σ τ) Obs (StepOutcome × BodyState)
  | .sleep wakeAtMs =>
    if wakeAtMs ≤ tk.nowMs then pure (.advanced, {}) else pure (.stalled, ⟨some (.sleep wakeAtMs)⟩)
  | .waitFor predicate deadlineMs onTimeout => do
    let waiting : BodyState := ⟨some (.waitFor predicate deadlineMs onTimeout)⟩
    match ← evaluateNamed B tk c .body predicate with
    | .error e => return (.failed (.perception e.toString), waiting)
    | .ok r =>
      if r.truthy then return (.advanced, {})
      else if deadlineMs ≤ tk.nowMs then
        match onTimeout with
        | .continue_ | .retry => return (.advanced, {})
        | .fail => return (.failed (.waitForTimeout predicate 0), {})
      else return (.stalled, waiting)

def stepFresh : Step → Interaction (Env σ τ) Obs (StepOutcome × BodyState)
  | .sleepMs ms => pure (.stalled, ⟨some (.sleep (UnixMs.saturatingAdd tk.nowMs ms.toNat))⟩)
  | .waitFor predicate timeoutMs onTimeout =>
    pure (.stalled,
      ⟨some (.waitFor predicate (UnixMs.saturatingAdd tk.nowMs timeoutMs.toNat) onTimeout)⟩)
  | .assert predicate onFail => do
    match ← evaluateNamed B tk c .body predicate with
    | .error e => return (.failed (.perception e.toString), {})
    | .ok r =>
      if r.truthy then return (.advanced, {})
      else match onFail with
        | .continue_ => return (.advanced, {})
        | .fail => return (.failed (.assertFailed predicate), {})
  | step => do return (outcomeOf (← dispatchAction B tk c step), {})

def stepOnce (body : List Step) (cursor : Nat) (state : BodyState) :
    Interaction (Env σ τ) Obs (StepOutcome × BodyState) :=
  match state.deferred with
  | some d => stepDeferred B tk c d
  | none =>
    match body[cursor]? with
    | none => pure (.bodyComplete, {})
    | some step => stepFresh B tk c step

def dispatchSteps : List Step → Interaction (Env σ τ) Obs (Option RuntimeError)
  | [] => pure none
  | s :: rest => do
    Interaction.tell [.emitted (.actionDispatched c.id s.toValue none)]
    match ← dispatchAction B tk c s with
    | .error e => return some e
    | .ok () => dispatchSteps rest

end Body

end Vcli

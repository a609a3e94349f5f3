import Vcli.Core.Codec

/-! Events as JSON values: `type` is the tag of the payload, and the payload stands beside the
time in one object. -/

namespace Vcli

namespace Decode

def fields : Json → Option (String → Option Json)
  | .object entries => some fun n => entries.lookup n
  | _ => none

def rest (taken : List String) (f : String → Option Json) : String → Option Json :=
  fun n => if n ∈ taken then none else f n

def bool : Json → Option Bool
  | .bool b => some b
  | _ => none

def i64 : Json → Option Int := int (-2 ^ 63) (2 ^ 63)

def index (v : Json) : Option Nat := (u32 v).map UInt32.toNat

def programId (parseId : String → Option ProgramId) (v : Json) : Option ProgramId :=
  (string v).bind parseId

def value (v : Json) : Option Json := some v

end Decode

open Decode

def ProgramState.toValue (s : ProgramState) : Json := .string s.asStr

def ProgramState.all : List ProgramState :=
  [.pending, .waiting, .running, .blocked, .completed, .failed, .cancelled]

def ProgramState.fromValue (v : Json) : Option ProgramState :=
  (unitVariant (all.map ProgramState.asStr) v).bind fun name =>
    all.find? fun s => decide (s.asStr = name)

def EventData.toEntries : EventData → List (String × Json)
  | programSubmitted programId name => [("type", .string "program.submitted"),
      ("program_id", .string programId.toString), ("name", .string name)]
  | programStateChanged programId from_ to_ reason => [("type", .string "program.state_changed"),
      ("program_id", .string programId.toString), ("from", from_.toValue), ("to", to_.toValue),
      ("reason", .string reason)]
  | programCompleted programId emit => [("type", .string "program.completed"),
      ("program_id", .string programId.toString)] ++ optional "emit" (emit.map .string)
  | programFailed programId reason step emit => [("type", .string "program.failed"),
      ("program_id", .string programId.toString), ("reason", .string reason)] ++
      optional "step" (step.map .string) ++ optional "emit" (emit.map .string)
  | programResumed programId fromStep => [("type", .string "program.resumed"),
      ("program_id", .string programId.toString), ("from_step", .nat fromStep)]
  | watchFired programId watchIndex predicate => [("type", .string "watch.fired"),
      ("program_id", .string programId.toString), ("watch_index", .nat watchIndex),
      ("predicate", .string predicate)]
  | actionDispatched programId step target => [("type", .string "action.dispatched"),
      ("program_id", .string programId.toString), ("step", step)] ++
      optional "target" (target.map Point.toValue)
  | actionDeferred programId step reason => [("type", .string "action.deferred"),
      ("program_id", .string programId.toString), ("step", step), ("reason", reason)]
  | tickFrameSkipped reason => [("type", .string "tick.frame_skipped"), ("reason", .string reason)]
  | daemonPressure tickBudgetMs => [("type", .string "daemon.pressure"),
      ("tick_budget_ms", .nat tickBudgetMs.toNat)]
  | streamDropped count since => [("type", .string "stream.dropped"), ("count", .nat count.toNat),
      ("since", .int since)]
  | capturePermissionMissing backend => [("type", .string "capture.permission_missing"),
      ("backend", .string backend)]
  | daemonStarted version => [("type", .string "daemon.started"), ("version", .string version)]
  | daemonStopped => [("type", .string "daemon.stopped")]

def Event.toValue (ev : Event) : Json := .object (("at", .int ev.at_) :: ev.data.toEntries)

def EventData.decoders (parseId : String → Option ProgramId) :
    List (String × ((String → Option Json) → Option EventData)) :=
  [("program.submitted", fun f => do
      return .programSubmitted (← required (programId parseId) (f "program_id"))
        (← required string (f "name"))),
    ("program.state_changed", fun f => do
      return .programStateChanged (← required (programId parseId) (f "program_id"))
        (← required ProgramState.fromValue (f "from"))
        (← required ProgramState.fromValue (f "to")) (← required string (f "reason"))),
    ("program.completed", fun f => do
      return .programCompleted (← required (programId parseId) (f "program_id"))
        (← defaulted none (nullable string) (f "emit"))),
    ("program.failed", fun f => do
      return .programFailed (← required (programId parseId) (f "program_id"))
        (← required string (f "reason")) (← defaulted none (nullable string) (f "step"))
        (← defaulted none (nullable string) (f "emit"))),
    ("program.resumed", fun f => do
      return .programResumed (← required (programId parseId) (f "program_id"))
        (← required index (f "from_step"))),
    ("watch.fired", fun f => do
      return .watchFired (← required (programId parseId) (f "program_id"))
        (← required index (f "watch_index")) (← required string (f "predicate"))),
    ("action.dispatched", fun f => do
      return .actionDispatched (← required (programId parseId) (f "program_id"))
        (← required value (f "step")) (← defaulted none (nullable Point.fromValue) (f "target"))),
    ("action.deferred", fun f => do
      return .actionDeferred (← required (programId parseId) (f "program_id"))
        (← required value (f "step")) (← required value (f "reason"))),
    ("tick.frame_skipped", fun f => do
      return .tickFrameSkipped (← required string (f "reason"))),
    ("daemon.pressure", fun f => do
      return .daemonPressure (← required u32 (f "tick_budget_ms"))),
    ("stream.dropped", fun f => do
      return .streamDropped (← required u32 (f "count")) (← required i64 (f "since"))),
    ("capture.permission_missing", fun f => do
      return .capturePermissionMissing (← required string (f "backend"))),
    ("daemon.started", fun f => do return .daemonStarted (← required string (f "version"))),
    ("daemon.stopped", fun _ => some .daemonStopped)]

def Decode.byTag {α : Type} (decoders : List (String × ((String → Option Json) → Option α)))
    (tag : String) (f : String → Option Json) : Option α := do
  let name ← variant true (decoders.map Prod.fst) (← f tag)
  let decode ← decoders.lookup name
  decode f

def EventData.fromFields (parseId : String → Option ProgramId) (f : String → Option Json) :
    Option EventData := byTag (decoders parseId) "type" f

def Event.fromValue (parseId : String → Option ProgramId) (v : Json) : Option Event := do
  let f ← fields v
  return ⟨← required i64 (f "at"), ← EventData.fromFields parseId (rest ["at"] f)⟩

def InI64 (i : Int) : Prop := -2 ^ 63 ≤ i ∧ i < 2 ^ 63

/-- Numbers that fit their types, and payloads that `serde_json` can hold. -/
def EventData.Fits : EventData → Prop
  | programResumed _ fromStep => fromStep < 2 ^ 32
  | watchFired _ watchIndex _ => watchIndex < 2 ^ 32
  | actionDispatched _ step target => step.WellFormed ∧ ∀ p ∈ target, p.Fits
  | actionDeferred _ step reason => step.WellFormed ∧ reason.WellFormed
  | streamDropped _ since => InI64 since
  | _ => True

def Event.Fits (ev : Event) : Prop := InI64 ev.at_ ∧ ev.data.Fits

def EventData.payloads : EventData → List Json
  | actionDispatched _ step _ => [step]
  | actionDeferred _ step reason => [step, reason]
  | _ => []

def EventData.mapPayloads (T : Json → Json) : EventData → EventData
  | actionDispatched programId step target => .actionDispatched programId (T step) target
  | actionDeferred programId step reason => .actionDeferred programId (T step) (T reason)
  | data => data

def Event.mapPayloads (T : Json → Json) (ev : Event) : Event :=
  { ev with data := ev.data.mapPayloads T }

theorem EventData.mapPayloads_eq_iff {T : Json → Json} {data : EventData} :
    data.mapPayloads T = data ↔ ∀ v ∈ data.payloads, T v = v := by
  cases data <;> simp [mapPayloads, payloads]

theorem Event.mapPayloads_eq_iff {T : Json → Json} {ev : Event} :
    ev.mapPayloads T = ev ↔ ∀ v ∈ ev.data.payloads, T v = v := by
  rw [← EventData.mapPayloads_eq_iff]
  constructor
  · intro h
    exact congrArg Event.data h
  · intro h
    rw [mapPayloads, h]

section Render
variable {T : Json → Json} {g : F64 → F64} (h : Rendering T g)

include h

theorem Rendering.fields {entries : List (String × Json)}
    (hkeys : (entries.map Prod.fst).Nodup) :
    Decode.fields (T (.object entries)) = some fun n => (entries.lookup n).map T := by
  obtain ⟨es, hes, -⟩ := h.object entries hkeys
  have hrecord := h.record hkeys []
  rw [hes] at hrecord ⊢
  exact hrecord

omit h in
@[simp] theorem ProgramState.fromValue_toValue (s : ProgramState) :
    ProgramState.fromValue (.string s.asStr) = some s := by
  cases s <;> decide

theorem index_render {n : Nat} (hn : n < 2 ^ 32) : index (T (.nat n)) = some n := by
  have hu32 := u32_render h (.ofNat n)
  rw [UInt32.toNat_ofNat_of_lt' hn] at hu32
  rw [index, hu32, Option.map_some, UInt32.toNat_ofNat_of_lt' hn]

omit h in
theorem i64_int {i : Int} (hi : InI64 i) : i64 (.int i) = some i := if_pos hi

omit h in
theorem programId_string {parseId : String → Option ProgramId}
    (hid : ∀ id, parseId id.toString = some id) (id : ProgramId) :
    programId parseId (.string id.toString) = some id := by
  rw [programId, string_string, Option.bind_some, hid]

omit h in
theorem byTag_eq {α : Type} {decoders : List (String × ((String → Option Json) → Option α))}
    (hnames : (decoders.map Prod.fst).Nodup) {tag name : String} {f : String → Option Json}
    {decode : (String → Option Json) → Option α} (htag : f tag = some (.string name))
    (hdecode : (name, decode) ∈ decoders) : byTag decoders tag f = decode f := by
  have hname : name ∈ decoders.map Prod.fst := List.mem_map_of_mem hdecode
  have hlookup := (Table.mem_iff_lookup hnames).mp hdecode
  simp only [byTag, htag, Option.bind_eq_bind, Option.bind_some, variant_of_mem hname, hlookup]

omit h in
theorem EventData.nodup_decoders (parseId : String → Option ProgramId) :
    ((decoders parseId).map Prod.fst).Nodup := by
  have hnames : (decoders parseId).map Prod.fst =
      ["program.submitted", "program.state_changed", "program.completed", "program.failed",
        "program.resumed", "watch.fired", "action.dispatched", "action.deferred",
        "tick.frame_skipped", "daemon.pressure", "stream.dropped", "capture.permission_missing",
        "daemon.started", "daemon.stopped"] := rfl
  rw [hnames]
  decide

theorem text_render (o : Option String) :
    defaulted none (nullable Decode.string) (Option.map (T ∘ Json.string) o) = some o :=
  nullable_render rfl fun s _ => string_render h s

theorem EventData.fromFields_render {parseId : String → Option ProgramId}
    (hid : ∀ id, parseId id.toString = some id) {data : EventData} (hdata : data.Fits)
    {f : String → Option Json} (hf : ∀ n, n ≠ "at" → f n = (data.toEntries.lookup n).map T) :
    EventData.fromFields parseId f = some (data.mapPayloads T) := by
  have hp := programId_string hid
  -- the tag of an event chooses the decoder at the place of its variant
  have hchoose : ∀ {name : String} {decode : (String → Option Json) → Option EventData} (i : Nat),
      (data.toEntries.lookup "type").map T = some (.string name) →
      (decoders parseId)[i]? = some (name, decode) → fromFields parseId f = decode f :=
    fun _ htag hdecode => byTag_eq (nodup_decoders parseId) ((hf "type" (by decide)).trans htag)
      (List.mem_of_getElem? hdecode)
  cases data with
  | programSubmitted id name =>
    rw [hchoose 0 (congrArg some (h.string _)) rfl]
    simp [hf, toEntries, List.lookup_cons, h.string, hp, mapPayloads]
  | programStateChanged id from_ to_ reason =>
    rw [hchoose 1 (congrArg some (h.string _)) rfl]
    simp [hf, toEntries, List.lookup_cons, h.string, hp, ProgramState.toValue, mapPayloads]
  | programCompleted id emit =>
    rw [hchoose 2 (congrArg some (h.string _)) rfl]
    simp [hf, toEntries, List.lookup_cons, h.string, hp, text_render h, mapPayloads]
  | programFailed id reason step emit =>
    rw [hchoose 3 (congrArg some (h.string _)) rfl]
    simp [hf, toEntries, List.lookup_cons, List.lookup_append, h.string, hp, text_render h, mapPayloads]
  | programResumed id fromStep =>
    have hn := index_render h hdata
    rw [hchoose 4 (congrArg some (h.string _)) rfl]
    simp [hf, toEntries, List.lookup_cons, h.string, hp, hn, mapPayloads]
  | watchFired id watchIndex predicate =>
    have hn := index_render h hdata
    rw [hchoose 5 (congrArg some (h.string _)) rfl]
    simp [hf, toEntries, List.lookup_cons, h.string, hp, hn, mapPayloads]
  | actionDispatched id step target =>
    have htarget := nullable_render (D := Point.fromValue) (E := Point.toValue) rfl
      fun p hp => Point.fromValue_render h (hdata.2 p hp)
    rw [hchoose 6 (congrArg some (h.string _)) rfl]
    simp [hf, toEntries, List.lookup_cons, h.string, hp, value, htarget, mapPayloads]
  | actionDeferred id step reason =>
    rw [hchoose 7 (congrArg some (h.string _)) rfl]
    simp [hf, toEntries, List.lookup_cons, h.string, hp, value, mapPayloads]
  | tickFrameSkipped reason =>
    rw [hchoose 8 (congrArg some (h.string _)) rfl]
    simp [hf, toEntries, List.lookup_cons, h.string, mapPayloads]
  | daemonPressure tickBudgetMs =>
    rw [hchoose 9 (congrArg some (h.string _)) rfl]
    simp [hf, toEntries, List.lookup_cons, u32_render h, mapPayloads]
  | streamDropped count since =>
    have hsince := i64_int hdata
    rw [hchoose 10 (congrArg some (h.string _)) rfl]
    simp [hf, toEntries, List.lookup_cons, h.int, hsince, u32_render h, mapPayloads]
  | capturePermissionMissing backend =>
    rw [hchoose 11 (congrArg some (h.string _)) rfl]
    simp [hf, toEntries, List.lookup_cons, h.string, mapPayloads]
  | daemonStarted version =>
    rw [hchoose 12 (congrArg some (h.string _)) rfl]
    simp [hf, toEntries, List.lookup_cons, h.string, mapPayloads]
  | daemonStopped =>
    rw [hchoose 13 (congrArg some (h.string _)) rfl]
    rfl

omit h in
theorem EventData.nodup_keys (data : EventData) (v : Json) :
    ((("at", v) :: data.toEntries).map Prod.fst).Nodup := by
  cases data with
  | programCompleted id emit => cases emit <;> simp [toEntries, optional]
  | programFailed id reason step emit => cases step <;> cases emit <;> simp [toEntries, optional]
  | actionDispatched id step target => cases target <;> simp [toEntries, optional]
  | _ => simp [toEntries]

theorem Event.fromValue_render {parseId : String → Option ProgramId}
    (hid : ∀ id, parseId id.toString = some id) {ev : Event} (hev : ev.Fits) :
    Event.fromValue parseId (T ev.toValue) = some (ev.mapPayloads T) := by
  have hat := i64_int hev.1
  have hdata := EventData.fromFields_render h hid hev.2
    (f := rest ["at"] fun n => ((("at", Json.int ev.at_) :: ev.data.toEntries).lookup n).map T)
    (by
      intro n hn
      rw [rest, if_neg (by simpa using hn), List.lookup_cons, beq_false_of_ne hn])
  rw [Event.fromValue, Event.toValue, h.fields (ev.data.nodup_keys _)]
  simp [List.lookup_cons_self, h.int, hat, hdata, Event.mapPayloads]

end Render

section WellFormed

theorem wellFormed_string (s : String) : (Json.string s).WellFormed := trivial

theorem wellFormed_int {i : Int} (h : InI64 i) : (Json.int i).WellFormed := by
  obtain ⟨hlow, hhigh⟩ := h
  exact ⟨hlow, by omega⟩

theorem wellFormed_nat {n : Nat} (h : n < 2 ^ 32) : (Json.nat n).WellFormed := by
  show (-2 ^ 63 : Int) ≤ n ∧ (n : Int) < 2 ^ 64
  omega

def Filled (entries : List (String × Json)) : Prop := ∀ e ∈ entries, e.2.WellFormed

theorem filled_nil : Filled [] := nofun

theorem filled_cons {n : String} {v : Json} {entries : List (String × Json)} (hv : v.WellFormed)
    (h : Filled entries) : Filled ((n, v) :: entries) := List.forall_mem_cons.mpr ⟨hv, h⟩

theorem filled_append {l r : List (String × Json)} (hl : Filled l) (hr : Filled r) :
    Filled (l ++ r) := fun e he => (List.mem_append.mp he).elim (hl e) (hr e)

theorem filled_optional {α : Type} {n : String} {o : Option α} {E : α → Json}
    (h : ∀ a ∈ o, (E a).WellFormed) : Filled (optional n (o.map E)) := by
  cases o with
  | none => exact filled_nil
  | some a => exact filled_cons (h a rfl) filled_nil

theorem wellFormed_object {entries : List (String × Json)} (hkeys : (entries.map Prod.fst).Nodup)
    (h : Filled entries) : (Json.object entries).WellFormed := Json.each_object.mpr ⟨hkeys, h⟩

theorem Point.wellFormed {p : Point} (hp : p.Fits) : p.toValue.WellFormed := by
  obtain ⟨⟨hx, hx'⟩, hy, hy'⟩ := hp
  have hxw : (Json.int p.x).WellFormed := wellFormed_int ⟨by omega, by omega⟩
  have hyw : (Json.int p.y).WellFormed := wellFormed_int ⟨by omega, by omega⟩
  exact wellFormed_object (by simp) (filled_cons hxw (filled_cons hyw filled_nil))

theorem EventData.filled {data : EventData} (h : data.Fits) : Filled data.toEntries := by
  have hs := wellFormed_string
  cases data with
  | programSubmitted id name =>
    exact filled_cons (hs _) (filled_cons (hs _) (filled_cons (hs _) filled_nil))
  | programStateChanged id from_ to_ reason =>
    exact filled_cons (hs _) (filled_cons (hs _) (filled_cons (hs _) (filled_cons (hs _)
      (filled_cons (hs _) filled_nil))))
  | programCompleted id emit =>
    exact filled_cons (hs _) (filled_cons (hs _) (filled_optional fun s _ => hs s))
  | programFailed id reason step emit =>
    refine filled_append (filled_append ?_ (filled_optional fun s _ => hs s))
      (filled_optional fun s _ => hs s)
    exact filled_cons (hs _) (filled_cons (hs _) (filled_cons (hs _) filled_nil))
  | programResumed id fromStep =>
    exact filled_cons (hs _) (filled_cons (hs _) (filled_cons (wellFormed_nat h) filled_nil))
  | watchFired id watchIndex predicate =>
    exact filled_cons (hs _) (filled_cons (hs _) (filled_cons (wellFormed_nat h)
      (filled_cons (hs _) filled_nil)))
  | actionDispatched id step target =>
    exact filled_cons (hs _) (filled_cons (hs _) (filled_cons h.1
      (filled_optional fun p hp => Point.wellFormed (h.2 p hp))))
  | actionDeferred id step reason =>
    exact filled_cons (hs _) (filled_cons (hs _) (filled_cons h.1 (filled_cons h.2 filled_nil)))
  | tickFrameSkipped text | capturePermissionMissing text | daemonStarted text =>
    exact filled_cons (hs _) (filled_cons (hs _) filled_nil)
  | daemonPressure tickBudgetMs =>
    exact filled_cons (hs _) (filled_cons (wellFormed_nat tickBudgetMs.toNat_lt) filled_nil)
  | streamDropped count since =>
    exact filled_cons (hs _) (filled_cons (wellFormed_nat count.toNat_lt)
      (filled_cons (wellFormed_int h) filled_nil))
  | daemonStopped => exact filled_cons (hs _) filled_nil

theorem Event.wellFormed {ev : Event} (h : ev.Fits) : ev.toValue.WellFormed :=
  wellFormed_object (ev.data.nodup_keys _) (filled_cons (wellFormed_int h.1) (EventData.filled h.2))

end WellFormed

end Vcli

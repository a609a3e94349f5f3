import Vcli.Ipc.Wire

/-! A message is read back from its text, unless a payload says `null` where nothing was meant, or
holds what the JSON reader does not give back: a float it rounds, or more nesting than it takes. -/

namespace Vcli

open Decode

theorem rendering_renumber (ρ : F64 → F64) : Rendering (Json.renumber ρ) ρ where
  string _ := rfl
  int _ := rfl
  float _ := rfl
  array := Json.renumber_array ρ
  object entries _ := ⟨_, Json.renumber_object ρ entries, .refl _⟩

namespace Ipc

section Messages

/-! What the types of a message promise, and the JSON it carries as it is. -/

def RequestOp.Fits : RequestOp → Prop
  | submit program _ => program.WellFormed
  | _ => True

def RequestOp.payloads : RequestOp → List Json
  | submit program _ => [program]
  | _ => []

def RequestOp.mapPayloads (T : Json → Json) : RequestOp → RequestOp
  | submit program baseDir => .submit (T program) baseDir
  | op => op

structure ErrorPayload.Fits (e : ErrorPayload) : Prop where
  line : ∀ n ∈ e.line, n < 2 ^ 32
  column : ∀ n ∈ e.column, n < 2 ^ 32
  spanLen : ∀ n ∈ e.spanLen, n < 2 ^ 32

def ResponseBody.Fits : ResponseBody → Prop
  | ok result => result.WellFormed
  | err error => error.Fits

def ResponseBody.payloads : ResponseBody → List Json
  | ok result => [result]
  | err _ => []

def ResponseBody.mapPayloads (T : Json → Json) : ResponseBody → ResponseBody
  | ok result => .ok (T result)
  | err error => .err error

structure StreamFrame.Fits (f : StreamFrame) : Prop where
  event : ∀ ev ∈ f.event, ev.Fits
  trace : ∀ v ∈ f.trace, v.WellFormed

def present : Option Json → Option Json
  | some .null => none
  | o => o

def StreamFrame.reread (T : Json → Json) (f : StreamFrame) : StreamFrame :=
  { f with event := f.event.map (Event.mapPayloads T), trace := present (f.trace.map T) }

theorem RequestOp.mapPayloads_eq_iff {T : Json → Json} {op : RequestOp} :
    op.mapPayloads T = op ↔ ∀ v ∈ op.payloads, T v = v := by
  cases op <;> simp [mapPayloads, payloads]

theorem ResponseBody.mapPayloads_eq_iff {T : Json → Json} {body : ResponseBody} :
    body.mapPayloads T = body ↔ ∀ v ∈ body.payloads, T v = v := by
  cases body <;> simp [mapPayloads, payloads]

end Messages

theorem ErrorPayload.nodup_keys (e : ErrorPayload) :
    (([("code", Json.string e.code.asStr), ("message", .string e.message)] ++
      optional "path" (e.path.map .string) ++ optional "line" (e.line.map .nat) ++
      optional "column" (e.column.map .nat) ++ optional "span_len" (e.spanLen.map .nat) ++
      optional "hint" (e.hint.map .string)).map Prod.fst).Nodup := by
  have hkeys := (keyed_cons (v := .string e.code.asStr) (keyed_cons (v := .string e.message)
    (keyed_optional (e.path.map .string) (keyed_optional (e.line.map .nat)
      (keyed_optional (e.column.map .nat) (keyed_optional (e.spanLen.map .nat)
        (keyed_optional (e.hint.map .string) keyed_nil))))))).nodup
    (N := ["code", "message", "path", "line", "column", "span_len", "hint"]) (by decide)
  rw [List.append_nil] at hkeys
  simp only [List.append_assoc]
  exact hkeys

section Render
variable {parseId : String → Option ProgramId} (hid : ∀ id, parseId id.toString = some id)
  (ρ : F64 → F64)

include hid

theorem RequestId.fromValue_render (id : RequestId) :
    RequestId.fromValue parseId (id.toValue.renumber ρ) = some id := by
  show (programId parseId (.string (ProgramId.mk id.uuid).toString)).map _ = _
  rw [programId_string hid]
  rfl

theorem programParams_render {f : String → Option Json} {id : ProgramId}
    (hf : f "params" =
      some ((Json.object [("program_id", .string id.toString)]).renumber ρ)) :
    programParams parseId f = some id := by
  have h := rendering_renumber ρ
  have hp := programId_string hid id
  simp [programParams, hf, h.record, List.lookup_cons, h.string, hp]

omit hid in
theorem RequestOp.nodup_decoders (parseId : String → Option ProgramId) :
    ((decoders parseId).map Prod.fst).Nodup := by
  have hnames : (decoders parseId).map Prod.fst =
      ["submit", "list", "status", "cancel", "start", "resume", "logs", "events", "trace", "health",
        "gc", "shutdown"] := rfl
  rw [hnames]
  decide

theorem RequestOp.fromFields_render (op : RequestOp) {f : String → Option Json}
    (hf : ∀ n, n ≠ "id" → f n = (op.toEntries.lookup n).map (Json.renumber ρ)) :
    RequestOp.fromFields parseId f = some (op.mapPayloads (Json.renumber ρ)) := by
  have h := rendering_renumber ρ
  have hp := programId_string hid
  have hbool : ∀ b, Decode.bool ((Json.bool b).renumber ρ) = some b := fun _ => rfl
  have hparams := hf "params" (by decide)
  -- the tag of a request chooses the decoder at the place of its operation
  have hchoose : ∀ {name : String} {decode : (String → Option Json) → Option RequestOp} (i : Nat),
      (op.toEntries.lookup "op").map (Json.renumber ρ) = some (.string name) →
      (decoders parseId)[i]? = some (name, decode) → fromFields parseId f = decode f :=
    fun _ htag hdecode => byTag_eq (nodup_decoders parseId) ((hf "op" (by decide)).trans htag)
      (List.mem_of_getElem? hdecode)
  cases op with
  | submit program baseDir =>
    have hkeys : ((("program", program) :: optional "base_dir" (baseDir.map .string)).map
        Prod.fst).Nodup := by cases baseDir <;> simp [optional]
    rw [hchoose 0 rfl rfl]
    simp [hparams, toEntries, List.lookup_cons, h.record hkeys, value, text_render h, mapPayloads]
  | list state =>
    have hkeys : ((optional "state" (state.map .string)).map Prod.fst).Nodup := by
      cases state <;> simp [optional]
    rw [hchoose 1 rfl rfl]
    simp [hparams, toEntries, List.lookup_cons, h.record hkeys, text_render h, mapPayloads]
  | status id =>
    rw [hchoose 2 rfl rfl]
    simp [programParams_render hid ρ hparams, mapPayloads]
  | cancel id =>
    rw [hchoose 3 rfl rfl]
    simp [programParams_render hid ρ hparams, mapPayloads]
  | start id =>
    rw [hchoose 4 rfl rfl]
    simp [programParams_render hid ρ hparams, mapPayloads]
  | resume id fromStart =>
    rw [hchoose 5 rfl rfl]
    simp [hparams, toEntries, List.lookup_cons, h.record, h.string, hp, hbool, mapPayloads]
  | logs id follow =>
    rw [hchoose 6 rfl rfl]
    simp [hparams, toEntries, List.lookup_cons, h.record, h.string, hp, hbool, mapPayloads]
  | events follow =>
    rw [hchoose 7 rfl rfl]
    simp [hparams, toEntries, List.lookup_cons, h.record, hbool, mapPayloads]
  | trace id =>
    rw [hchoose 8 rfl rfl]
    simp [programParams_render hid ρ hparams, mapPayloads]
  | health =>
    rw [hchoose 9 rfl rfl, hparams]
    rfl
  | gc =>
    rw [hchoose 10 rfl rfl, hparams]
    rfl
  | shutdown =>
    rw [hchoose 11 rfl rfl, hparams]
    rfl

omit hid in
theorem RequestOp.nodup_keys (op : RequestOp) (v : Json) :
    ((("id", v) :: op.toEntries).map Prod.fst).Nodup := by
  cases op <;> simp [toEntries]

omit hid in
theorem rest_id_render (v : Json) (entries : List (String × Json)) {n : String} (hn : n ≠ "id") :
    rest ["id"] (fun n => ((("id", v) :: entries).lookup n).map (Json.renumber ρ)) n =
      (entries.lookup n).map (Json.renumber ρ) := by
  rw [rest, if_neg (by simpa using hn), List.lookup_cons, beq_false_of_ne hn]

theorem Request.fromValue_render (r : Request) :
    Request.fromValue parseId (r.toValue.renumber ρ) =
      some { r with op := r.op.mapPayloads (Json.renumber ρ) } := by
  have hrid := RequestId.fromValue_render hid ρ r.id
  have hop := RequestOp.fromFields_render hid ρ r.op
    fun n => rest_id_render ρ r.id.toValue r.op.toEntries
  rw [Request.fromValue, Request.toValue, (rendering_renumber ρ).fields (r.op.nodup_keys _)]
  simp [List.lookup_cons_self, hrid, hop]

omit hid in
theorem ErrorCode.fromValue_asStr (c : ErrorCode) : fromValue (.string c.asStr) = some c := by
  cases c <;> decide

omit hid in
theorem ErrorPayload.fromValue_render {e : ErrorPayload} (he : e.Fits) :
    ErrorPayload.fromValue (e.toValue.renumber ρ) = some e := by
  have h := rendering_renumber ρ
  have hcode := ErrorCode.fromValue_asStr e.code
  have hline := nullable_render (D := index) (E := .nat) rfl fun n hn => index_render h (he.line n hn)
  have hcolumn := nullable_render (D := index) (E := .nat) rfl fun n hn => index_render h (he.column n hn)
  have hspan := nullable_render (D := index) (E := .nat) rfl fun n hn => index_render h (he.spanLen n hn)
  rw [ErrorPayload.fromValue, ErrorPayload.toValue, h.record e.nodup_keys]
  simp [List.lookup_cons, List.lookup_append, h.string, hcode, text_render h, hline, hcolumn, hspan]

omit hid in
/-- The flag decides, so that no result is taken for an error. -/
theorem ResponseBody.fromFields_render {body : ResponseBody} (hbody : body.Fits)
    {f : String → Option Json}
    (hf : ∀ n, n ≠ "id" → f n = (body.toEntries.lookup n).map (Json.renumber ρ)) :
    ResponseBody.fromFields f = some (body.mapPayloads (Json.renumber ρ)) := by
  have hok := hf "ok" (by decide)
  cases body with
  | ok result =>
    have hflag : flag true ((Json.bool true).renumber ρ) = some () := rfl
    have hresult := hf "result" (by decide)
    simp [fromFields, hok, hresult, toEntries, List.lookup_cons, hflag, value, mapPayloads]
  | err error =>
    have hflag : flag true ((Json.bool false).renumber ρ) = none := rfl
    have hflag' : flag false ((Json.bool false).renumber ρ) = some () := rfl
    have herror := hf "error" (by decide)
    simp [fromFields, hok, herror, toEntries, List.lookup_cons, hflag, hflag',
      ErrorPayload.fromValue_render ρ hbody, mapPayloads]

omit hid in
theorem ResponseBody.nodup_keys (body : ResponseBody) (v : Json) :
    ((("id", v) :: body.toEntries).map Prod.fst).Nodup := by
  cases body <;> simp [toEntries]

theorem Response.fromValue_render {r : Response} (hr : r.body.Fits) :
    Response.fromValue parseId (r.toValue.renumber ρ) =
      some { r with body := r.body.mapPayloads (Json.renumber ρ) } := by
  have hrid := RequestId.fromValue_render hid ρ r.id
  have hbody := ResponseBody.fromFields_render ρ hr
    fun n => rest_id_render ρ r.id.toValue r.body.toEntries
  rw [Response.fromValue, Response.toValue, (rendering_renumber ρ).fields (r.body.nodup_keys _)]
  simp [List.lookup_cons_self, hrid, hbody]

omit hid in
theorem StreamFrame.nodup_keys (f : StreamFrame) :
    (([("id", f.id.toValue), ("stream", f.stream.toValue)] ++
      optional "end" (if f.end_ then some (.bool true) else none) ++
      optional "event" (f.event.map Event.toValue) ++ optional "trace" f.trace).map
      Prod.fst).Nodup := by
  have hkeys := (keyed_cons (v := f.id.toValue) (keyed_cons (v := f.stream.toValue)
    (keyed_optional (if f.end_ then some (.bool true) else none)
      (keyed_optional (f.event.map Event.toValue) (keyed_optional f.trace keyed_nil))))).nodup
    (N := ["id", "stream", "end", "event", "trace"]) (by decide)
  rw [List.append_nil] at hkeys
  simp only [List.append_assoc]
  exact hkeys

omit hid in
theorem StreamKind.fromValue_render (k : StreamKind) :
    StreamKind.fromValue (k.toValue.renumber ρ) = some k := by
  cases k <;> rfl

omit hid in
theorem end_render (b : Bool) :
    defaulted false Decode.bool (if b then some ((Json.bool true).renumber ρ) else none) =
      some b := by
  cases b <;> rfl

theorem event_render {event : Option Event} (hevent : ∀ ev ∈ event, ev.Fits) :
    defaulted none (nullable (Event.fromValue parseId))
      (event.map (Json.renumber ρ ∘ Event.toValue)) =
        some (event.map (Event.mapPayloads (Json.renumber ρ))) := by
  cases event with
  | none => rfl
  | some ev =>
    exact nullable_eq_some rfl
      (Event.fromValue_render (rendering_renumber ρ) hid (hevent ev rfl))

omit hid in
theorem trace_render (trace : Option Json) :
    defaulted none (nullable value) (trace.map (Json.renumber ρ)) =
      some (present (trace.map (Json.renumber ρ))) := by
  cases trace with
  | none => rfl
  | some v => cases v <;> rfl

theorem StreamFrame.fromValue_render {f : StreamFrame} (hf : f.Fits) :
    StreamFrame.fromValue parseId (f.toValue.renumber ρ) = some (f.reread (Json.renumber ρ)) := by
  have hrid := RequestId.fromValue_render hid ρ f.id
  have hkind := StreamKind.fromValue_render ρ f.stream
  have hevent := event_render hid ρ hf.event
  have hend := end_render ρ f.end_
  have htrace := trace_render ρ f.trace
  rw [StreamFrame.fromValue, StreamFrame.toValue, (rendering_renumber ρ).record f.nodup_keys]
  simp [List.lookup_cons, List.lookup_append, hrid, hkind, hend, hevent, htrace, reread]

end Render

section Depth

def Shallow (n : Nat) (entries : List (String × Json)) : Prop := ∀ e ∈ entries, e.2.depth ≤ n

theorem depth_object_le {n : Nat} {entries : List (String × Json)} :
    (Json.object entries).depth ≤ n + 1 ↔ Shallow n entries := Json.depth_object_le

@[simp] theorem shallow_nil (n : Nat) : Shallow n [] := nofun

@[simp] theorem shallow_cons {n : Nat} {k : String} {v : Json} {entries : List (String × Json)} :
    Shallow n ((k, v) :: entries) ↔ v.depth ≤ n ∧ Shallow n entries := List.forall_mem_cons

@[simp] theorem shallow_append {n : Nat} {l r : List (String × Json)} :
    Shallow n (l ++ r) ↔ Shallow n l ∧ Shallow n r := List.forall_mem_append

@[simp] theorem shallow_optional {n : Nat} {k : String} {o : Option Json} :
    Shallow n (optional k o) ↔ ∀ v ∈ o, v.depth ≤ n := by
  cases o <;> simp [optional]

@[simp] theorem depth_string (s : String) : (Json.string s).depth = 0 := rfl

@[simp] theorem depth_bool (b : Bool) : (Json.bool b).depth = 0 := rfl

@[simp] theorem depth_int (i : Int) : (Json.int i).depth = 0 := rfl

@[simp] theorem depth_nat (n : Nat) : (Json.nat n).depth = 0 := rfl

theorem RequestOp.shallow_iff {op : RequestOp} :
    Shallow 126 op.toEntries ↔ ∀ v ∈ op.payloads, v.depth + 2 ≤ 127 := by
  cases op <;> simp [toEntries, payloads, depth_object_le]

theorem Request.depth_le {r : Request} :
    r.toValue.depth ≤ 127 ↔ ∀ v ∈ r.op.payloads, v.depth + 2 ≤ 127 := by
  rw [Request.toValue, depth_object_le, shallow_cons, RequestOp.shallow_iff]
  exact and_iff_right (Nat.zero_le 126)

theorem ErrorPayload.depth_le (e : ErrorPayload) : e.toValue.depth ≤ 126 := by
  simp [ErrorPayload.toValue, depth_object_le]

theorem Response.depth_le {r : Response} :
    r.toValue.depth ≤ 127 ↔ ∀ v ∈ r.body.payloads, v.depth + 1 ≤ 127 := by
  rw [Response.toValue, depth_object_le, shallow_cons]
  have hid : r.id.toValue.depth ≤ 126 := Nat.zero_le 126
  have hbody : Shallow 126 r.body.toEntries ↔ ∀ v ∈ r.body.payloads, v.depth ≤ 126 := by
    cases r.body with
    | ok result => simp [ResponseBody.toEntries, ResponseBody.payloads]
    | err error => simp [ResponseBody.toEntries, ResponseBody.payloads, error.depth_le]
  rw [hbody]
  exact (and_iff_right hid).trans (forall₂_congr fun v _ => Nat.succ_le_succ_iff.symm)

theorem EventData.shallow_iff {n : Nat} {data : EventData} :
    Shallow (n + 1) data.toEntries ↔ ∀ v ∈ data.payloads, v.depth ≤ n + 1 := by
  have hpoint : ∀ p : Point, p.toValue.depth ≤ n + 1 := by
    intro p
    simp [Point.toValue, depth_object_le]
  have hstate : ∀ s : ProgramState, s.toValue.depth = 0 := fun s => rfl
  cases data <;> simp [EventData.toEntries, EventData.payloads, hpoint, hstate]

theorem StreamFrame.depth_le {f : StreamFrame} :
    f.toValue.depth ≤ 127 ↔ (∀ ev ∈ f.event, ∀ v ∈ ev.data.payloads, v.depth + 2 ≤ 127) ∧
      ∀ v ∈ f.trace, v.depth + 1 ≤ 127 := by
  have hid : f.id.toValue.depth = 0 := rfl
  have hkind : f.stream.toValue.depth = 0 := by cases f.stream <;> rfl
  have hevent : ∀ ev : Event, ev.toValue.depth ≤ 126 ↔
      ∀ v ∈ ev.data.payloads, v.depth + 2 ≤ 127 := by
    intro ev
    rw [Event.toValue, depth_object_le, shallow_cons, EventData.shallow_iff]
    simp
  have htrace : ∀ v : Json, v.depth + 1 ≤ 127 ↔ v.depth ≤ 126 := fun v => Nat.succ_le_succ_iff
  rw [StreamFrame.toValue, depth_object_le]
  simp only [htrace]
  simp [hid, hkind, hevent]

end Depth

section WellFormed

theorem RequestOp.filled {op : RequestOp} (h : op.Fits) : Filled op.toEntries := by
  have hs := wellFormed_string
  have hb : ∀ b, (Json.bool b).WellFormed := fun b => trivial
  have hparams : ∀ {entries : List (String × Json)}, (entries.map Prod.fst).Nodup →
      Filled entries → ∀ name, Filled [("op", .string name), ("params", .object entries)] :=
    fun hkeys hentries name =>
      filled_cons (hs name) (filled_cons (wellFormed_object hkeys hentries) filled_nil)
  cases op with
  | submit program baseDir =>
    apply hparams
    · cases baseDir <;> simp [optional]
    · exact filled_cons h (filled_optional fun s _ => hs s)
  | list state =>
    apply hparams
    · cases state <;> simp [optional]
    · exact filled_optional fun s _ => hs s
  | status id | cancel id | start id | trace id =>
    exact hparams (by simp) (filled_cons (hs _) filled_nil) _
  | resume id flag | logs id flag =>
    exact hparams (by simp) (filled_cons (hs _) (filled_cons (hb flag) filled_nil)) _
  | events follow => exact hparams (by simp) (filled_cons (hb follow) filled_nil) _
  | health | gc | shutdown => exact filled_cons (hs _) filled_nil

theorem Request.wellFormed {r : Request} (h : r.op.Fits) : r.toValue.WellFormed :=
  wellFormed_object (r.op.nodup_keys _) (filled_cons (wellFormed_string _) (RequestOp.filled h))

theorem ErrorPayload.wellFormed {e : ErrorPayload} (h : e.Fits) : e.toValue.WellFormed := by
  have hs := wellFormed_string
  apply wellFormed_object e.nodup_keys
  refine filled_append (filled_append (filled_append (filled_append (filled_append ?_ ?_) ?_) ?_) ?_) ?_
  · exact filled_cons (hs _) (filled_cons (hs _) filled_nil)
  · exact filled_optional fun s _ => hs s
  · exact filled_optional fun n hn => wellFormed_nat (h.line n hn)
  · exact filled_optional fun n hn => wellFormed_nat (h.column n hn)
  · exact filled_optional fun n hn => wellFormed_nat (h.spanLen n hn)
  · exact filled_optional fun s _ => hs s

theorem Response.wellFormed {r : Response} (h : r.body.Fits) : r.toValue.WellFormed := by
  apply wellFormed_object (r.body.nodup_keys _)
  apply filled_cons (wellFormed_string _)
  cases hbody : r.body with
  | ok result =>
    rw [hbody] at h
    exact filled_cons trivial (filled_cons h filled_nil)
  | err error =>
    rw [hbody] at h
    exact filled_cons trivial (filled_cons (ErrorPayload.wellFormed h) filled_nil)

theorem StreamFrame.wellFormed {f : StreamFrame} (h : f.Fits) : f.toValue.WellFormed := by
  have hs := wellFormed_string
  have hkind : f.stream.toValue.WellFormed := by cases f.stream <;> exact hs _
  have hend : Filled (optional "end" (if f.end_ then some (.bool true) else none)) := by
    cases f.end_ with
    | false => exact filled_nil
    | true => exact filled_cons trivial filled_nil
  have htrace : Filled (optional "trace" f.trace) := by
    cases htrace : f.trace with
    | none => exact filled_nil
    | some v => exact filled_cons (h.trace v htrace) filled_nil
  apply wellFormed_object f.nodup_keys
  refine filled_append (filled_append (filled_append ?_ hend) ?_) htrace
  · exact filled_cons (hs _) (filled_cons hkind filled_nil)
  · exact filled_optional fun ev hev => Event.wellFormed (h.event ev hev)

end WellFormed

section Text

theorem StreamFrame.reread_eq_iff {T : Json → Json} {f : StreamFrame} :
    f.reread T = f ↔ (∀ ev ∈ f.event, ∀ v ∈ ev.data.payloads, T v = v) ∧
      ∀ v ∈ f.trace, T v = v ∧ v ≠ .null := by
  have hevent : f.event.map (Event.mapPayloads T) = f.event ↔
      ∀ ev ∈ f.event, ∀ v ∈ ev.data.payloads, T v = v := by
    cases f.event <;> simp [Event.mapPayloads_eq_iff]
  have htrace : present (f.trace.map T) = f.trace ↔ ∀ v ∈ f.trace, T v = v ∧ v ≠ .null := by
    cases f.trace with
    | none => simp [present]
    | some v =>
      by_cases hnull : T v = .null
      · rw [Option.map_some, hnull]
        constructor
        · nofun
        · intro h
          obtain ⟨hv, hne⟩ := h v rfl
          exact absurd (hv.symm.trans hnull) hne
      · have hpresent : present (some (T v)) = some (T v) := by
          rw [present]
          exact fun hsome => hnull (Option.some.inj hsome)
        rw [Option.map_some, hpresent]
        constructor
        · intro h w hw
          obtain rfl := Option.some.inj hw
          have hv := Option.some.inj h
          exact ⟨hv, fun hw => hnull (hv.trans hw)⟩
        · intro h
          rw [(h v rfl).1]
  rw [← hevent, ← htrace]
  constructor
  · intro h
    exact ⟨congrArg StreamFrame.event h, congrArg StreamFrame.trace h⟩
  · intro h
    rw [StreamFrame.reread, h.1, h.2]

variable {ryu : F64 → List Char} {readF64 : List Char → Option F64} {ρ : F64 → F64}
  (h : Printed ryu readF64 ρ) {parseId : String → Option ProgramId}
  (hid : ∀ id, parseId id.toString = some id)

include h hid

/-- A message is read back if its payloads are, and a trace is not `null`. -/
theorem wire_roundtrip_iff :
    (∀ r : Request, r.op.Fits →
      (Json.decode readF64 (Request.fromValue parseId) (r.toValue.encode ryu) = some r ↔
        ∀ v ∈ r.op.payloads, v.ReadBack ρ 2)) ∧
    (∀ r : Response, r.body.Fits →
      (Json.decode readF64 (Response.fromValue parseId) (r.toValue.encode ryu) = some r ↔
        ∀ v ∈ r.body.payloads, v.ReadBack ρ 1)) ∧
    (∀ f : StreamFrame, f.Fits →
      (Json.decode readF64 (StreamFrame.fromValue parseId) (f.toValue.encode ryu) = some f ↔
        (∀ ev ∈ f.event, ∀ v ∈ ev.data.payloads, v.ReadBack ρ 2) ∧
          ∀ v ∈ f.trace, v.ReadBack ρ 1 ∧ v ≠ .null)) := by
  -- a message is what its fields make it but for the payloads, which JSON has to read back
  refine ⟨fun r hr => ?_, fun r hr => ?_, fun f hf => ?_⟩
  · have hop : { r with op := r.op.mapPayloads (Json.renumber ρ) } = r ↔
        ∀ v ∈ r.op.payloads, v.renumber ρ = v := by
      rw [← RequestOp.mapPayloads_eq_iff]
      exact ⟨congrArg Request.op, fun hop => by rw [hop]⟩
    simp only [Json.readBack_iff]
    rw [decode_encode h _ (Request.wellFormed hr), Request.fromValue_render hid,
      Option.ite_none_right_eq_some, Option.some.injEq, hop, Request.depth_le, ← forall₂_and]
  · have hbody : { r with body := r.body.mapPayloads (Json.renumber ρ) } = r ↔
        ∀ v ∈ r.body.payloads, v.renumber ρ = v := by
      rw [← ResponseBody.mapPayloads_eq_iff]
      exact ⟨congrArg Response.body, fun hbody => by rw [hbody]⟩
    simp only [Json.readBack_iff]
    rw [decode_encode h _ (Response.wellFormed hr), Response.fromValue_render hid _ hr,
      Option.ite_none_right_eq_some, Option.some.injEq, hbody, Response.depth_le, ← forall₂_and]
  · simp only [Json.readBack_iff, and_assoc, forall₂_and]
    rw [decode_encode h _ (StreamFrame.wellFormed hf), StreamFrame.fromValue_render hid _ hf,
      Option.ite_none_right_eq_some, Option.some.injEq, StreamFrame.reread_eq_iff,
      StreamFrame.depth_le]
    simp only [forall₂_and]
    tauto

omit h hid

def sampleId : RequestId := ⟨0x018f3d6b0a2c4e5f8a7b9c0d1e2f3a4b#128⟩

def payload : Json := .object [("a", .float ⟨0#64⟩), ("b", .array [.null, .int (-1)])]

def sampleSubmit : Request := ⟨sampleId, .submit payload (some "/srv")⟩

def sampleResult : Response := ⟨sampleId, .ok payload⟩

def sampleFrame : StreamFrame :=
  ⟨sampleId, .trace, true, some ⟨7, .actionDispatched ⟨sampleId.uuid⟩ payload (some ⟨1, 2⟩)⟩,
    some payload⟩

theorem payload_wellFormed : payload.WellFormed := by
  have hlist : (Json.array [.null, .int (-1)]).WellFormed :=
    Json.each_array.mpr (by simp [Json.Each, JsonNumber.Representable, Json.int])
  have hzero : (Json.float ⟨0#64⟩).WellFormed := show F64.isFinite ⟨0#64⟩ by decide
  exact wellFormed_object (by decide) (filled_cons hzero (filled_cons hlist filled_nil))

theorem payload_readBack {around : Nat} (h : around ≤ 2) : payload.ReadBack id around := by
  have hdepth : payload.depth = 2 := by decide
  refine Json.readBack_iff.mpr ⟨?_, Json.renumber_id payload⟩
  omega

theorem wire_roundtrip_sample :
    Json.decode readBits (Request.fromValue readId) (sampleSubmit.toValue.encode printBits) =
        some sampleSubmit ∧
      Json.decode readBits (Response.fromValue readId) (sampleResult.toValue.encode printBits) =
        some sampleResult ∧
      Json.decode readBits (StreamFrame.fromValue readId) (sampleFrame.toValue.encode printBits) =
        some sampleFrame := by
  obtain ⟨hrequest, hresponse, hframe⟩ :=
    wire_roundtrip_iff shortest_printBits.printed readId_toString
  have hfits : sampleFrame.Fits := by
    have hpoint : (⟨1, 2⟩ : Point).Fits := ⟨⟨by decide, by decide⟩, by decide, by decide⟩
    refine ⟨fun ev hev => ?_, fun v hv => ?_⟩
    · obtain rfl := Option.some.inj hev
      refine ⟨⟨by decide, by decide⟩, payload_wellFormed, fun p hp => ?_⟩
      obtain rfl := Option.some.inj hp
      exact hpoint
    · obtain rfl := Option.some.inj hv
      exact payload_wellFormed
  refine ⟨(hrequest sampleSubmit payload_wellFormed).mpr ?_,
    (hresponse sampleResult payload_wellFormed).mpr ?_, (hframe sampleFrame hfits).mpr ⟨?_, ?_⟩⟩
  · intro v hv
    rw [List.mem_singleton.mp hv]
    exact payload_readBack (by decide)
  · intro v hv
    rw [List.mem_singleton.mp hv]
    exact payload_readBack (by decide)
  · intro ev hev v hv
    obtain rfl := Option.some.inj hev
    rw [List.mem_singleton.mp hv]
    exact payload_readBack (by decide)
  · intro v hv
    obtain rfl := Option.some.inj hv
    exact ⟨payload_readBack (by decide), nofun⟩

def nullTrace : StreamFrame := ⟨sampleId, .trace, false, none, some .null⟩

/-- The frame comes back without its record. -/
theorem null_trace_lost :
    ¬ (∀ f : StreamFrame, f.Fits →
      Json.decode readBits (StreamFrame.fromValue readId) (f.toValue.encode printBits) = some f) ∧
    Json.decode readBits (StreamFrame.fromValue readId) (nullTrace.toValue.encode printBits) =
      some { nullTrace with trace := none } := by
  have hfits : nullTrace.Fits := by
    refine ⟨nofun, fun v hv => ?_⟩
    obtain rfl := Option.some.inj hv
    trivial
  have hread : Json.decode readBits (StreamFrame.fromValue readId)
      (nullTrace.toValue.encode printBits) = some { nullTrace with trace := none } := by
    rw [decode_encode shortest_printBits.printed _ (StreamFrame.wellFormed hfits),
      StreamFrame.fromValue_render readId_toString id hfits]
    rfl
  refine ⟨fun hall => ?_, hread⟩
  have hsame := congrArg StreamFrame.trace (Option.some.inj ((hall nullTrace hfits).symm.trans hread))
  exact absurd hsame (by simp [nullTrace])

end Text

end Ipc

end Vcli

import Vcli.Core.Serde

/-! What the decoders take from the fields of a document. -/

namespace Vcli

open Decode

def VariantFields (v : Json) (f : String → Option Json) : Prop :=
  ∃ tag body names, tagged v = some (tag, body) ∧ record names body = some f

section Variants
variable (f : String → Option Json)

def Region.ReadFrom : Region → Prop
  | .absolute rect => required Rect.fromValue (f "box") = some rect
  | .window app title index => required string (f "app") = some app ∧
    defaulted none (nullable string) (f "title_contains") = some title ∧
    defaulted none (nullable u32) (f "window_index") = some index
  | .relativeTo predicate anchor offset size =>
    required string (f "predicate") = some predicate ∧
    defaulted .match_ Anchor.fromValue (f "anchor") = some anchor ∧
    defaulted ⟨0, 0⟩ Point.fromValue (f "offset") = some offset ∧
    defaulted none (nullable Size.fromValue) (f "size") = some size

def PredicateKind.ReadFrom : PredicateKind → Prop
  | .template image confidence region throttle => required string (f "image") = some image ∧
    required f64 (f "confidence") = some confidence ∧
    required Region.fromValue (f "region") = some region ∧
    defaulted 200 u32 (f "throttle_ms") = some throttle
  | .colorAt point rgb tolerance => required Point.fromValue (f "point") = some point ∧
    required Rgb.fromValue (f "rgb") = some rgb ∧ required u16 (f "tolerance") = some tolerance
  | .pixelDiff region baseline threshold => required Region.fromValue (f "region") = some region ∧
    required string (f "baseline") = some baseline ∧ required f64 (f "threshold") = some threshold
  | .allOf of | .anyOf of => required (array string) (f "of") = some of
  | .not of => required string (f "of") = some of
  | .elapsedMsSinceTrue predicate ms => required string (f "predicate") = some predicate ∧
    required u32 (f "ms") = some ms

def Step.ReadFrom : Step → Prop
  | .move at_ => required Target.fromValue (f "at") = some at_
  | .click at_ button => required Target.fromValue (f "at") = some at_ ∧
    defaulted .left Button.fromValue (f "button") = some button
  | .type text => required string (f "text") = some text
  | .key name modifiers => required string (f "key") = some name ∧
    defaulted [] (array Modifier.fromValue) (f "modifiers") = some modifiers
  | .scroll at_ dx dy => required Target.fromValue (f "at") = some at_ ∧
    defaulted 0 i32 (f "dx") = some dx ∧ defaulted 0 i32 (f "dy") = some dy
  | .waitFor predicate timeout onTimeout => required string (f "predicate") = some predicate ∧
    required u32 (f "timeout_ms") = some timeout ∧
    defaulted .fail OnTimeout.fromValue (f "on_timeout") = some onTimeout
  | .assert predicate onFail => required string (f "predicate") = some predicate ∧
    defaulted .fail OnFail.fromValue (f "on_fail") = some onFail
  | .sleepMs ms => required u32 (f "ms") = some ms

theorem Region.readFrom {v : Json} {region : Region} (h : Region.fromValue v = some region) :
    ∃ f, VariantFields v f ∧ region.ReadFrom f := by
  obtain ⟨⟨tag, body⟩, htagged, h⟩ := Option.bind_eq_some_iff.mp h
  obtain ⟨kind, -, h⟩ := Option.bind_eq_some_iff.mp h
  split at h
  · obtain ⟨f, hf, h⟩ := Option.bind_eq_some_iff.mp h
    obtain ⟨rect, hrect, h⟩ := Option.bind_eq_some_iff.mp h
    obtain rfl := Option.some.inj h
    exact ⟨f, ⟨tag, body, _, htagged, hf⟩, hrect⟩
  · obtain ⟨f, hf, h⟩ := Option.bind_eq_some_iff.mp h
    obtain ⟨app, happ, h⟩ := Option.bind_eq_some_iff.mp h
    obtain ⟨title, htitle, h⟩ := Option.bind_eq_some_iff.mp h
    obtain ⟨index, hindex, h⟩ := Option.bind_eq_some_iff.mp h
    obtain rfl := Option.some.inj h
    exact ⟨f, ⟨tag, body, _, htagged, hf⟩, happ, htitle, hindex⟩
  · obtain ⟨f, hf, h⟩ := Option.bind_eq_some_iff.mp h
    obtain ⟨predicate, hpredicate, h⟩ := Option.bind_eq_some_iff.mp h
    obtain ⟨anchor, hanchor, h⟩ := Option.bind_eq_some_iff.mp h
    obtain ⟨offset, hoffset, h⟩ := Option.bind_eq_some_iff.mp h
    obtain ⟨size, hsize, h⟩ := Option.bind_eq_some_iff.mp h
    obtain rfl := Option.some.inj h
    exact ⟨f, ⟨tag, body, _, htagged, hf⟩, hpredicate, hanchor, hoffset, hsize⟩
  · exact nomatch h

theorem PredicateKind.readFrom {buffered : Bool} {v : Json} {q : PredicateKind}
    (h : PredicateKind.fromValue buffered v = some q) : ∃ f, VariantFields v f ∧ q.ReadFrom f := by
  obtain ⟨⟨tag, body⟩, htagged, h⟩ := Option.bind_eq_some_iff.mp h
  obtain ⟨kind, -, h⟩ := Option.bind_eq_some_iff.mp h
  -- one case for each variant, its fields read in the order of the declaration
  split at h
  · obtain ⟨f, hf, h⟩ := Option.bind_eq_some_iff.mp h
    obtain ⟨image, himage, h⟩ := Option.bind_eq_some_iff.mp h
    obtain ⟨confidence, hconfidence, h⟩ := Option.bind_eq_some_iff.mp h
    obtain ⟨region, hregion, h⟩ := Option.bind_eq_some_iff.mp h
    obtain ⟨throttle, hthrottle, h⟩ := Option.bind_eq_some_iff.mp h
    obtain rfl := Option.some.inj h
    exact ⟨f, ⟨tag, body, _, htagged, hf⟩, himage, hconfidence, hregion, hthrottle⟩
  · obtain ⟨f, hf, h⟩ := Option.bind_eq_some_iff.mp h
    obtain ⟨point, hpoint, h⟩ := Option.bind_eq_some_iff.mp h
    obtain ⟨rgb, hrgb, h⟩ := Option.bind_eq_some_iff.mp h
    obtain ⟨tolerance, htolerance, h⟩ := Option.bind_eq_some_iff.mp h
    obtain rfl := Option.some.inj h
    exact ⟨f, ⟨tag, body, _, htagged, hf⟩, hpoint, hrgb, htolerance⟩
  · obtain ⟨f, hf, h⟩ := Option.bind_eq_some_iff.mp h
    obtain ⟨region, hregion, h⟩ := Option.bind_eq_some_iff.mp h
    obtain ⟨baseline, hbaseline, h⟩ := Option.bind_eq_some_iff.mp h
    obtain ⟨threshold, hthreshold, h⟩ := Option.bind_eq_some_iff.mp h
    obtain rfl := Option.some.inj h
    exact ⟨f, ⟨tag, body, _, htagged, hf⟩, hregion, hbaseline, hthreshold⟩
  · obtain ⟨f, hf, h⟩ := Option.bind_eq_some_iff.mp h
    obtain ⟨of, hof, h⟩ := Option.bind_eq_some_iff.mp h
    obtain rfl := Option.some.inj h
    exact ⟨f, ⟨tag, body, _, htagged, hf⟩, hof⟩
  · obtain ⟨f, hf, h⟩ := Option.bind_eq_some_iff.mp h
    obtain ⟨of, hof, h⟩ := Option.bind_eq_some_iff.mp h
    obtain rfl := Option.some.inj h
    exact ⟨f, ⟨tag, body, _, htagged, hf⟩, hof⟩
  · obtain ⟨f, hf, h⟩ := Option.bind_eq_some_iff.mp h
    obtain ⟨of, hof, h⟩ := Option.bind_eq_some_iff.mp h
    obtain rfl := Option.some.inj h
    exact ⟨f, ⟨tag, body, _, htagged, hf⟩, hof⟩
  · obtain ⟨f, hf, h⟩ := Option.bind_eq_some_iff.mp h
    obtain ⟨predicate, hpredicate, h⟩ := Option.bind_eq_some_iff.mp h
    obtain ⟨ms, hms, h⟩ := Option.bind_eq_some_iff.mp h
    obtain rfl := Option.some.inj h
    exact ⟨f, ⟨tag, body, _, htagged, hf⟩, hpredicate, hms⟩
  · exact nomatch h

theorem Step.readFrom {v : Json} {s : Step} (h : Step.fromValue v = some s) :
    ∃ f, VariantFields v f ∧ s.ReadFrom f := by
  obtain ⟨⟨tag, body⟩, htagged, h⟩ := Option.bind_eq_some_iff.mp h
  obtain ⟨kind, -, h⟩ := Option.bind_eq_some_iff.mp h
  split at h
  · obtain ⟨f, hf, h⟩ := Option.bind_eq_some_iff.mp h
    obtain ⟨at_, hat, h⟩ := Option.bind_eq_some_iff.mp h
    obtain rfl := Option.some.inj h
    exact ⟨f, ⟨tag, body, _, htagged, hf⟩, hat⟩
  · obtain ⟨f, hf, h⟩ := Option.bind_eq_some_iff.mp h
    obtain ⟨at_, hat, h⟩ := Option.bind_eq_some_iff.mp h
    obtain ⟨button, hbutton, h⟩ := Option.bind_eq_some_iff.mp h
    obtain rfl := Option.some.inj h
    exact ⟨f, ⟨tag, body, _, htagged, hf⟩, hat, hbutton⟩
  · obtain ⟨f, hf, h⟩ := Option.bind_eq_some_iff.mp h
    obtain ⟨text, htext, h⟩ := Option.bind_eq_some_iff.mp h
    obtain rfl := Option.some.inj h
    exact ⟨f, ⟨tag, body, _, htagged, hf⟩, htext⟩
  · obtain ⟨f, hf, h⟩ := Option.bind_eq_some_iff.mp h
    obtain ⟨key, hkey, h⟩ := Option.bind_eq_some_iff.mp h
    obtain ⟨modifiers, hmodifiers, h⟩ := Option.bind_eq_some_iff.mp h
    obtain rfl := Option.some.inj h
    exact ⟨f, ⟨tag, body, _, htagged, hf⟩, hkey, hmodifiers⟩
  · obtain ⟨f, hf, h⟩ := Option.bind_eq_some_iff.mp h
    obtain ⟨at_, hat, h⟩ := Option.bind_eq_some_iff.mp h
    obtain ⟨dx, hdx, h⟩ := Option.bind_eq_some_iff.mp h
    obtain ⟨dy, hdy, h⟩ := Option.bind_eq_some_iff.mp h
    obtain rfl := Option.some.inj h
    exact ⟨f, ⟨tag, body, _, htagged, hf⟩, hat, hdx, hdy⟩
  · obtain ⟨f, hf, h⟩ := Option.bind_eq_some_iff.mp h
    obtain ⟨predicate, hpredicate, h⟩ := Option.bind_eq_some_iff.mp h
    obtain ⟨timeout, htimeout, h⟩ := Option.bind_eq_some_iff.mp h
    obtain ⟨onTimeout, honTimeout, h⟩ := Option.bind_eq_some_iff.mp h
    obtain rfl := Option.some.inj h
    exact ⟨f, ⟨tag, body, _, htagged, hf⟩, hpredicate, htimeout, honTimeout⟩
  · obtain ⟨f, hf, h⟩ := Option.bind_eq_some_iff.mp h
    obtain ⟨predicate, hpredicate, h⟩ := Option.bind_eq_some_iff.mp h
    obtain ⟨onFail, honFail, h⟩ := Option.bind_eq_some_iff.mp h
    obtain rfl := Option.some.inj h
    exact ⟨f, ⟨tag, body, _, htagged, hf⟩, hpredicate, honFail⟩
  · obtain ⟨f, hf, h⟩ := Option.bind_eq_some_iff.mp h
    obtain ⟨ms, hms, h⟩ := Option.bind_eq_some_iff.mp h
    obtain rfl := Option.some.inj h
    exact ⟨f, ⟨tag, body, _, htagged, hf⟩, hms⟩
  · exact nomatch h

end Variants

section Structs

structure Watch.ReadFrom (f : String → Option Json) (w : Watch) : Prop where
  condition : required WatchWhen.fromValue (f "when") = some w.when_
  steps : required (array Step.fromValue) (f "do") = some w.steps
  throttle : defaulted 0 u32 (f "throttle_ms") = some w.throttleMs
  lifetime : defaulted .persistent Lifetime.fromValue (f "lifetime") = some w.lifetime

structure Program.ReadFrom (parseId : String → Option ProgramId) (f : String → Option Json)
    (p : Program) : Prop where
  version : required string (f "version") = some p.version
  name : required string (f "name") = some p.name
  id : defaulted none (nullable fun v => (string v).bind parseId) (f "id") = some p.id
  trigger : required Trigger.fromValue (f "trigger") = some p.trigger
  predicates : defaulted ∅ (map (PredicateKind.fromValue false)) (f "predicates") =
    some p.predicates
  watches : defaulted [] (array Watch.fromValue) (f "watches") = some p.watches
  body : defaulted [] (array Step.fromValue) (f "body") = some p.body
  onComplete : defaulted none (nullable emitterFromValue) (f "on_complete") = some p.onComplete
  onFail : defaulted none (nullable emitterFromValue) (f "on_fail") = some p.onFail
  timeout : defaulted none (nullable u32) (f "timeout_ms") = some p.timeoutMs
  labels : defaulted ∅ (map string) (f "labels") = some p.labels
  priority : defaulted 0 i32 (f "priority") = some p.priority

theorem Watch.readFrom {v : Json} {w : Watch} (h : Watch.fromValue v = some w) :
    ∃ names f, record names v = some f ∧ w.ReadFrom f := by
  obtain ⟨f, hf, h⟩ := Option.bind_eq_some_iff.mp h
  obtain ⟨when_, hwhen, h⟩ := Option.bind_eq_some_iff.mp h
  obtain ⟨steps, hsteps, h⟩ := Option.bind_eq_some_iff.mp h
  obtain ⟨throttle, hthrottle, h⟩ := Option.bind_eq_some_iff.mp h
  obtain ⟨lifetime, hlifetime, h⟩ := Option.bind_eq_some_iff.mp h
  obtain rfl := Option.some.inj h
  exact ⟨_, f, hf, hwhen, hsteps, hthrottle, hlifetime⟩

theorem Program.readFrom {parseId : String → Option ProgramId} {v : Json} {p : Program}
    (h : Program.fromValue parseId v = some p) :
    ∃ names f, record names v = some f ∧ p.ReadFrom parseId f := by
  obtain ⟨f, hf, h⟩ := Option.bind_eq_some_iff.mp h
  obtain ⟨version, hversion, h⟩ := Option.bind_eq_some_iff.mp h
  obtain ⟨name, hname, h⟩ := Option.bind_eq_some_iff.mp h
  obtain ⟨id, hid, h⟩ := Option.bind_eq_some_iff.mp h
  obtain ⟨trigger, htrigger, h⟩ := Option.bind_eq_some_iff.mp h
  obtain ⟨predicates, hpredicates, h⟩ := Option.bind_eq_some_iff.mp h
  obtain ⟨watches, hwatches, h⟩ := Option.bind_eq_some_iff.mp h
  obtain ⟨body, hbody, h⟩ := Option.bind_eq_some_iff.mp h
  obtain ⟨onComplete, hcomplete, h⟩ := Option.bind_eq_some_iff.mp h
  obtain ⟨onFail, hfail, h⟩ := Option.bind_eq_some_iff.mp h
  obtain ⟨timeout, htimeout, h⟩ := Option.bind_eq_some_iff.mp h
  obtain ⟨labels, hlabels, h⟩ := Option.bind_eq_some_iff.mp h
  obtain ⟨priority, hpriority, h⟩ := Option.bind_eq_some_iff.mp h
  obtain rfl := Option.some.inj h
  exact ⟨_, f, hf, hversion, hname, hid, htrigger, hpredicates, hwatches, hbody, hcomplete, hfail,
    htimeout, hlabels, hpriority⟩

end Structs

end Vcli

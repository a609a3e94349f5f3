import Vcli.Core.Spelling
import Vcli.Dsl.Validate
import Vcli.Lib.Pointer

/-! Documents seen from a pointer. A struct of the source may be written as an object or as the
array of its fields; only the fields of an object can be pointed at by name. -/

namespace Vcli

def arrayIndex (t : List Char) : Option Nat :=
  if Nat.toDigits 10 (Nat.ofDigitChars 10 t 0) = t then some (Nat.ofDigitChars 10 t 0) else none

def Json.child (v : Json) (t : List Char) : Option Json :=
  match v with
  | .object entries => entries.lookup (String.ofList t)
  | .array items => (arrayIndex t).bind fun i => items[i]?
  | _ => none

section Child

theorem arrayIndex_toDigits (i : Nat) : arrayIndex (Nat.toDigits 10 i) = some i := by
  rw [arrayIndex, Nat.ofDigitChars_ten_toDigits, if_pos rfl]

theorem Json.child_object (entries : List (String × Json)) (k : String) :
    (Json.object entries).child k.toList = entries.lookup k := by
  rw [child, String.ofList_toList]

theorem Json.child_array (items : List Json) (i : Nat) :
    (Json.array items).child (Nat.toDigits 10 i) = items[i]? := by
  rw [child, arrayIndex_toDigits, Option.bind_some]

theorem Json.object_of_child {v w : Json} {k : String} (hk : arrayIndex k.toList = none)
    (h : v.child k.toList = some w) : ∃ entries, v = .object entries ∧ entries.lookup k = some w := by
  cases v with
  | object entries => exact ⟨entries, rfl, (child_object entries k).symm.trans h⟩
  | array items =>
    rw [child, hk] at h
    exact nomatch h
  | _ => exact nomatch h

end Child

section Fields
variable {entries : List (String × Json)} {names : List String} {f : String → Option Json}
  {n : String} {α : Type} {dec : Json → Option α} {a : α}

theorem body_object {tag body : Json} (h : Decode.tagged (.object entries) = some (tag, body)) :
    body = .object entries := by
  obtain ⟨tag', -, hpair⟩ := Option.map_eq_some_iff.mp h
  exact (Prod.mk.inj hpair).2.symm

theorem field_object (hf : Decode.record names (.object entries) = some f) :
    f n = entries.lookup n := by
  rw [← Option.some.inj hf]

theorem lookup_of_required (hf : Decode.record names (.object entries) = some f)
    (ha : Decode.required dec (f n) = some a) : ∃ w, entries.lookup n = some w ∧ dec w = some a := by
  obtain ⟨w, hw, hdec⟩ := Option.bind_eq_some_iff.mp ha
  exact ⟨w, (field_object hf).symm.trans hw, hdec⟩

theorem lookup_of_defaulted {default : α} (hf : Decode.record names (.object entries) = some f)
    (ha : Decode.defaulted default dec (f n) = some a) :
    a = default ∧ entries.lookup n = none ∨ ∃ w, entries.lookup n = some w ∧ dec w = some a := by
  rw [field_object hf] at ha
  cases hw : entries.lookup n with
  | none =>
    rw [hw] at ha
    exact .inl ⟨(Option.some.inj ha).symm, rfl⟩
  | some w =>
    rw [hw] at ha
    exact .inr ⟨w, rfl, ha⟩

theorem array_items {v : Json} {l : List α} (h : Decode.array dec v = some l) :
    ∃ items, v = .array items ∧ items.mapM dec = some l := by
  cases v with
  | array items => exact ⟨items, rfl, h⟩
  | _ => exact nomatch h

theorem variant_object (hf : VariantFields (.object entries) f) :
    Decode.record [] (.object entries) = some f := by
  obtain ⟨tag, body, names, htagged, hf⟩ := hf
  obtain rfl := body_object htagged
  exact hf

theorem lookup_of_variant (hf : VariantFields (.object entries) f)
    (ha : Decode.required dec (f n) = some a) : ∃ w, entries.lookup n = some w := by
  obtain ⟨w, hw, -⟩ := lookup_of_required (variant_object hf) ha
  exact ⟨w, hw⟩

theorem Region.listed {region : Region} (h : Region.fromValue (.object entries) = some region) :
    match region with
    | .relativeTo .. => ∃ w, entries.lookup "predicate" = some w
    | _ => True := by
  obtain ⟨f, hf, hread⟩ := Region.readFrom h
  cases region with
  | relativeTo predicate anchor offset size => exact lookup_of_variant hf hread.1
  | _ => trivial

theorem PredicateKind.listed {buffered : Bool} {q : PredicateKind}
    (h : PredicateKind.fromValue buffered (.object entries) = some q) :
    match q with
    | .allOf of | .anyOf of =>
      ∃ items, entries.lookup "of" = some (.array items) ∧ items.length = of.length
    | .not _ => ∃ w, entries.lookup "of" = some w
    | .elapsedMsSinceTrue .. => ∃ w, entries.lookup "predicate" = some w
    | .template _ _ region _ | .pixelDiff region _ _ =>
      ∃ w, entries.lookup "region" = some w ∧ Region.fromValue w = some region
    | .colorAt .. => True := by
  obtain ⟨f, hf, hread⟩ := PredicateKind.readFrom h
  have hoperands : ∀ {of : List String},
      Decode.required (Decode.array Decode.string) (f "of") = some of →
      ∃ items, entries.lookup "of" = some (.array items) ∧ items.length = of.length := by
    intro of hof
    obtain ⟨w, hw, hdec⟩ := lookup_of_required (variant_object hf) hof
    obtain ⟨items, rfl, hitems⟩ := array_items hdec
    exact ⟨items, hw, (Traverse.mapM_eq_some_iff.mp hitems).length_eq⟩
  cases q with
  | template image confidence region throttle =>
    obtain ⟨-, -, hregion, -⟩ := hread
    exact lookup_of_required (variant_object hf) hregion
  | colorAt point rgb tolerance => trivial
  | pixelDiff region baseline threshold => exact lookup_of_required (variant_object hf) hread.1
  | allOf of => exact hoperands hread
  | anyOf of => exact hoperands hread
  | not of => exact lookup_of_variant hf hread
  | elapsedMsSinceTrue predicate ms => exact lookup_of_variant hf hread.1

theorem Step.listed {s : Step} (h : Step.fromValue (.object entries) = some s) :
    match s with
    | .move _ | .click _ _ | .scroll _ _ _ => ∃ w, entries.lookup "at" = some w
    | .waitFor .. | .assert .. => ∃ w, entries.lookup "predicate" = some w
    | _ => True := by
  obtain ⟨f, hf, hread⟩ := Step.readFrom h
  cases s with
  | move at_ => exact lookup_of_variant hf hread
  | click at_ button => exact lookup_of_variant hf hread.1
  | scroll at_ dx dy => exact lookup_of_variant hf hread.1
  | waitFor predicate timeout onTimeout => exact lookup_of_variant hf hread.1
  | assert predicate onFail => exact lookup_of_variant hf hread.1
  | _ => trivial

theorem Lifetime.listed {name : String}
    (h : Lifetime.fromValue (.object entries) = some (.untilPredicate name)) :
    ∃ w, entries.lookup "name" = some w := by
  obtain ⟨⟨tag, body⟩, htagged, h⟩ := Option.bind_eq_some_iff.mp h
  obtain rfl := body_object htagged
  obtain ⟨kind, -, h⟩ := Option.bind_eq_some_iff.mp h
  split at h
  · obtain ⟨-, -, h⟩ := Option.map_eq_some_iff.mp h
    exact nomatch h
  · obtain ⟨-, -, h⟩ := Option.map_eq_some_iff.mp h
    exact nomatch h
  · obtain ⟨f, hf, h⟩ := Option.bind_eq_some_iff.mp h
    obtain ⟨name, hname, -⟩ := Option.bind_eq_some_iff.mp h
    obtain ⟨w, hw, -⟩ := lookup_of_required hf hname
    exact ⟨w, hw⟩
  · obtain ⟨f, -, h⟩ := Option.bind_eq_some_iff.mp h
    obtain ⟨ms, -, h⟩ := Option.bind_eq_some_iff.mp h
    exact nomatch h
  · exact nomatch h

theorem Trigger.listed {name : String}
    (h : Trigger.fromValue (.object entries) = some (.onPredicate name)) :
    ∃ w, entries.lookup "name" = some w := by
  obtain ⟨⟨tag, body⟩, htagged, h⟩ := Option.bind_eq_some_iff.mp h
  obtain rfl := body_object htagged
  obtain ⟨kind, -, h⟩ := Option.bind_eq_some_iff.mp h
  split at h
  · obtain ⟨-, -, h⟩ := Option.map_eq_some_iff.mp h
    exact nomatch h
  · obtain ⟨f, hf, h⟩ := Option.bind_eq_some_iff.mp h
    obtain ⟨name, hname, -⟩ := Option.bind_eq_some_iff.mp h
    obtain ⟨w, hw, -⟩ := lookup_of_required hf hname
    exact ⟨w, hw⟩
  · obtain ⟨-, -, h⟩ := Option.map_eq_some_iff.mp h
    exact nomatch h
  · exact nomatch h

structure Watch.Listed (entries : List (String × Json)) (w : Watch) : Prop where
  condition : ∃ d, entries.lookup "when" = some d ∧ WatchWhen.fromValue d = some w.when_
  steps : ∃ items, entries.lookup "do" = some (.array items) ∧
    items.mapM Step.fromValue = some w.steps
  lifetime : w.lifetime = .persistent ∨
    ∃ d, entries.lookup "lifetime" = some d ∧ Lifetime.fromValue d = some w.lifetime

theorem Watch.listed {w : Watch} (h : Watch.fromValue (.object entries) = some w) :
    w.Listed entries := by
  obtain ⟨names, f, hf, hread⟩ := Watch.readFrom h
  refine ⟨?_, ?_, ?_⟩
  · exact lookup_of_required hf hread.condition
  · obtain ⟨d, hd, hdec⟩ := lookup_of_required hf hread.steps
    obtain ⟨items, rfl, hitems⟩ := array_items hdec
    exact ⟨items, hd, hitems⟩
  · exact (lookup_of_defaulted hf hread.lifetime).imp_left And.left

structure Program.Listed (entries : List (String × Json)) (p : Program) : Prop where
  trigger : ∃ d, entries.lookup "trigger" = some d ∧ Trigger.fromValue d = some p.trigger
  predicates : p.predicates = ∅ ∧ entries.lookup "predicates" = none ∨
    ∃ fields decoded, entries.lookup "predicates" = some (.object fields) ∧
      fields.mapM (fun e => (PredicateKind.fromValue false e.2).map (e.1, ·)) = some decoded ∧
      p.predicates = Traverse.fill decoded
  watches : p.watches = [] ∨ ∃ items, entries.lookup "watches" = some (.array items) ∧
    items.mapM Watch.fromValue = some p.watches
  body : p.body = [] ∨ ∃ items, entries.lookup "body" = some (.array items) ∧
    items.mapM Step.fromValue = some p.body

theorem Program.listed {parseId : String → Option ProgramId} {p : Program}
    (h : Program.fromValue parseId (.object entries) = some p) : p.Listed entries := by
  obtain ⟨names, f, hf, hread⟩ := Program.readFrom h
  have hlist : ∀ {α : Type} {dec : Json → Option α} {n : String} {l : List α},
      Decode.defaulted [] (Decode.array dec) (f n) = some l →
      l = [] ∨ ∃ items, entries.lookup n = some (.array items) ∧ items.mapM dec = some l := by
    intro α dec n l hl
    rcases lookup_of_defaulted hf hl with ⟨rfl, -⟩ | ⟨w, hw, hdec⟩
    · exact .inl rfl
    · obtain ⟨items, rfl, hitems⟩ := array_items hdec
      exact .inr ⟨items, hw, hitems⟩
  refine ⟨lookup_of_required hf hread.trigger, ?_, hlist hread.watches, hlist hread.body⟩
  refine (lookup_of_defaulted hf hread.predicates).imp_right ?_
  rintro ⟨w, hw, hdec⟩
  cases w with
  | object fields =>
    obtain ⟨decoded, hdecoded, hfill⟩ := Option.bind_eq_some_iff.mp hdec
    exact ⟨fields, decoded, hw, hdecoded, (Option.some.inj hfill).symm⟩
  | _ => exact nomatch hdec

end Fields

namespace Dsl

def Segment.token : Segment → List Char
  | .key k => k.toList
  | .index i => Nat.toDigits 10 i

def JsonPath.tokens (p : JsonPath) : List (List Char) := p.segments.map Segment.token

def JsonPath.find (p : JsonPath) (v : Json) : Option Json := Pointer.follow Json.child v p.tokens

def JsonPath.Resolves (p : JsonPath) (v : Json) : Prop :=
  Pointer.resolve Json.child v p.toList ≠ none

instance (p : JsonPath) (v : Json) : Decidable (p.Resolves v) :=
  decidable_of_iff ((Pointer.resolve Json.child v p.toList).isNone = false)
    (by rw [JsonPath.Resolves, ← Bool.not_eq_true, Option.isNone_iff_eq_none])

def JsonPath.Keyed (p : JsonPath) (v : Json) : Prop := ∃ entries, p.find v = some (.object entries)

section Path
variable {v : Json} {p : JsonPath}

theorem display_eq (s : Segment) : JsonPath.display s = '/' :: s.token.flatMap Pointer.escape := by
  cases s with
  | key k => rfl
  | index i =>
    have hplain : ∀ c ∈ Nat.toDigits 10 i, Pointer.escape c = [c] := by
      intro c hc
      have hdigit := Nat.isDigit_of_mem_toDigits (by decide) (by decide) hc
      unfold Pointer.escape
      split
      · exact absurd hdigit (by decide)
      · exact absurd hdigit (by decide)
      · rfl
    have hsame : (Nat.toDigits 10 i).flatMap Pointer.escape = Nat.toDigits 10 i := by
      rw [List.flatMap_congr hplain, List.flatMap_singleton']
    rw [JsonPath.display, Segment.token, hsame]

theorem toList_eq_write (p : JsonPath) : p.toList = Pointer.write p.tokens := by
  rw [JsonPath.toList, Pointer.write, JsonPath.tokens, List.flatMap_map]
  exact List.flatMap_congr fun s _ => display_eq s

theorem resolves_iff : p.Resolves v ↔ p.find v ≠ none := by
  rw [JsonPath.Resolves, toList_eq_write, Pointer.resolve_write, JsonPath.find]

theorem find_append (v : Json) (l r : List Segment) :
    (JsonPath.mk (l ++ r)).find v = ((JsonPath.mk l).find v).bind (JsonPath.mk r).find := by
  rw [JsonPath.find, JsonPath.tokens, List.map_append, Pointer.follow_append]
  rfl

theorem find_root (v : Json) : JsonPath.root.find v = some v := rfl

theorem find_key (v : Json) (p : JsonPath) (k : String) :
    (p.key k).find v = (p.find v).bind fun w => w.child k.toList := by
  rw [JsonPath.key, find_append]
  exact Option.bind_congr fun w _ => Pointer.follow_one _ w _

theorem find_index (v : Json) (p : JsonPath) (i : Nat) :
    (p.index i).find v = (p.find v).bind fun w => w.child (Nat.toDigits 10 i) := by
  rw [JsonPath.index, find_append]
  exact Option.bind_congr fun w _ => Pointer.follow_one _ w _

theorem keyed_of_find {k : String} (hk : arrayIndex k.toList = none)
    (h : (p.key k).find v ≠ none) : p.Keyed v := by
  rw [find_key] at h
  cases hp : p.find v with
  | none =>
    rw [hp] at h
    exact absurd rfl h
  | some w =>
    rw [hp, Option.bind_some] at h
    obtain ⟨u, hu⟩ := Option.ne_none_iff_exists'.mp h
    obtain ⟨entries, rfl, -⟩ := Json.object_of_child hk hu
    exact ⟨entries, hp⟩

end Path

end Dsl

end Vcli

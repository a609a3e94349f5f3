import Vcli.Core.Presentation
import Vcli.Core.Serde
import Vcli.Lib.Table

/-! A document is read back from its JSON value, also after the entries of the value have been put
into another order. -/

namespace Vcli

open Decode

structure Rendering (T : Json → Json) (g : F64 → F64) : Prop where
  string : ∀ s, T (.string s) = .string s
  int : ∀ i, T (.int i) = .int i
  float : ∀ f, T (.float f) = .float (g f)
  array : ∀ items, T (.array items) = .array (items.map T)
  object : ∀ entries, (entries.map Prod.fst).Nodup →
    ∃ es, T (.object entries) = .object es ∧ es.Perm (entries.map fun e => (e.1, T e.2))

theorem rendering_id : Rendering (fun v => v) fun f => f where
  string _ := rfl
  int _ := rfl
  float _ := rfl
  array items := by rw [List.map_id']
  object entries _ := by
    refine ⟨entries, rfl, ?_⟩
    show entries.Perm (entries.map id)
    rw [List.map_id]

def F64.plain (f : F64) : F64 := if f.rank = 0 then ⟨0#64⟩ else f

theorem rendering_arrange : Rendering (Json.arrange id utf8) F64.plain where
  string _ := rfl
  int _ := rfl
  float _ := rfl
  array := Json.arrange_array
  object entries _ := ⟨_, Json.arrange_object entries, (Sorting.byKey_perm utf8 entries).map _⟩

section Fields

def Keyed (names : List String) (entries : List (String × Json)) : Prop :=
  (entries.map Prod.fst).Sublist names

theorem Keyed.nodup {N : List String} {entries : List (String × Json)}
    (h : Keyed N entries) (hnames : N.Nodup) : (entries.map Prod.fst).Nodup :=
  hnames.sublist h

theorem keyed_cons {n : String} {names : List String} {v : Json} {entries : List (String × Json)}
    (h : Keyed names entries) : Keyed (n :: names) ((n, v) :: entries) :=
  List.Sublist.cons_cons n h

theorem keyed_nil : Keyed [] [] := List.Sublist.refl []

theorem keyed_optional {n : String} {names : List String} (v : Option Json)
    {entries : List (String × Json)} (h : Keyed names entries) :
    Keyed (n :: names) (optional n v ++ entries) := by
  cases v with
  | none => exact List.Sublist.cons n h
  | some v => exact keyed_cons h

theorem omitted_eq (c : Prop) [Decidable c] (n : String) (v : Json) :
    (if c then [] else [(n, v)]) = optional n (if c then none else some v) := by
  split <;> rfl

@[simp] theorem lookup_optional (n k : String) (v : Option Json) :
    (optional n v).lookup k = if k = n then v else none := by
  cases v with
  | none => exact (ite_self _).symm
  | some v =>
    show List.lookup k [(n, v)] = _
    by_cases hk : k = n
    · simp [hk]
    · rw [List.lookup_cons, beq_false_of_ne hk, if_neg hk]
      rfl

end Fields

def InI32 (i : Int) : Prop := -2 ^ 31 ≤ i ∧ i < 2 ^ 31

theorem inI32_zero : InI32 0 := ⟨by decide, by decide⟩

section Scalars

theorem i32_int {i : Int} (hi : InI32 i) : i32 (.int i) = some i := if_pos hi

theorem int_nat {n bound : Nat} (h : n < bound) : Decode.int 0 bound (.nat n) = some (n : Int) := by
  show (if (0 : Int) ≤ n ∧ (n : Int) < bound then some (n : Int) else none) = _
  rw [if_pos ⟨by omega, by omega⟩]

theorem u32_nat (n : UInt32) : u32 (.nat n.toNat) = some n := by
  have hint : Decode.int 0 (2 ^ 32) (.nat n.toNat) = some (n.toNat : Int) := int_nat n.toNat_lt
  rw [u32, hint, Option.map_some, Int.toNat_natCast, UInt32.ofNat_toNat]

theorem u16_nat (n : UInt16) : u16 (.nat n.toNat) = some n := by
  have hint : Decode.int 0 (2 ^ 16) (.nat n.toNat) = some (n.toNat : Int) := int_nat n.toNat_lt
  rw [u16, hint, Option.map_some, Int.toNat_natCast, UInt16.ofNat_toNat]

theorem u8_nat (n : UInt8) : u8 (.nat n.toNat) = some n := by
  have hint : Decode.int 0 (2 ^ 8) (.nat n.toNat) = some (n.toNat : Int) := int_nat n.toNat_lt
  rw [u8, hint, Option.map_some, Int.toNat_natCast, UInt8.ofNat_toNat]

theorem F64.toValue_eq {f : F64} (h : f.isFinite) : f.toValue = .float f := if_pos h

@[simp] theorem required_some {α : Type} (dec : Json → Option α) (v : Json) :
    required dec (some v) = dec v := rfl

@[simp] theorem defaulted_none {α : Type} (a : α) (dec : Json → Option α) :
    defaulted a dec none = some a := rfl

@[simp] theorem defaulted_some {α : Type} (a : α) (dec : Json → Option α) (v : Json) :
    defaulted a dec (some v) = dec v := rfl

@[simp] theorem string_string (s : String) : Decode.string (.string s) = some s := rfl

theorem nullable_eq_some {α : Type} {dec : Json → Option α} {v : Json} {a : α}
    (hnull : dec .null = none) (h : dec v = some a) : nullable dec v = some (some a) := by
  cases v with
  | null => exact absurd (hnull.symm.trans h) nofun
  | _ => exact congrArg (Option.map some) h

end Scalars

section Fits

variable (S : String → Prop)

/-! Numbers that fit their types, and `S` of every string that stands for itself. -/

def Point.Fits (p : Point) : Prop := InI32 p.x ∧ InI32 p.y

def Rect.Fits (r : Rect) : Prop := InI32 r.x ∧ InI32 r.y ∧ InI32 r.w ∧ InI32 r.h

def Size.Fits (s : Size) : Prop := InI32 s.w ∧ InI32 s.h

def Region.Fits : Region → Prop
  | absolute rect => rect.Fits
  | window app titleContains _ => S app ∧ ∀ s ∈ titleContains, S s
  | relativeTo predicate _ offset size => S predicate ∧ offset.Fits ∧ ∀ s ∈ size, s.Fits

def PredicateKind.Fits : PredicateKind → Prop
  | template image confidence region _ => S image ∧ confidence.isFinite ∧ region.Fits S
  | colorAt point _ _ => point.Fits
  | pixelDiff region baseline threshold => region.Fits S ∧ S baseline ∧ threshold.isFinite
  | allOf of | anyOf of => ∀ s ∈ of, S s
  | not of => S of
  | elapsedMsSinceTrue predicate _ => S predicate

def Target.Fits : Target → Prop
  | absolute p => p.Fits
  | expression s => S s

def Step.Fits : Step → Prop
  | move at_ | click at_ _ => at_.Fits S
  | type text => S text
  | key name _ => S name
  | scroll at_ dx dy => at_.Fits S ∧ InI32 dx ∧ InI32 dy
  | waitFor predicate _ _ | assert predicate _ => S predicate
  | sleepMs _ => True

def WatchWhen.Fits : WatchWhen → Prop
  | byName name => S name
  | inline p => p.Fits S

def Lifetime.Fits : Lifetime → Prop
  | untilPredicate name => S name
  | _ => True

structure Watch.Fits (w : Watch) : Prop where
  when_ : w.when_.Fits S
  steps : ∀ s ∈ w.steps, s.Fits S
  lifetime : w.lifetime.Fits S

def Trigger.Fits : Trigger → Prop
  | onPredicate name => S name
  | _ => True

structure Program.Fits (p : Program) : Prop where
  version : S p.version
  name : S p.name
  trigger : p.trigger.Fits S
  predicates : ∀ n q, p.predicates[n]? = some q → S n ∧ q.Fits S
  watches : ∀ w ∈ p.watches, w.Fits S
  body : ∀ s ∈ p.body, s.Fits S
  onComplete : ∀ s ∈ p.onComplete, S s
  onFail : ∀ s ∈ p.onFail, S s
  labels : ∀ k v, p.labels[k]? = some v → S k ∧ S v
  priority : InI32 p.priority

end Fits

section Predicates

def PredicateKind.mapFloats (g : F64 → F64) : PredicateKind → PredicateKind
  | template image confidence region throttleMs =>
    .template image (g confidence) region throttleMs
  | pixelDiff region baseline threshold => .pixelDiff region baseline (g threshold)
  | p => p

variable (φ ψ : PredicateKind → PredicateKind)

def WatchWhen.mapPredicates : WatchWhen → WatchWhen
  | byName name => .byName name
  | inline p => .inline (φ p)

def Watch.mapPredicates (w : Watch) : Watch := { w with when_ := w.when_.mapPredicates φ }

def Program.mapPredicates (p : Program) : Program :=
  { p with
    predicates := p.predicates.map fun _ q => φ q
    watches := p.watches.map (Watch.mapPredicates φ) }

theorem PredicateKind.mapFloats_id (p : PredicateKind) : p.mapFloats (fun f => f) = p := by
  cases p <;> rfl

theorem WatchWhen.mapPredicates_comp (w : WatchWhen) :
    (w.mapPredicates φ).mapPredicates ψ = w.mapPredicates fun q => ψ (φ q) := by
  cases w <;> rfl

theorem Program.mapPredicates_comp (p : Program) :
    (p.mapPredicates φ).mapPredicates ψ = p.mapPredicates fun q => ψ (φ q) := by
  have hpredicates : ((p.predicates.map fun _ q => φ q).map fun _ q => ψ q) =
      p.predicates.map fun _ q => ψ (φ q) := by
    apply Std.ExtTreeMap.ext_getElem?
    intro n
    simp only [Std.ExtTreeMap.getElem?_map, Option.map_map]
    rfl
  have hwatches : (p.watches.map (Watch.mapPredicates φ)).map (Watch.mapPredicates ψ) =
      p.watches.map (Watch.mapPredicates fun q => ψ (φ q)) := by
    rw [List.map_map]
    refine List.map_congr_left fun w _ => ?_
    show ({ w with when_ := (w.when_.mapPredicates φ).mapPredicates ψ } : Watch) = _
    rw [WatchWhen.mapPredicates_comp]
    rfl
  show ({ p with predicates := _, watches := _ } : Program) = _
  rw [Program.mapPredicates, Program.mapPredicates, hpredicates, hwatches]

variable {φ}

theorem WatchWhen.mapPredicates_id (h : ∀ q, φ q = q) (w : WatchWhen) : w.mapPredicates φ = w := by
  cases w with
  | byName name => rfl
  | inline p => rw [mapPredicates, h p]

theorem Program.mapPredicates_id (h : ∀ q, φ q = q) (p : Program) : p.mapPredicates φ = p := by
  have hpredicates : (p.predicates.map fun _ q => φ q) = p.predicates := by
    apply Std.ExtTreeMap.ext_getElem?
    intro n
    rw [Std.ExtTreeMap.getElem?_map, Option.map_congr fun q _ => h q, Option.map_id_fun']
    rfl
  have hwatches : p.watches.map (Watch.mapPredicates φ) = p.watches := by
    have hsame : ∀ w ∈ p.watches, w.mapPredicates φ = w := by
      intro w _
      rw [Watch.mapPredicates, w.when_.mapPredicates_id h]
    rw [List.map_congr_left hsame, List.map_id']
  rw [mapPredicates, hpredicates, hwatches]

end Predicates

section Render

variable {T : Json → Json} {g : F64 → F64} (h : Rendering T g)

include h

theorem Rendering.nat (n : Nat) : T (.nat n) = .nat n := h.int n

theorem Rendering.record {entries : List (String × Json)} (hkeys : (entries.map Prod.fst).Nodup)
    (names : List String) :
    Decode.record names (T (.object entries)) = some fun n => (entries.lookup n).map T := by
  obtain ⟨es, hes, hperm⟩ := h.object entries hkeys
  have hfst : (entries.map fun e => (e.1, T e.2)).map Prod.fst = entries.map Prod.fst := by
    rw [List.map_map]
    rfl
  have hkeys' : ((entries.map fun e => (e.1, T e.2)).map Prod.fst).Nodup := by rwa [hfst]
  have hlookup : ∀ n, es.lookup n = (entries.lookup n).map T := by
    intro n
    rw [← Table.lookup_map_snd fun _ => T]
    apply Option.ext
    intro v
    rw [← Table.mem_iff_lookup hkeys',
      ← Table.mem_iff_lookup ((hperm.map Prod.fst).nodup_iff.mpr hkeys')]
    exact hperm.mem_iff
  rw [hes]
  exact congrArg some (funext hlookup)

theorem Rendering.tagged {t : String} {e : List (String × Json)}
    (hkeys : ((("kind", Json.string t) :: e).map Prod.fst).Nodup) :
    Decode.tagged (T (.object (("kind", .string t) :: e))) =
      some (.string t, T (.object (("kind", .string t) :: e))) := by
  have hrecord := h.record hkeys []
  obtain ⟨es, hes, -⟩ := h.object _ hkeys
  rw [hes] at hrecord ⊢
  have htag := congrFun (Option.some.inj hrecord) "kind"
  have hkind : es.lookup "kind" = some (.string t) := by
    rw [htag, List.lookup_cons_self, Option.map_some, h.string]
  rw [Decode.tagged, hkind]
  rfl

omit h in
theorem variant_of_mem {buffered : Bool} {names : List String} {s : String} (hs : s ∈ names) :
    variant buffered names (.string s) = some s := by
  rw [variant, if_pos hs]

theorem i32_render {i : Int} (hi : InI32 i) : i32 (T (.int i)) = some i := by
  rw [h.int, i32_int hi]

theorem u32_render (n : UInt32) : u32 (T (.nat n.toNat)) = some n := by rw [h.nat, u32_nat]

theorem u16_render (n : UInt16) : u16 (T (.nat n.toNat)) = some n := by rw [h.nat, u16_nat]

theorem u8_render (n : UInt8) : u8 (T (.nat n.toNat)) = some n := by rw [h.nat, u8_nat]

theorem f64_render {f : F64} (hf : f.isFinite) : f64 (T f.toValue) = some (g f) := by
  rw [F64.toValue_eq hf, h.float]
  rfl

theorem string_render (s : String) : Decode.string (T (.string s)) = some s := by
  rw [h.string, string_string]

omit h in
theorem nullable_render {α : Type} {E : α → Json} {D : Json → Option α}
    (hnull : D .null = none) {o : Option α} (hdec : ∀ a ∈ o, D (T (E a)) = some a) :
    defaulted none (nullable D) (o.map (T ∘ E)) = some o := by
  cases o with
  | none => rfl
  | some a => exact nullable_eq_some hnull (hdec a rfl)

theorem array_render {α β : Type} {E : α → Json} {D : Json → Option β} {f : α → β} {l : List α}
    (hdec : ∀ a ∈ l, D (T (E a)) = some (f a)) :
    array D (T (.array (l.map E))) = some (l.map f) := by
  rw [h.array, List.map_map]
  exact Traverse.mapM_map_pure hdec

theorem array_render_id {α : Type} {E : α → Json} {D : Json → Option α} {l : List α}
    (hdec : ∀ a ∈ l, D (T (E a)) = some a) : array D (T (.array (l.map E))) = some l := by
  rw [array_render h (f := id) hdec, List.map_id]

theorem Point.fromValue_render {p : Point} (hp : p.Fits) :
    Point.fromValue (T p.toValue) = some p := by
  simp [Point.toValue, Point.fromValue, h.record, List.lookup_cons, i32_render h hp.1,
    i32_render h hp.2]

theorem Rect.fromValue_render {r : Rect} (hr : r.Fits) : Rect.fromValue (T r.toValue) = some r := by
  obtain ⟨hx, hy, hw, hh⟩ := hr
  simp [Rect.toValue, Rect.fromValue, h.record, List.lookup_cons, i32_render h hx, i32_render h hy,
    i32_render h hw, i32_render h hh]

theorem Size.fromValue_render {s : Size} (hs : s.Fits) : Size.fromValue (T s.toValue) = some s := by
  simp [Size.toValue, Size.fromValue, h.record, List.lookup_cons, i32_render h hs.1, i32_render h hs.2]

theorem Anchor.fromValue_render (a : Anchor) : Anchor.fromValue (T a.toValue) = some a := by
  simp [Anchor.toValue, Anchor.fromValue, h.string, unitVariant]

theorem Region.fromValue_render {S : String → Prop} {r : Region} (hr : r.Fits S) :
    Region.fromValue (T r.toValue) = some r := by
  cases r with
  | absolute rect =>
    have hrect := Rect.fromValue_render h hr
    simp [Region.toValue, Region.fromValue, h.tagged, h.record, variant, List.lookup_cons, hrect]
  | window app titleContains windowIndex =>
    have hkeys := (keyed_cons (v := .string "window") (keyed_cons (v := .string app)
      (keyed_optional (titleContains.map .string) (keyed_optional
        (windowIndex.map fun i => .nat i.toNat) keyed_nil)))).nodup
      (N := ["kind", "app", "title_contains", "window_index"]) (by decide)
    rw [List.append_nil] at hkeys
    have htitle := nullable_render (D := Decode.string) rfl (o := titleContains) fun s _ =>
      string_render h s
    have hindex := nullable_render (D := u32) rfl (o := windowIndex) fun i _ => u32_render h i
    simp [Region.toValue, Region.fromValue, List.lookup_append, h.tagged hkeys, h.record hkeys,
      variant, List.lookup_cons, string_render h, htitle, hindex]
  | relativeTo predicate anchor offset size =>
    obtain ⟨-, hoffset, hsize⟩ := hr
    have hkeys := (keyed_cons (v := .string "relative_to") (keyed_cons (v := .string predicate)
      (keyed_cons (v := anchor.toValue) (keyed_cons (v := offset.toValue)
      (keyed_optional (size.map Size.toValue) keyed_nil))))).nodup
      (N := ["kind", "predicate", "anchor", "offset", "size"]) (by decide)
    rw [List.append_nil] at hkeys
    have hsize' := nullable_render (D := Size.fromValue) rfl (o := size) fun s hs =>
      Size.fromValue_render h (hsize s hs)
    simp [Region.toValue, Region.fromValue, h.tagged hkeys, h.record hkeys, variant, List.lookup_cons,
      string_render h, Anchor.fromValue_render h, Point.fromValue_render h hoffset, hsize']

theorem Rgb.fromValue_render (c : Rgb) : Rgb.fromValue (T c.toValue) = some c := by
  simp [Rgb.toValue, Rgb.fromValue, h.array, u8_render h]

theorem PredicateKind.fromValue_render (buffered : Bool) {S : String → Prop} {p : PredicateKind}
    (hp : p.Fits S) : PredicateKind.fromValue buffered (T p.toValue) = some (p.mapFloats g) := by
  cases p with
  -- in each case the tag picks the variant, and then the fields are read one by one
  | template image confidence region throttleMs =>
    have htag : variant buffered variants (.string "template") = some "template" :=
      variant_of_mem (by decide)
    rw [toValue, PredicateKind.fromValue, h.tagged (by simp)]
    simp only [↓Option.bind_eq_bind, ↓Option.bind_some, ↓htag]
    simp [h.record, List.lookup_cons, string_render h, f64_render h hp.2.1,
      Region.fromValue_render h hp.2.2, u32_render h, mapFloats]
  | colorAt point rgb tolerance =>
    have htag : variant buffered variants (.string "color_at") = some "color_at" :=
      variant_of_mem (by decide)
    rw [toValue, PredicateKind.fromValue, h.tagged (by simp)]
    simp only [↓Option.bind_eq_bind, ↓Option.bind_some, ↓htag]
    simp [h.record, List.lookup_cons, Point.fromValue_render h hp, Rgb.fromValue_render h,
      u16_render h, mapFloats]
  | pixelDiff region baseline threshold =>
    have htag : variant buffered variants (.string "pixel_diff") = some "pixel_diff" :=
      variant_of_mem (by decide)
    rw [toValue, PredicateKind.fromValue, h.tagged (by simp)]
    simp only [↓Option.bind_eq_bind, ↓Option.bind_some, ↓htag]
    simp [h.record, List.lookup_cons, Region.fromValue_render h hp.1, string_render h,
      f64_render h hp.2.2, mapFloats]
  | allOf of =>
    have htag : variant buffered variants (.string "all_of") = some "all_of" :=
      variant_of_mem (by decide)
    have hof := array_render_id h (D := Decode.string) (l := of) fun s _ => string_render h s
    rw [toValue, PredicateKind.fromValue, h.tagged (by simp)]
    simp only [↓Option.bind_eq_bind, ↓Option.bind_some, ↓htag]
    simp [h.record, List.lookup_cons, hof, mapFloats]
  | anyOf of =>
    have htag : variant buffered variants (.string "any_of") = some "any_of" :=
      variant_of_mem (by decide)
    have hof := array_render_id h (D := Decode.string) (l := of) fun s _ => string_render h s
    rw [toValue, PredicateKind.fromValue, h.tagged (by simp)]
    simp only [↓Option.bind_eq_bind, ↓Option.bind_some, ↓htag]
    simp [h.record, List.lookup_cons, hof, mapFloats]
  | not of =>
    have htag : variant buffered variants (.string "not") = some "not" :=
      variant_of_mem (by decide)
    rw [toValue, PredicateKind.fromValue, h.tagged (by simp)]
    simp only [↓Option.bind_eq_bind, ↓Option.bind_some, ↓htag]
    simp [h.record, List.lookup_cons, string_render h, mapFloats]
  | elapsedMsSinceTrue predicate ms =>
    have htag : variant buffered variants (.string "elapsed_ms_since_true") =
      some "elapsed_ms_since_true" := variant_of_mem (by decide)
    rw [toValue, PredicateKind.fromValue, h.tagged (by simp)]
    simp only [↓Option.bind_eq_bind, ↓Option.bind_some, ↓htag]
    simp [h.record, List.lookup_cons, string_render h, u32_render h, mapFloats]

theorem Button.fromValue_render (b : Button) : Button.fromValue (T b.toValue) = some b := by
  cases b <;> simp [Button.toValue, Button.fromValue, h.string, unitVariant]

theorem Modifier.fromValue_render (m : Modifier) : Modifier.fromValue (T m.toValue) = some m := by
  cases m <;> simp [Modifier.toValue, Modifier.fromValue, h.string, unitVariant]

theorem OnTimeout.fromValue_render (o : OnTimeout) :
    OnTimeout.fromValue (T o.toValue) = some o := by
  cases o <;> simp [OnTimeout.toValue, OnTimeout.fromValue, h.string, unitVariant]

theorem OnFail.fromValue_render (o : OnFail) : OnFail.fromValue (T o.toValue) = some o := by
  cases o <;> simp [OnFail.toValue, OnFail.fromValue, h.string, unitVariant]

theorem Target.fromValue_render {S : String → Prop} {t : Target} (ht : t.Fits S) :
    Target.fromValue (T t.toValue) = some t := by
  cases t with
  | absolute p => rw [toValue, Target.fromValue, Point.fromValue_render h ht]
  | expression s =>
    rw [toValue, h.string]
    rfl

omit h in
theorem defaulted_render {α : Type} {E : α → Json} {D : Json → Option α} {a d : α}
    [Decidable (a = d)] (hdec : D (T (E a)) = some a) :
    defaulted d D (Option.map T (if a = d then none else some (E a))) = some a := by
  split
  next hd => rw [hd]; rfl
  next => exact hdec

theorem Step.fromValue_render {S : String → Prop} {s : Step} (hs : s.Fits S) :
    Step.fromValue (T s.toValue) = some s := by
  cases s with
  | move at_ =>
    have htag : variant false variants (.string "move") = some "move" := variant_of_mem (by decide)
    rw [toValue, Step.fromValue, h.tagged (by simp)]
    simp only [↓Option.bind_eq_bind, ↓Option.bind_some, ↓htag]
    simp [h.record, List.lookup_cons, Target.fromValue_render h hs]
  | click at_ button =>
    have htag : variant false variants (.string "click") = some "click" :=
      variant_of_mem (by decide)
    -- a button that is left out is the left one, and its key stands beside the others at most once
    have hkeys := (keyed_cons (v := .string "click") (keyed_cons (v := at_.toValue) (keyed_optional
      (if button = .left then none else some button.toValue) keyed_nil))).nodup
      (N := ["kind", "at", "button"]) (by decide)
    rw [List.append_nil] at hkeys
    have hbutton := defaulted_render (d := Button.left) (Button.fromValue_render h button)
    rw [toValue, omitted_eq, List.cons_append, List.cons_append, List.nil_append, Step.fromValue,
      h.tagged hkeys]
    simp only [↓Option.bind_eq_bind, ↓Option.bind_some, ↓htag]
    simp [h.record hkeys, List.lookup_cons, Target.fromValue_render h hs, hbutton]
  | type text =>
    have htag : variant false variants (.string "type") = some "type" := variant_of_mem (by decide)
    rw [toValue, Step.fromValue, h.tagged (by simp)]
    simp only [↓Option.bind_eq_bind, ↓Option.bind_some, ↓htag]
    simp [h.record, List.lookup_cons, string_render h]
  | key name modifiers =>
    have htag : variant false variants (.string "key") = some "key" := variant_of_mem (by decide)
    have hkeys := (keyed_cons (v := .string "key") (keyed_cons (v := .string name) (keyed_optional
      (if modifiers = [] then none else some (.array (modifiers.map Modifier.toValue)))
      keyed_nil))).nodup (N := ["kind", "key", "modifiers"]) (by decide)
    rw [List.append_nil] at hkeys
    have hmodifiers := defaulted_render (a := modifiers) (d := [])
      (E := fun l => .array (l.map Modifier.toValue)) (array_render_id h
        (D := Modifier.fromValue) fun m _ => Modifier.fromValue_render h m)
    rw [toValue, omitted_eq, List.cons_append, List.cons_append, List.nil_append, Step.fromValue,
      h.tagged hkeys]
    simp only [↓Option.bind_eq_bind, ↓Option.bind_some, ↓htag]
    simp [h.record hkeys, List.lookup_cons, string_render h, hmodifiers]
  | scroll at_ dx dy =>
    have htag : variant false variants (.string "scroll") = some "scroll" :=
      variant_of_mem (by decide)
    obtain ⟨hat, hdx, hdy⟩ := hs
    rw [toValue, Step.fromValue, h.tagged (by simp)]
    simp only [↓Option.bind_eq_bind, ↓Option.bind_some, ↓htag]
    simp [h.record, List.lookup_cons, Target.fromValue_render h hat, i32_render h hdx,
      i32_render h hdy]
  | waitFor predicate timeoutMs onTimeout =>
    have htag : variant false variants (.string "wait_for") = some "wait_for" :=
      variant_of_mem (by decide)
    rw [toValue, Step.fromValue, h.tagged (by simp)]
    simp only [↓Option.bind_eq_bind, ↓Option.bind_some, ↓htag]
    simp [h.record, List.lookup_cons, string_render h, u32_render h, OnTimeout.fromValue_render h]
  | assert predicate onFail =>
    have htag : variant false variants (.string "assert") = some "assert" :=
      variant_of_mem (by decide)
    rw [toValue, Step.fromValue, h.tagged (by simp)]
    simp only [↓Option.bind_eq_bind, ↓Option.bind_some, ↓htag]
    simp [h.record, List.lookup_cons, string_render h, OnFail.fromValue_render h]
  | sleepMs ms =>
    have htag : variant false variants (.string "sleep_ms") = some "sleep_ms" :=
      variant_of_mem (by decide)
    rw [toValue, Step.fromValue, h.tagged (by simp)]
    simp only [↓Option.bind_eq_bind, ↓Option.bind_some, ↓htag]
    simp [h.record, List.lookup_cons, u32_render h]

theorem WatchWhen.fromValue_render {S : String → Prop} {w : WatchWhen} (hw : w.Fits S) :
    WatchWhen.fromValue (T w.toValue) = some (w.mapPredicates (PredicateKind.mapFloats g)) := by
  cases w with
  | byName name =>
    rw [toValue, h.string]
    rfl
  | inline p =>
    have hread := PredicateKind.fromValue_render h true hw
    -- A predicate is an object, so it is not taken for a name.
    have hobject : ∃ es, T p.toValue = .object es := by
      obtain ⟨entries, hp, hkeys⟩ : ∃ entries, p.toValue = .object entries ∧
          (entries.map Prod.fst).Nodup := by
        cases p <;> exact ⟨_, rfl, by simp⟩
      obtain ⟨es, hes, -⟩ := h.object entries hkeys
      exact ⟨es, by rw [hp, hes]⟩
    obtain ⟨es, hes⟩ := hobject
    rw [hes] at hread
    rw [toValue, hes, WatchWhen.fromValue, hread]
    · rfl
    · exact nofun

theorem Lifetime.fromValue_render (l : Lifetime) : Lifetime.fromValue (T l.toValue) = some l := by
  cases l with
  | oneShot =>
    obtain ⟨es, hes, -⟩ := h.object [("kind", .string "one_shot")] (by simp)
    have htagged := h.tagged (t := "one_shot") (e := []) (by simp)
    rw [toValue, Lifetime.fromValue, htagged, hes]
    simp [variant, unitBody]
  | persistent =>
    obtain ⟨es, hes, -⟩ := h.object [("kind", .string "persistent")] (by simp)
    have htagged := h.tagged (t := "persistent") (e := []) (by simp)
    rw [toValue, Lifetime.fromValue, htagged, hes]
    simp [variant, unitBody]
  | untilPredicate name =>
    rw [toValue, Lifetime.fromValue, h.tagged (by simp)]
    simp [variant, h.record, List.lookup_cons, string_render h]
  | timeoutMs ms =>
    rw [toValue, Lifetime.fromValue, h.tagged (by simp)]
    simp [variant, h.record, List.lookup_cons, u32_render h]

theorem Watch.fromValue_render {S : String → Prop} {w : Watch} (hw : w.Fits S) :
    Watch.fromValue (T w.toValue) = some (w.mapPredicates (PredicateKind.mapFloats g)) := by
  have hsteps := array_render_id h (D := Step.fromValue) fun s hs =>
    Step.fromValue_render h (hw.steps s hs)
  simp [toValue, Watch.fromValue, h.record, List.lookup_cons, WatchWhen.fromValue_render h hw.when_,
    hsteps, u32_render h, Lifetime.fromValue_render h, mapPredicates]

theorem Trigger.fromValue_render (t : Trigger) : Trigger.fromValue (T t.toValue) = some t := by
  cases t with
  | onSubmit =>
    obtain ⟨es, hes, -⟩ := h.object [("kind", .string "on_submit")] (by simp)
    have htagged := h.tagged (t := "on_submit") (e := []) (by simp)
    rw [toValue, Trigger.fromValue, htagged, hes]
    simp [variant, unitBody]
  | onPredicate name =>
    rw [toValue, Trigger.fromValue, h.tagged (by simp)]
    simp [variant, h.record, List.lookup_cons, string_render h]
  | manual =>
    obtain ⟨es, hes, -⟩ := h.object [("kind", .string "manual")] (by simp)
    have htagged := h.tagged (t := "manual") (e := []) (by simp)
    rw [toValue, Trigger.fromValue, htagged, hes]
    simp [variant, unitBody]

theorem emitter_render (emit : String) : emitterFromValue (T (emitter emit)) = some emit := by
  simp [emitter, emitterFromValue, h.record, List.lookup_cons, string_render h]

theorem map_render {α β : Type} {E : α → Json} {D : Json → Option β} {f : α → β}
    {m : Std.ExtTreeMap String α}
    (hdec : ∀ (k : String) (a : α), m[k]? = some a → D (T (E a)) = some (f a)) :
    map D (T (mapToValue E m)) = some (m.map fun _ a => f a) := by
  have hkeys : ∀ {γ : Type} (j : α → γ), ((m.toList.map fun e => (e.1, j e.2)).map Prod.fst).Nodup := by
    intro γ j
    rw [List.map_map]
    show (m.toList.map Prod.fst).Nodup
    rw [Std.ExtTreeMap.map_fst_toList_eq_keys]
    exact Std.ExtTreeMap.nodup_keys
  obtain ⟨es, hes, hperm⟩ := h.object _ (hkeys E)
  rw [List.map_map] at hperm
  have hread : (m.toList.map fun e => (e.1, T (E e.2))).mapM
      (fun e => (D e.2).map (e.1, ·)) = some (m.toList.map fun e => (e.1, f e.2)) := by
    refine Traverse.mapM_map_pure fun e he => ?_
    show (D (T (E e.2))).map (e.1, ·) = _
    rw [hdec e.1 e.2 (Std.ExtTreeMap.mem_toList_iff_getElem?_eq_some.mp he)]
    rfl
  obtain ⟨out, hout, hperm'⟩ := Traverse.mapM_perm hperm hread
  -- the keys of the map are distinct, and their order in the object is of no matter
  have hfill : Traverse.fill out = m.map fun _ a => f a := by
    apply Std.ExtTreeMap.ext_getElem?
    intro k
    apply Option.ext
    intro b
    rw [Traverse.getElem?_fill ((hperm'.map Prod.fst).nodup_iff.mpr (hkeys f)), hperm'.mem_iff,
      Std.ExtTreeMap.getElem?_map, List.mem_map, Option.map_eq_some_iff]
    constructor
    · rintro ⟨e, he, heq⟩
      obtain ⟨rfl, rfl⟩ := Prod.mk.inj heq
      exact ⟨e.2, Std.ExtTreeMap.mem_toList_iff_getElem?_eq_some.mp he, rfl⟩
    · rintro ⟨a, ha, rfl⟩
      exact ⟨(k, a), Std.ExtTreeMap.mem_toList_iff_getElem?_eq_some.mpr ha, rfl⟩
  rw [mapToValue, hes, Decode.map, hout]
  exact congrArg some hfill

theorem map_render_id {α : Type} {E : α → Json} {D : Json → Option α}
    {m : Std.ExtTreeMap String α}
    (hdec : ∀ (k : String) (a : α), m[k]? = some a → D (T (E a)) = some a) :
    map D (T (mapToValue E m)) = some m := by
  rw [map_render h (f := id) hdec]
  refine congrArg some (Std.ExtTreeMap.ext_getElem? fun {k} => ?_)
  rw [Std.ExtTreeMap.getElem?_map]
  exact Option.map_id_apply

def Program.entries (p : Program) : List (String × Json) :=
  ("version", .string p.version) :: ("name", .string p.name) ::
    (optional "id" (p.id.map fun id => .string id.toString) ++
    ("trigger", p.trigger.toValue) ::
    ("predicates", mapToValue PredicateKind.toValue p.predicates) ::
    (optional "watches" (if p.watches = [] then none
      else some (.array (p.watches.map Watch.toValue))) ++
    ("body", .array (p.body.map Step.toValue)) ::
    (optional "on_complete" (p.onComplete.map emitter) ++
    (optional "on_fail" (p.onFail.map emitter) ++
    (optional "timeout_ms" (p.timeoutMs.map fun ms => .nat ms.toNat) ++
    (optional "labels" (if p.labels.isEmpty then none
      else some (mapToValue .string p.labels)) ++
    (optional "priority" (if p.priority = 0 then none
      else some (.int p.priority)) ++ [])))))))

omit h in
theorem Program.toValue_eq (p : Program) : p.toValue = .object p.entries := by
  rw [Program.toValue, omitted_eq, omitted_eq, omitted_eq]
  simp [entries]

def Program.fields : List String :=
  ["version", "name", "id", "trigger", "predicates", "watches", "body", "on_complete", "on_fail",
    "timeout_ms", "labels", "priority"]

omit h in
theorem Program.keyed_entries (p : Program) : Keyed Program.fields p.entries :=
  keyed_cons (keyed_cons (keyed_optional _ (keyed_cons (keyed_cons (keyed_optional _ (keyed_cons
    (keyed_optional _ (keyed_optional _ (keyed_optional _ (keyed_optional _ (keyed_optional _
      keyed_nil)))))))))))

omit h in
theorem Program.lookup_entries (p : Program) :
    p.entries.lookup "version" = some (.string p.version) ∧
    p.entries.lookup "name" = some (.string p.name) ∧
    p.entries.lookup "id" = p.id.map (fun id => .string id.toString) ∧
    p.entries.lookup "trigger" = some p.trigger.toValue ∧
    p.entries.lookup "predicates" = some (mapToValue PredicateKind.toValue p.predicates) ∧
    p.entries.lookup "watches" = (if p.watches = [] then none
      else some (.array (p.watches.map Watch.toValue))) ∧
    p.entries.lookup "body" = some (.array (p.body.map Step.toValue)) ∧
    p.entries.lookup "on_complete" = p.onComplete.map emitter ∧
    p.entries.lookup "on_fail" = p.onFail.map emitter ∧
    p.entries.lookup "timeout_ms" = p.timeoutMs.map (fun ms => .nat ms.toNat) ∧
    p.entries.lookup "labels" = (if p.labels.isEmpty then none
      else some (mapToValue .string p.labels)) ∧
    p.entries.lookup "priority" = (if p.priority = 0 then none else some (.int p.priority)) := by
  refine ⟨?_, ?_, ?_, ?_, ?_, ?_, ?_, ?_, ?_, ?_, ?_, ?_⟩ <;>
    simp only [entries, List.lookup_cons, List.lookup_append, lookup_optional, String.reduceBEq,
      String.reduceEq, if_true, if_false, Option.none_or, Option.or_none, List.lookup_nil]

omit h in
theorem bind_eq_some {α β : Type} {x : Option α} {f : α → Option β} {a : α} {b : β}
    (hx : x = some a) (hf : f a = some b) : (x >>= f) = some b := by
  rw [hx]
  exact hf

/-- A program is read back from its value, its floats changed as the rendering changes them. -/
theorem Program.fromValue_render {parseId : String → Option ProgramId}
    {S : String → Prop} {p : Program} (hp : p.Fits S)
    (hid : ∀ id ∈ p.id, parseId id.toString = some id) :
    Program.fromValue parseId (T p.toValue) = some (p.mapPredicates (PredicateKind.mapFloats g)) := by
  have hkeys := p.keyed_entries.nodup (by decide)
  obtain ⟨h₁, h₂, h₃, h₄, h₅, h₆, h₇, h₈, h₉, h₁₀, h₁₁, h₁₂⟩ := p.lookup_entries
  obtain ⟨f, hrecord, hf⟩ : ∃ f, Decode.record Program.fields (T (.object p.entries)) = some f ∧
      ∀ n, f n = (p.entries.lookup n).map T := ⟨_, h.record hkeys _, fun _ => rfl⟩
  have hversion : required Decode.string (f "version") = some p.version := by
    rw [hf, h₁]
    exact string_render h p.version
  have hname : required Decode.string (f "name") = some p.name := by
    rw [hf, h₂]
    exact string_render h p.name
  have hid' : defaulted none (nullable fun v => (Decode.string v).bind parseId) (f "id") =
      some p.id := by
    rw [hf, h₃, Option.map_map]
    refine nullable_render rfl fun id hmem => ?_
    rw [string_render h, Option.bind_some, hid id hmem]
  have htrigger : required Trigger.fromValue (f "trigger") = some p.trigger := by
    rw [hf, h₄]
    exact Trigger.fromValue_render h p.trigger
  have hpredicates : defaulted ∅ (map (PredicateKind.fromValue false)) (f "predicates") =
      some (p.mapPredicates (PredicateKind.mapFloats g)).predicates := by
    rw [hf, h₅]
    exact map_render h fun n q hq => PredicateKind.fromValue_render h false (hp.predicates n q hq).2
  have hwatches : defaulted [] (array Watch.fromValue) (f "watches") =
      some (p.mapPredicates (PredicateKind.mapFloats g)).watches := by
    rw [hf, h₆, Program.mapPredicates]
    split
    next hnil => rw [hnil]; rfl
    next => exact array_render h fun w hw => Watch.fromValue_render h (hp.watches w hw)
  have hbody : defaulted [] (array Step.fromValue) (f "body") = some p.body := by
    rw [hf, h₇]
    exact array_render_id h fun s hs => Step.fromValue_render h (hp.body s hs)
  have hcomplete : defaulted none (nullable emitterFromValue) (f "on_complete") =
      some p.onComplete := by
    rw [hf, h₈, Option.map_map]
    exact nullable_render rfl fun s _ => emitter_render h s
  have hfail : defaulted none (nullable emitterFromValue) (f "on_fail") = some p.onFail := by
    rw [hf, h₉, Option.map_map]
    exact nullable_render rfl fun s _ => emitter_render h s
  have htimeout : defaulted none (nullable u32) (f "timeout_ms") = some p.timeoutMs := by
    rw [hf, h₁₀, Option.map_map]
    exact nullable_render rfl fun ms _ => u32_render h ms
  have hlabels : defaulted ∅ (map Decode.string) (f "labels") = some p.labels := by
    rw [hf, h₁₁]
    split
    next hempty => rw [Std.ExtTreeMap.isEmpty_iff.mp hempty]; rfl
    next => exact map_render_id h fun _ v _ => string_render h v
  have hpriority : defaulted 0 i32 (f "priority") = some p.priority := by
    rw [hf, h₁₂]
    exact defaulted_render (i32_render h hp.priority)
  rw [p.toValue_eq, Program.fromValue]
  exact bind_eq_some hrecord (bind_eq_some hversion (bind_eq_some hname (bind_eq_some hid'
    (bind_eq_some htrigger (bind_eq_some hpredicates (bind_eq_some hwatches (bind_eq_some hbody
    (bind_eq_some hcomplete (bind_eq_some hfail (bind_eq_some htimeout (bind_eq_some hlabels
    (bind_eq_some hpriority rfl))))))))))))

end Render

end Vcli

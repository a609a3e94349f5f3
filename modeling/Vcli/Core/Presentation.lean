import Mathlib.Data.List.Perm.Basic
import Vcli.Core.Roundtrip
import Vcli.Lib.Traverse

/-! What the canonical bytes depend on. -/

namespace Vcli

theorem utf8_injective : Function.Injective utf8 := by
  intro s t h
  rw [← String.toByteArray_inj, ← String.ofList_toList (s := s), ← String.ofList_toList (s := t),
    String.toByteArray_ofList, String.toByteArray_ofList, List.utf8Encode, List.utf8Encode]
  exact congrArg List.toByteArray h

theorem JsonNumber.plain_plain (n : JsonNumber) : n.plain.plain = n.plain := by
  cases n with
  | int i => rfl
  | float f =>
    by_cases hf : f.rank = 0
    · rw [plain, if_pos hf]
      rfl
    · simp only [plain, hf, if_false]

theorem JsonNumber.representable_zero : Representable (.float ⟨0#64⟩) :=
  (by decide : F64.isFinite ⟨0#64⟩ = true)

theorem JsonNumber.representable_plain {n : JsonNumber} (h : n.Representable) :
    n.plain.Representable := by
  cases n with
  | int i => exact h
  | float f =>
    by_cases hf : f.rank = 0
    · rw [plain, if_pos hf]
      exact representable_zero
    · rwa [plain, if_neg hf]

namespace Json

section Definitions

variable (nfc : String → String) (rank : String → List UInt8)

mutual

/-- Strings and keys in normal form and a single zero, the entries of an object by the rank of
the keys they had. -/
def arrange : Json → Json
  | .null => .null
  | .bool b => .bool b
  | .number n => .number n.plain
  | .string s => .string (nfc s)
  | .array items => .array (arrangeItems items)
  | .object entries =>
    .object ((Sorting.byKey rank (arrangeEntries entries)).map fun e => (nfc e.1, e.2))

def arrangeItems : List Json → List Json
  | [] => []
  | v :: items => arrange v :: arrangeItems items

def arrangeEntries : List (String × Json) → List (String × Json)
  | [] => []
  | (k, v) :: entries => (k, arrange v) :: arrangeEntries entries

end

mutual

/-- Equal up to the order of entries and the normal form of strings and keys. -/
def Alike : Json → Json → Prop
  | .null, .null => True
  | .bool a, .bool b => a = b
  | .number n, .number m => n.plain = m.plain
  | .string s, .string t => nfc s = nfc t
  | .array a, .array b => AlikeItems a b
  | .object a, .object b => ∃ b', b'.Perm b ∧ AlikeEntries a b'
  | _, _ => False

def AlikeItems : List Json → List Json → Prop
  | [], [] => True
  | v :: a, w :: b => Alike v w ∧ AlikeItems a b
  | _, _ => False

def AlikeEntries : List (String × Json) → List (String × Json) → Prop
  | [], [] => True
  | (j, v) :: a, (k, w) :: b => (nfc j = nfc k ∧ Alike v w) ∧ AlikeEntries a b
  | _, _ => False

end

def Apart (v : Json) : Prop :=
  v.Each (fun _ => True) (fun _ => True) fun keys => (keys.map nfc).Nodup

def OrderKept (v : Json) : Prop :=
  v.Each (fun _ => True) (fun _ => True) fun keys =>
    ∀ j ∈ keys, ∀ k ∈ keys, utf8 j < utf8 k → utf8 (nfc j) < utf8 (nfc k)

def Fixed (v : Json) : Prop :=
  v.Each (fun _ => True) (fun s => nfc s = s) fun keys => ∀ k ∈ keys, nfc k = k

def Ordered (v : Json) : Prop :=
  v.Each (fun _ => True) (fun _ => True) (Sorting.Increasing utf8)

def Tidy (v : Json) : Prop :=
  v.Each (fun n => n.plain = n) (fun s => nfc s = s) fun keys =>
    Sorting.Increasing utf8 keys ∧ ∀ k ∈ keys, nfc k = k

end Definitions

theorem Each.imp {N N' : JsonNumber → Prop} {S S' : String → Prop} {K K' : List String → Prop}
    (hN : ∀ n, N n → N' n) (hS : ∀ s, S s → S' s) (hK : ∀ keys, K keys → K' keys) {v : Json}
    (h : v.Each N S K) : v.Each N' S' K' := by
  induction v using Json.induct with
  | null => trivial
  | bool b => trivial
  | number n => exact hN n h
  | string s => exact hS s h
  | array items ih => exact each_array.mpr fun v hv => ih v hv (each_array.mp h v hv)
  | object entries ih =>
    obtain ⟨hkeys, hentries⟩ := each_object.mp h
    exact each_object.mpr ⟨hK _ hkeys, fun e he => ih e he (hentries e he)⟩

variable {nfc : String → String} {rank rank' : String → List UInt8}

theorem arrange_array (items : List Json) : (Json.array items).arrange nfc rank =
    .array (items.map (arrange nfc rank)) := by
  rw [arrange]
  congr 1
  induction items with
  | nil => rfl
  | cons v items ih => rw [arrangeItems, ih, List.map_cons]

theorem arrange_object (entries : List (String × Json)) : (Json.object entries).arrange nfc rank =
    .object ((Sorting.byKey rank entries).map fun e => (nfc e.1, e.2.arrange nfc rank)) := by
  have hmap : arrangeEntries nfc rank entries =
      entries.map fun e => (e.1, e.2.arrange nfc rank) := by
    induction entries with
    | nil => rfl
    | cons e entries ih => rw [arrangeEntries, ih, List.map_cons]
  have hsort : Sorting.byKey rank (entries.map fun e => (e.1, e.2.arrange nfc rank)) =
      (Sorting.byKey rank entries).map fun e => (e.1, e.2.arrange nfc rank) :=
    Sorting.byKey_map _ fun _ _ _ _ => Iff.rfl
  rw [arrange, hmap, hsort, List.map_map]
  rfl

theorem alike_array {a b : List Json} :
    (Json.array a).Alike nfc (.array b) ↔ List.Forall₂ (Alike nfc) a b := by
  rw [Alike]
  induction a generalizing b with
  | nil => cases b <;> simp [AlikeItems]
  | cons v a ih =>
    cases b with
    | nil => simp [AlikeItems]
    | cons w b => simp [AlikeItems, ih]

theorem alikeEntries_iff {a b : List (String × Json)} : AlikeEntries nfc a b ↔
    List.Forall₂ (fun e e' => nfc e.1 = nfc e'.1 ∧ e.2.Alike nfc e'.2) a b := by
  induction a generalizing b with
  | nil => cases b <;> simp [AlikeEntries]
  | cons e a ih =>
    cases b with
    | nil => simp [AlikeEntries]
    | cons e' b => simp [AlikeEntries, ih]

theorem alike_object {a b : List (String × Json)} : (Json.object a).Alike nfc (.object b) ↔
    ∃ b', b'.Perm b ∧ List.Forall₂ (fun e e' => nfc e.1 = nfc e'.1 ∧ e.2.Alike nfc e'.2) a b' := by
  rw [Alike]
  exact exists_congr fun b' => and_congr_right fun _ => alikeEntries_iff

/-- Keys apart have normal forms of distinct ranks. -/
theorem nodup_rank {entries : List (String × Json)} (h : ((entries.map Prod.fst).map nfc).Nodup) :
    (entries.map fun e => utf8 (nfc e.1)).Nodup := by
  have hmap := h.map utf8_injective
  rwa [List.map_map, List.map_map] at hmap

theorem arrange_object_normal (entries : List (String × Json)) :
    (Json.object entries).arrange nfc (utf8 ∘ nfc) =
      .object (Sorting.byKey utf8
        (entries.map fun e => (nfc e.1, e.2.arrange nfc (utf8 ∘ nfc)))) := by
  have hsort : Sorting.byKey utf8
      (entries.map fun e => (nfc e.1, e.2.arrange nfc (utf8 ∘ nfc))) =
        (Sorting.byKey (utf8 ∘ nfc) entries).map fun e =>
          (nfc e.1, e.2.arrange nfc (utf8 ∘ nfc)) :=
    Sorting.byKey_map _ fun _ _ _ _ => Iff.rfl
  rw [arrange_object, hsort]

theorem arrange_eq_of_alike {a b : Json} (halike : a.Alike nfc b) (ha : a.Apart nfc) :
    a.arrange nfc (utf8 ∘ nfc) = b.arrange nfc (utf8 ∘ nfc) := by
  induction a using induct generalizing b with
  | null =>
    cases b with
    | null => rfl
    | _ => exact halike.elim
  | bool x =>
    cases b with
    | bool y => exact congrArg Json.bool halike
    | _ => exact halike.elim
  | number n =>
    cases b with
    | number m => exact congrArg Json.number halike
    | _ => exact halike.elim
  | string s =>
    cases b with
    | string t => exact congrArg Json.string halike
    | _ => exact halike.elim
  | array items ih =>
    cases b with
    | array items' =>
      have hitems := each_array.mp ha
      rw [arrange_array, arrange_array, Traverse.map_eq_of_forall₂ (alike_array.mp halike)
        fun v hv w hvw => ih v hv hvw (hitems v hv)]
    | _ => exact halike.elim
  | object entries ih =>
    cases b with
    | object entries' =>
      obtain ⟨hkeys, hentries⟩ := each_object.mp ha
      -- entries alike are entries permuted, and sorting by distinct ranks undoes that
      obtain ⟨between, hperm, halike⟩ := alike_object.mp halike
      have hmap := Traverse.map_eq_of_forall₂ (f := fun e => (nfc e.1, e.2.arrange nfc (utf8 ∘ nfc)))
        (g := fun e => (nfc e.1, e.2.arrange nfc (utf8 ∘ nfc))) halike
        fun e he e' hee' => Prod.ext hee'.1 (ih e he hee'.2 (hentries e he))
      have hnodup := nodup_rank hkeys
      rw [arrange_object_normal, arrange_object_normal]
      refine congrArg Json.object (Sorting.byKey_eq_of_perm ?_ ?_)
      · rw [hmap]
        exact hperm.map _
      · rwa [List.map_map]
    | _ => exact halike.elim

theorem alike_of_arrange_eq {a b : Json} (h : a.arrange nfc rank = b.arrange nfc rank') :
    a.Alike nfc b := by
  induction a using induct generalizing b with
  | null =>
    cases b with
    | null => trivial
    | _ => exact nomatch h
  | bool x =>
    cases b with
    | bool y => exact Json.bool.inj h
    | _ => exact nomatch h
  | number n =>
    cases b with
    | number m => exact Json.number.inj h
    | _ => exact nomatch h
  | string s =>
    cases b with
    | string t => exact Json.string.inj h
    | _ => exact nomatch h
  | array items ih =>
    cases b with
    | array items' =>
      rw [arrange_array, arrange_array] at h
      exact alike_array.mpr (Traverse.forall₂_of_map_eq (Json.array.inj h) fun v hv w hvw => ih v hv hvw)
    | _ => exact nomatch h
  | object entries ih =>
    cases b with
    | object entries' =>
      rw [arrange_object, arrange_object] at h
      have hsame := Traverse.forall₂_of_map_eq (R := fun e e' => nfc e.1 = nfc e'.1 ∧ e.2.Alike nfc e'.2)
        (Json.object.inj h) fun e he e' hee' =>
          ⟨congrArg Prod.fst hee', ih e (Sorting.mem_byKey.mp he) (congrArg Prod.snd hee')⟩
      obtain ⟨between, hbetween, hperm⟩ :=
        List.perm_comp_forall₂ (Sorting.byKey_perm rank entries).symm hsame
      exact alike_object.mpr
        ⟨between, hperm.trans (Sorting.byKey_perm rank' entries'), hbetween⟩
    | _ => exact nomatch h

theorem arrange_of_orderKept {v : Json} (ha : v.Apart nfc) (hkept : v.OrderKept nfc) :
    v.arrange nfc utf8 = v.arrange nfc (utf8 ∘ nfc) := by
  induction v using induct with
  | null => rfl
  | bool b => rfl
  | number n => rfl
  | string s => rfl
  | array items ih =>
    rw [arrange_array, arrange_array]
    exact congrArg Json.array (List.map_congr_left fun v hv =>
      ih v hv (each_array.mp ha v hv) (each_array.mp hkept v hv))
  | object entries ih =>
    obtain ⟨hkeys, hapart⟩ := each_object.mp ha
    obtain ⟨horder, hentries⟩ := each_object.mp hkept
    have hsort : Sorting.byKey (utf8 ∘ nfc) (entries.map id) =
        (Sorting.byKey utf8 entries).map id := by
      refine Sorting.byKey_map id fun x hx y hy => ?_
      have hkx : x.1 ∈ entries.map Prod.fst := List.mem_map_of_mem hx
      have hky : y.1 ∈ entries.map Prod.fst := List.mem_map_of_mem hy
      refine Sorting.le_iff_le (horder _ hkx _ hky) (horder _ hky _ hkx) fun h => ?_
      exact congrArg (utf8 ∘ nfc) (utf8_injective h)
    rw [List.map_id, List.map_id] at hsort
    rw [arrange_object, arrange_object, hsort]
    refine congrArg Json.object (List.map_congr_left fun e he => Prod.ext rfl ?_)
    have hmem := Sorting.mem_byKey.mp he
    exact ih e hmem (hapart e hmem) (hentries e hmem)

/-- The keys come out in order exactly where they keep their order. -/
theorem orderKept_of_ordered {v : Json} (h : (v.arrange nfc utf8).Ordered) : v.OrderKept nfc := by
  induction v using induct with
  | null => trivial
  | bool b => trivial
  | number n => trivial
  | string s => trivial
  | array items ih =>
    rw [arrange_array] at h
    exact each_array.mpr fun v hv => ih v hv (each_array.mp h _ (List.mem_map_of_mem hv))
  | object entries ih =>
    rw [arrange_object] at h
    obtain ⟨hkeys, hentries⟩ := each_object.mp h
    refine each_object.mpr ⟨?_, fun e he => ih e he ?_⟩
    · rw [List.map_map, Sorting.Increasing, List.pairwise_map] at hkeys
      have hcompare := Sorting.lt_of_byKey hkeys
      intro j hj k hk hjk
      obtain ⟨x, hx, rfl⟩ := List.mem_map.mp hj
      obtain ⟨y, hy, rfl⟩ := List.mem_map.mp hk
      exact hcompare x hx y hy hjk
    · exact hentries _ (List.mem_map.mpr ⟨e, Sorting.mem_byKey.mpr he, rfl⟩)

theorem tidy_arrange (hidem : ∀ s, nfc (nfc s) = nfc s) {v : Json} (ha : v.Apart nfc) :
    (v.arrange nfc (utf8 ∘ nfc)).Tidy nfc := by
  induction v using induct with
  | null => trivial
  | bool b => trivial
  | number n => exact n.plain_plain
  | string s => exact hidem s
  | array items ih =>
    rw [arrange_array]
    refine each_array.mpr fun w hw => ?_
    obtain ⟨v, hv, rfl⟩ := List.mem_map.mp hw
    exact ih v hv (each_array.mp ha v hv)
  | object entries ih =>
    obtain ⟨hkeys, hentries⟩ := each_object.mp ha
    rw [arrange_object_normal]
    refine each_object.mpr ⟨⟨Sorting.increasing_byKey ?_, fun k hk => ?_⟩, fun e he => ?_⟩
    · rw [List.map_map]
      exact nodup_rank hkeys
    · obtain ⟨e, he, rfl⟩ := List.mem_map.mp hk
      obtain ⟨e', -, rfl⟩ := List.mem_map.mp (Sorting.mem_byKey.mp he)
      exact hidem e'.1
    · obtain ⟨e', he', rfl⟩ := List.mem_map.mp (Sorting.mem_byKey.mp he)
      exact ih e' he' (hentries e' he')

theorem arrange_of_tidy {v : Json} (h : v.Tidy nfc) : v.arrange nfc utf8 = v := by
  induction v using induct with
  | null => rfl
  | bool b => rfl
  | number n => exact congrArg Json.number h
  | string s => exact congrArg Json.string h
  | array items ih =>
    rw [arrange_array]
    refine congrArg Json.array ?_
    rw [List.map_congr_left fun v hv => ih v hv (each_array.mp h v hv), List.map_id']
  | object entries ih =>
    obtain ⟨⟨hkeys, hfixed⟩, hentries⟩ := each_object.mp h
    rw [arrange_object, Sorting.byKey_of_increasing hkeys]
    refine congrArg Json.object ?_
    have hself : ∀ e ∈ entries, (nfc e.1, e.2.arrange nfc utf8) = e := fun e he =>
      Prod.ext (hfixed e.1 (List.mem_map_of_mem he)) (ih e he (hentries e he))
    rw [List.map_congr_left hself, List.map_id']

theorem arrange_of_fixed {v : Json} (h : v.Fixed nfc) : v.arrange nfc rank = v.arrange id rank := by
  induction v using induct with
  | null => rfl
  | bool b => rfl
  | number n => rfl
  | string s => exact congrArg Json.string h
  | array items ih =>
    rw [arrange_array, arrange_array]
    exact congrArg Json.array
      (List.map_congr_left fun v hv => ih v hv (each_array.mp h v hv))
  | object entries ih =>
    obtain ⟨hkeys, hentries⟩ := each_object.mp h
    rw [arrange_object, arrange_object]
    refine congrArg Json.object (List.map_congr_left fun e he => ?_)
    have hmem := Sorting.mem_byKey.mp he
    exact Prod.ext (hkeys e.1 (List.mem_map_of_mem hmem)) (ih e hmem (hentries e hmem))

theorem apart_id {v : Json} (h : v.WellFormed) : v.Apart id := by
  refine Each.imp (fun _ _ => trivial) (fun _ _ => trivial) (fun keys hkeys => ?_) h
  rwa [List.map_id]

theorem wellFormed_arrange {v : Json} (hv : v.WellFormed) (ha : v.Apart nfc) :
    (v.arrange nfc rank).WellFormed := by
  induction v using induct with
  | null => trivial
  | bool b => trivial
  | number n => exact JsonNumber.representable_plain hv
  | string s => trivial
  | array items ih =>
    rw [arrange_array]
    refine each_array.mpr fun w hw => ?_
    obtain ⟨v, hv', rfl⟩ := List.mem_map.mp hw
    exact ih v hv' (each_array.mp hv v hv') (each_array.mp ha v hv')
  | object entries ih =>
    obtain ⟨-, hentries⟩ := each_object.mp hv
    obtain ⟨hkeys, hapart⟩ := each_object.mp ha
    rw [arrange_object]
    refine each_object.mpr ⟨?_, fun e he => ?_⟩
    · rw [List.map_map]
      rw [List.map_map] at hkeys
      exact ((Sorting.byKey_perm rank entries).map (nfc ∘ Prod.fst)).nodup_iff.mpr hkeys
    · obtain ⟨e', he', rfl⟩ := List.mem_map.mp he
      have hmem := Sorting.mem_byKey.mp he'
      exact ih e' hmem (hentries e' hmem) (hapart e' hmem)

end Json

section Written

variable {nfc : String → String} {ryu : F64 → List Char}

theorem writeNumber_eq {n : JsonNumber} (h : n.Representable) :
    writeNumber ryu n = .ok (n.plain.token ryu) := by
  cases n with
  | int i =>
    have hzero : (if i = 0 then ['0'] else decimal i) = decimal i := by
      split
      next hi => subst hi; decide
      next => rfl
    rw [writeNumber, hzero]
    split
    · rfl
    next hi =>
      rw [if_pos (by have := h.1; have := h.2; omega)]
      rfl
  | float f =>
    have hfinite : f.isFinite := h
    rw [writeNumber, if_pos hfinite]
    rfl

theorem writeValue_eq {v : Json} (hv : v.WellFormed) :
    writeValue nfc ryu v = .ok ((v.arrange nfc utf8).emit ryu) := by
  induction v using Json.induct with
  | null => rfl
  | bool b => cases b <;> rfl
  | number n => exact writeNumber_eq hv
  | string s => rfl
  | array items ih =>
    have hitems := Traverse.mapM_map_pure (k := id) fun v hmem => ih v hmem (Json.each_array.mp hv v hmem)
    rw [writeValue, writeItems_eq, writeArray, hitems, Json.arrange_array, Json.emit,
      Json.emitItems_eq, List.map_map]
    rfl
  | object entries ih =>
    obtain ⟨-, hentries⟩ := Json.each_object.mp hv
    have hsort : Sorting.byKey utf8 (entries.map (Prod.map id (writeValue nfc ryu))) =
        (Sorting.byKey utf8 entries).map (Prod.map id (writeValue nfc ryu)) :=
      Sorting.byKey_map _ fun _ _ _ _ => Iff.rfl
    have hmembers : ((Sorting.byKey utf8 entries).map (Prod.map id (writeValue nfc ryu))).mapM
        (fun e : String × Written => do
          let v ← e.2
          return writeString nfc e.1 ++ ':' :: v) =
        .ok ((Sorting.byKey utf8 entries).map fun e =>
          quote (nfc e.1) ++ ':' :: (e.2.arrange nfc utf8).emit ryu) := by
      refine Traverse.mapM_map_pure fun e he => ?_
      have hmem := Sorting.mem_byKey.mp he
      show (do let v ← writeValue nfc ryu e.2; return writeString nfc e.1 ++ ':' :: v) = _
      rw [ih e hmem (hentries e hmem)]
      rfl
    rw [writeValue, writeEntries_eq, writeObject, hsort, hmembers, Json.arrange_object, Json.emit,
      Json.emitEntries_eq, List.map_map]
    rfl

theorem canonicalize_eq {v : Json} (hv : v.WellFormed) : canonicalize nfc ryu v =
    .ok (((v.arrange nfc utf8).emit ryu).flatMap String.utf8EncodeChar) := by
  rw [canonicalize, writeValue_eq hv]
  rfl

variable {readF64 : List Char → Option F64}

theorem fromSlice_canonical (h : Shortest ryu readF64) {v : Json} (hv : v.WellFormed)
    (ha : v.Apart nfc) :
    Reader.fromSlice readF64 (((v.arrange nfc utf8).emit ryu).flatMap String.utf8EncodeChar) =
      some (v.arrange nfc utf8) :=
  fromSlice_emit h (Json.wellFormed_arrange hv ha)

end Written

section Presentation

variable (nfc : String → String) (ryu : F64 → List Char) (readF64 : List Char → Option F64)

def Settled (v : Json) : Prop :=
  ∃ bytes w, canonicalize nfc ryu v = .ok bytes ∧ Reader.fromSlice readF64 bytes = some w ∧
    w.Ordered ∧ canonicalize nfc ryu w = .ok bytes

def PresentationFree (a b : Json) : Prop :=
  canonicalize nfc ryu a = canonicalize nfc ryu b ∧ Settled nfc ryu readF64 a ∧
    Settled nfc ryu readF64 b ∧ predicateHash nfc ryu a = predicateHash nfc ryu b

variable {nfc ryu readF64}

theorem settled_iff (hidem : ∀ s, nfc (nfc s) = nfc s) (h : Shortest ryu readF64) {v : Json}
    (hv : v.WellFormed) (ha : v.Apart nfc) :
    Settled nfc ryu readF64 v ↔ v.OrderKept nfc := by
  constructor
  · rintro ⟨bytes, w, hbytes, hread, hordered, -⟩
    rw [canonicalize_eq hv] at hbytes
    rw [← Except.ok.inj hbytes, fromSlice_canonical h hv ha] at hread
    rw [← Option.some.inj hread] at hordered
    exact Json.orderKept_of_ordered hordered
  · intro hkept
    have htidy : (v.arrange nfc utf8).Tidy nfc := by
      rw [Json.arrange_of_orderKept ha hkept]
      exact Json.tidy_arrange hidem ha
    have hsame : canonicalize nfc ryu (v.arrange nfc utf8) =
        .ok (((v.arrange nfc utf8).emit ryu).flatMap String.utf8EncodeChar) := by
      rw [canonicalize_eq (Json.wellFormed_arrange hv ha), Json.arrange_of_tidy htidy]
    refine ⟨_, _, canonicalize_eq hv, fromSlice_canonical h hv ha, ?_, hsame⟩
    exact htidy.imp (fun _ _ => trivial) (fun _ _ => trivial) fun _ hkeys => hkeys.1

/-- Keys are sorted before they are normalized. The canonical form is one for all presentations
of a value exactly where the two orders agree. -/
theorem presentationFree_iff (hidem : ∀ s, nfc (nfc s) = nfc s) (h : Shortest ryu readF64)
    (a b : Value) (halike : a.1.Alike nfc b.1) (ha : a.1.Apart nfc) (hb : b.1.Apart nfc) :
    PresentationFree nfc ryu readF64 a.1 b.1 ↔ a.1.OrderKept nfc ∧ b.1.OrderKept nfc := by
  constructor
  · rintro ⟨-, hsettled, hsettled', -⟩
    exact ⟨(settled_iff hidem h a.2 ha).mp hsettled, (settled_iff hidem h b.2 hb).mp hsettled'⟩
  · rintro ⟨hkept, hkept'⟩
    have hsame : canonicalize nfc ryu a.1 = canonicalize nfc ryu b.1 := by
      rw [canonicalize_eq a.2, canonicalize_eq b.2, Json.arrange_of_orderKept ha hkept,
        Json.arrange_of_orderKept hb hkept', Json.arrange_eq_of_alike halike ha]
    refine ⟨hsame, (settled_iff hidem h a.2 ha).mpr hkept,
      (settled_iff hidem h b.2 hb).mpr hkept', ?_⟩
    rw [predicateHash, predicateHash, hsame]

theorem canonicalize_fixed (h : Shortest ryu readF64) {v : Json} (hv : v.WellFormed)
    (hfixed : v.Fixed nfc) :
    ∃ bytes, canonicalize nfc ryu v = .ok bytes ∧
      Reader.fromSlice readF64 bytes = some (v.arrange id utf8) := by
  refine ⟨_, canonicalize_eq hv, ?_⟩
  rw [Json.arrange_of_fixed hfixed]
  exact fromSlice_emit h (Json.wellFormed_arrange hv (Json.apart_id hv))

/-- Values whose text is in normal form are told apart by their canonical bytes, up to the order
of entries, and are read back from them with their keys sorted. -/
theorem canonical_bytes_decode (h : Shortest ryu readF64) (a b : Value) (ha : a.1.Fixed nfc)
    (hb : b.1.Fixed nfc) :
    (canonicalize nfc ryu a.1 = canonicalize nfc ryu b.1 → a.1.Alike id b.1) ∧
      ∃ bytes w, canonicalize nfc ryu a.1 = .ok bytes ∧
        Reader.fromSlice readF64 bytes = some w ∧ w.Ordered ∧ a.1.Alike id w := by
  obtain ⟨bytes, hbytes, hread⟩ := canonicalize_fixed h a.2 ha
  obtain ⟨bytes', hbytes', hread'⟩ := canonicalize_fixed h b.2 hb
  refine ⟨fun hsame => ?_, bytes, _, hbytes, hread, ?_, ?_⟩
  · rw [hbytes, hbytes'] at hsame
    rw [← Except.ok.inj hsame, hread] at hread'
    exact Json.alike_of_arrange_eq (Option.some.inj hread')
  · have htidy := Json.tidy_arrange (fun _ => rfl) (Json.apart_id a.2)
    exact htidy.imp (fun _ _ => trivial) (fun _ _ => trivial) fun _ hkeys => hkeys.1
  · have htidy := Json.tidy_arrange (fun _ => rfl) (Json.apart_id a.2)
    exact Json.alike_of_arrange_eq (Json.arrange_of_tidy htidy).symm

end Presentation

section Acute

/-- A stand-in for the shortest decimal form, with its laws: the bit pattern, as an integer with
an empty fraction. Zero is printed as it should be. -/
def printBits (f : F64) : List Char := Nat.toDigits 10 f.bits.toNat ++ ['.', '0']

def readBits (token : List Char) : Option F64 :=
  some ⟨BitVec.ofNat 64 (Nat.ofDigitChars 10 (token.takeWhile Char.isDigit) 0)⟩

theorem shortest_printBits : Shortest printBits readBits := by
  have hunsigned : ∀ f, Numeral.unsigned (printBits f) = printBits f := by
    intro f
    have hne : (printBits f).head? ≠ some '-' := by
      rw [printBits, List.head?_append_of_ne_nil _ Nat.toDigits_ne_nil]
      intro hhead
      exact absurd (Numeral.isDigit_toDigits _ _ (List.mem_of_mem_head? hhead)) (by decide)
    rw [Numeral.unsigned, if_neg hne]
  have htake : ∀ f, (printBits f).takeWhile Char.isDigit = Nat.toDigits 10 f.bits.toNat := by
    intro f
    rw [printBits, List.takeWhile_append_of_pos (Numeral.isDigit_toDigits _)]
    exact List.append_nil _
  have hdrop : ∀ f, (printBits f).dropWhile Char.isDigit = ['.', '0'] := by
    intro f
    rw [printBits, List.dropWhile_append_of_pos (Numeral.isDigit_toDigits _)]
    rfl
  refine ⟨fun f _ => ?_, fun f _ hall => ?_, fun f _ => ?_⟩
  · rw [Numeral.isNumeral, hunsigned, htake, hdrop, Numeral.isInteger_toDigits]
    rfl
  · rw [hunsigned] at hall
    have hdot := List.all_eq_true.mp hall '.' (by simp [printBits])
    exact absurd hdot (by decide)
  · rw [readBits, htake, Nat.ofDigitChars_ten_toDigits, BitVec.ofNat_toNat, BitVec.setWidth_eq]

def pushHex (n : Nat) (c : Char) : Nat :=
  if c = '-' then n else n * 16 + if c.isDigit then c.toNat - 48 else c.toNat - 87

def readHex (text : List Char) : Nat := text.foldl pushHex 0

theorem pushHex_hexDigit (n : Nat) {d : Nat} (hd : d < 16) :
    pushHex n (ProgramId.hexDigit d) = n * 16 + d := by
  have hdigit : ∀ d < 16, ProgramId.hexDigit d ≠ '-' ∧
      (if (ProgramId.hexDigit d).isDigit then (ProgramId.hexDigit d).toNat - 48
        else (ProgramId.hexDigit d).toNat - 87) = d := by decide
  obtain ⟨hne, hvalue⟩ := hdigit d hd
  rw [pushHex, if_neg hne, hvalue]

theorem foldl_hex (id : ProgramId) (first : Nat) {count : Nat} (h : first + count ≤ 32) :
    (id.hex first count).foldl pushHex (id.uuid.toNat / 16 ^ (32 - first)) =
      id.uuid.toNat / 16 ^ (32 - (first + count)) := by
  induction count with
  | zero => rfl
  | succ count ih =>
    have hsnoc : id.hex first (count + 1) = id.hex first count ++
        [ProgramId.hexDigit (id.uuid.toNat / 16 ^ (31 - (first + count)) % 16)] := by
      rw [ProgramId.hex, List.range_succ, List.map_append]
      rfl
    have hpow : 16 ^ (32 - (first + count)) = 16 ^ (31 - (first + count)) * 16 := by
      rw [← Nat.pow_succ]
      congr 1
      omega
    have hlast : 32 - (first + (count + 1)) = 31 - (first + count) := by omega
    rw [hsnoc, List.foldl_append, ih (by omega), List.foldl_cons, List.foldl_nil,
      pushHex_hexDigit _ (Nat.mod_lt _ (by decide)), hpow, ← Nat.div_div_eq_div_mul, hlast,
      Nat.div_add_mod']

theorem readHex_toString (id : ProgramId) : readHex id.toString.toList = id.uuid.toNat := by
  have htext : id.toString.toList = id.hex 0 8 ++ '-' :: id.hex 8 4 ++ '-' :: id.hex 12 4 ++
      '-' :: id.hex 16 4 ++ '-' :: id.hex 20 12 := String.toList_ofList
  have hfirst : (id.hex 0 8).foldl pushHex 0 = id.uuid.toNat / 16 ^ (32 - 8) := by
    have hread := foldl_hex id 0 (show 0 + 8 ≤ 32 by decide)
    have hstart : id.uuid.toNat / 16 ^ (32 - 0) = 0 := Nat.div_eq_of_lt id.uuid.isLt
    rwa [hstart] at hread
  have hhyphen : ∀ n, pushHex n '-' = n := fun n => if_pos rfl
  rw [readHex, htext]
  simp only [List.foldl_append, List.foldl_cons, hhyphen]
  rw [hfirst, foldl_hex id 8 (by decide), foldl_hex id 12 (by decide),
    foldl_hex id 16 (by decide), foldl_hex id 20 (by decide)]
  exact Nat.div_one _

def readId (s : String) : Option ProgramId := some ⟨BitVec.ofNat 128 (readHex s.toList)⟩

theorem readId_toString (id : ProgramId) : readId id.toString = some id := by
  rw [readId, readHex_toString, BitVec.ofNat_toNat, BitVec.setWidth_eq]

def compose : List Char → List Char
  | [] => []
  | 'e' :: '\u0301' :: text => 'é' :: compose text
  | c :: text => c :: compose text

def composeAcute (s : String) : String := String.ofList (compose s.toList)

theorem head_compose {text : List Char} (h : (compose text).head? = some '\u0301') :
    text.head? = some '\u0301' := by
  fun_cases compose text with
  | case1 => exact h
  | case2 text =>
    rw [compose] at h
    exact absurd (Option.some.inj h) (by decide)
  | case3 c text hother => simpa [compose.eq_3 c text hother] using h

theorem compose_compose (text : List Char) : compose (compose text) = compose text := by
  fun_induction compose text with
  | case1 => rfl
  | case2 text ih => rw [compose.eq_3 _ _ (fun _ he => absurd he (by decide)), ih]
  | case3 c text hother ih =>
    have hkeep : ∀ rest, c = 'e' → compose text = '\u0301' :: rest → False := by
      intro rest hc hrest
      have hhead : text.head? = some '\u0301' := head_compose (by rw [hrest]; rfl)
      obtain ⟨rest', hrest'⟩ := List.head?_eq_some_iff.mp hhead
      exact hother rest' hc hrest'
    rw [compose.eq_3 _ _ hkeep, ih]

theorem composeAcute_idem (s : String) : composeAcute (composeAcute s) = composeAcute s := by
  rw [composeAcute, composeAcute, String.toList_ofList, compose_compose]

def accented (key other : String) : Json :=
  .object [(key, .number (.float ⟨0#64⟩)), (other, .null)]

theorem each_accented {N : JsonNumber → Prop} {S : String → Prop} {K : List String → Prop}
    {key other : String} (hN : N (.float ⟨0#64⟩)) (hK : K [key, other]) :
    (accented key other).Each N S K := by
  refine Json.each_object.mpr ⟨hK, fun e he => ?_⟩
  simp only [List.mem_cons, List.not_mem_nil, or_false] at he
  rcases he with rfl | rfl
  · exact hN
  · trivial

theorem alike_accented {key key' : String} (h : composeAcute key = composeAcute key')
    (other : String) : (accented key other).Alike composeAcute (accented key' other) :=
  Json.alike_object.mpr ⟨_, .refl _, .cons ⟨h, rfl⟩ (.cons ⟨rfl, trivial⟩ .nil)⟩

/-- The other key ranks below both spellings of the accented one. -/
theorem presentationFree_iff_accented :
    PresentationFree composeAcute printBits readBits (accented "e\u0301" "a")
      (accented "é" "a") :=
  (presentationFree_iff composeAcute_idem shortest_printBits
    ⟨accented "e\u0301" "a", each_accented JsonNumber.representable_zero (by decide)⟩
    ⟨accented "é" "a", each_accented JsonNumber.representable_zero (by decide)⟩
    (alike_accented (by decide) "a") (each_accented trivial (by decide))
    (each_accented trivial (by decide))).mpr
    ⟨each_accented trivial (by decide), each_accented trivial (by decide)⟩

/-- The other key ranks between the two spellings, and the hash tells them apart. -/
theorem accented_presentations_differ :
    (accented "e\u0301" "f").WellFormed ∧ (accented "é" "f").WellFormed ∧
      (accented "e\u0301" "f").Alike composeAcute (accented "é" "f") ∧
      (accented "e\u0301" "f").Apart composeAcute ∧ (accented "é" "f").Apart composeAcute ∧
      ¬ PresentationFree composeAcute printBits readBits (accented "e\u0301" "f")
        (accented "é" "f") := by
  refine ⟨each_accented JsonNumber.representable_zero (by decide),
    each_accented JsonNumber.representable_zero (by decide),
    alike_accented (by decide) "f", each_accented trivial (by decide),
    each_accented trivial (by decide), fun h => ?_⟩
  have hfirst : canonicalize composeAcute printBits (accented "e\u0301" "f") =
      .ok (utf8 "\x7b\"é\":0.0,\"f\":null\x7d") := by decide
  have hsecond : canonicalize composeAcute printBits (accented "é" "f") =
      .ok (utf8 "\x7b\"f\":null,\"é\":0.0\x7d") := by decide
  rw [PresentationFree, hfirst, hsecond] at h
  exact absurd (Except.ok.inj h.1) (by decide)

def awkward : Json :=
  .array [.string "\"\\\n\x00\x1f\x7fé", .object [("b\\", .null), ("\"", .int 7)]]

theorem canonical_bytes_decode_awkward :
    ∃ bytes w, canonicalize composeAcute printBits awkward = .ok bytes ∧
      Reader.fromSlice readBits bytes = some w ∧ w.Ordered ∧ awkward.Alike id w := by
  have hseven : (-2 ^ 63 : Int) ≤ 7 ∧ (7 : Int) < 2 ^ 64 := by decide
  have hvalue : awkward.WellFormed :=
    ⟨trivial, ⟨by decide, trivial, hseven, trivial⟩, trivial⟩
  have htext : composeAcute "\"\\\n\x00\x1f\x7fé" = "\"\\\n\x00\x1f\x7fé" := by decide
  have hfixed : awkward.Fixed composeAcute :=
    ⟨htext, ⟨by decide, trivial, trivial, trivial⟩, trivial⟩
  exact (canonical_bytes_decode shortest_printBits ⟨awkward, hvalue⟩ ⟨awkward, hvalue⟩ hfixed
    hfixed).2

end Acute

end Vcli

import Vcli.Core.Reader

/-! Plain printing of a JSON tree, and reading it back. -/

namespace Vcli

/-- What is known of the decimal form of a float: it is a numeral with a fraction or an exponent,
and its value is the float. -/
structure Shortest (ryu : F64 → List Char) (readF64 : List Char → Option F64) : Prop where
  numeral : ∀ f : F64, f.isFinite → Numeral.isNumeral (ryu f)
  fractional : ∀ f : F64, f.isFinite → ¬ (Numeral.unsigned (ryu f)).all Char.isDigit
  read : ∀ f : F64, f.isFinite → readF64 (ryu f) = some f

structure Printed (ryu : F64 → List Char) (readF64 : List Char → Option F64) (ρ : F64 → F64) :
    Prop where
  numeral : ∀ f : F64, f.isFinite → Numeral.isNumeral (ryu f)
  fractional : ∀ f : F64, f.isFinite → ¬ (Numeral.unsigned (ryu f)).all Char.isDigit
  read : ∀ f : F64, f.isFinite → readF64 (ryu f) = some (ρ f)

theorem Shortest.printed {ryu : F64 → List Char} {readF64 : List Char → Option F64}
    (h : Shortest ryu readF64) : Printed ryu readF64 id := ⟨h.numeral, h.fractional, h.read⟩

section Renumber

variable (ρ : F64 → F64)

def JsonNumber.reread : JsonNumber → JsonNumber
  | int i => int i
  | float f => float (ρ f)

mutual

def Json.renumber : Json → Json
  | .null => .null
  | .bool b => .bool b
  | .number n => .number (n.reread ρ)
  | .string s => .string s
  | .array items => .array (Json.renumberItems items)
  | .object entries => .object (Json.renumberEntries entries)

def Json.renumberItems : List Json → List Json
  | [] => []
  | v :: items => v.renumber :: Json.renumberItems items

def Json.renumberEntries : List (String × Json) → List (String × Json)
  | [] => []
  | (k, v) :: entries => (k, v.renumber) :: Json.renumberEntries entries

end

theorem Json.renumberItems_eq (items : List Json) :
    Json.renumberItems ρ items = items.map (Json.renumber ρ) := by
  induction items with
  | nil => rfl
  | cons v items ih => rw [Json.renumberItems, ih, List.map_cons]

theorem Json.renumberEntries_eq (entries : List (String × Json)) :
    Json.renumberEntries ρ entries = entries.map fun e => (e.1, e.2.renumber ρ) := by
  induction entries with
  | nil => rfl
  | cons e entries ih => rw [Json.renumberEntries, ih, List.map_cons]

theorem Json.renumber_array (items : List Json) :
    (Json.array items).renumber ρ = .array (items.map (Json.renumber ρ)) := by
  rw [Json.renumber, Json.renumberItems_eq]

theorem Json.renumber_object (entries : List (String × Json)) :
    (Json.object entries).renumber ρ = .object (entries.map fun e => (e.1, e.2.renumber ρ)) := by
  rw [Json.renumber, Json.renumberEntries_eq]

theorem map_eq_self_iff {α : Type} {f : α → α} {l : List α} : l.map f = l ↔ ∀ a ∈ l, f a = a := by
  have hcongr := List.map_inj_left (f := f) (g := id) (l := l)
  rwa [List.map_id] at hcongr

theorem Json.renumber_eq_iff {v : Json} :
    v.renumber ρ = v ↔ v.Each (fun n => n.reread ρ = n) (fun _ => True) fun _ => True := by
  induction v using induct with
  | null => exact iff_of_true rfl trivial
  | bool b => exact iff_of_true rfl trivial
  | number n =>
    rw [Json.renumber, number.injEq]
    rfl
  | string s => exact iff_of_true rfl trivial
  | array items ih =>
    rw [Json.renumber_array, array.injEq, Json.each_array, map_eq_self_iff]
    exact forall₂_congr ih
  | object entries ih =>
    rw [Json.renumber_object, object.injEq, Json.each_object, map_eq_self_iff, true_and]
    refine forall₂_congr fun e he => ?_
    rw [Prod.ext_iff]
    exact (and_iff_right rfl).trans (ih e he)

theorem Json.each_renumber {N : JsonNumber → Prop} {S : String → Prop} {K : List String → Prop}
    {v : Json} (h : v.Each N S K) : (v.renumber ρ).Each (fun _ => True) S K := by
  induction v using induct with
  | null => trivial
  | bool b => trivial
  | number n => trivial
  | string s => exact h
  | array items ih =>
    rw [Json.renumber_array, Json.each_array]
    intro w hw
    obtain ⟨v, hv, rfl⟩ := List.mem_map.mp hw
    exact ih v hv (Json.each_array.mp h v hv)
  | object entries ih =>
    obtain ⟨hkeys, hentries⟩ := Json.each_object.mp h
    rw [Json.renumber_object, Json.each_object, List.map_map]
    refine ⟨hkeys, fun w hw => ?_⟩
    obtain ⟨e, he, rfl⟩ := List.mem_map.mp hw
    exact ih e he (hentries e he)

theorem Json.renumber_id (v : Json) : v.renumber id = v := by
  have hnumber : ∀ n : JsonNumber, n.reread id = n := fun n => by cases n <;> rfl
  rw [Json.renumber_eq_iff]
  induction v using induct with
  | null => trivial
  | bool b => trivial
  | number n => exact hnumber n
  | string s => trivial
  | array items ih => exact Json.each_array.mpr ih
  | object entries ih => exact Json.each_object.mpr ⟨trivial, ih⟩

end Renumber

section Emit

variable (ryu : F64 → List Char)

def JsonNumber.token : JsonNumber → List Char
  | int i => decimal i
  | float f => ryu f

def quote (s : String) : List Char := '"' :: s.toList.flatMap escape ++ ['"']

mutual

def Json.emit : Json → List Char
  | .null => "null".toList
  | .bool true => "true".toList
  | .bool false => "false".toList
  | .number n => n.token ryu
  | .string s => quote s
  | .array items => '[' :: separated (Json.emitItems items) ++ [']']
  | .object entries => '\x7b' :: separated (Json.emitEntries entries) ++ ['\x7d']

def Json.emitItems : List Json → List (List Char)
  | [] => []
  | v :: items => v.emit :: Json.emitItems items

def Json.emitEntries : List (String × Json) → List (List Char)
  | [] => []
  | (k, v) :: entries => (quote k ++ ':' :: v.emit) :: Json.emitEntries entries

end

theorem Json.emitItems_eq (items : List Json) :
    Json.emitItems ryu items = items.map (Json.emit ryu) := by
  induction items with
  | nil => rfl
  | cons v items ih => rw [Json.emitItems, ih, List.map_cons]

theorem Json.emitEntries_eq (entries : List (String × Json)) :
    Json.emitEntries ryu entries = entries.map fun e => quote e.1 ++ ':' :: e.2.emit ryu := by
  induction entries with
  | nil => rfl
  | cons e entries ih => rw [Json.emitEntries, ih, List.map_cons]

end Emit

section Merge

mutual

def Json.merged : Json → Json
  | .null => .null
  | .bool b => .bool b
  | .number n => .number n
  | .string s => .string s
  | .array items => .array (Json.mergedItems items)
  | .object entries => .object (Json.mergedEntries [] entries)

def Json.mergedItems : List Json → List Json
  | [] => []
  | v :: items => v.merged :: Json.mergedItems items

def Json.mergedEntries : List (String × Json) → List (String × Json) → List (String × Json)
  | before, [] => before
  | before, (k, v) :: entries => Json.mergedEntries (Reader.insert before k v.merged) entries

end

theorem Json.mergedItems_eq (items : List Json) : Json.mergedItems items = items.map Json.merged := by
  induction items with
  | nil => rfl
  | cons v items ih => rw [Json.mergedItems, ih, List.map_cons]

theorem insert_append {entries : List (String × Json)} {k : String} (v : Json)
    (hk : k ∉ entries.map Prod.fst) : Reader.insert entries k v = entries ++ [(k, v)] := by
  have hany : ¬ entries.any (·.1 = k) := by
    intro hany
    obtain ⟨e, he, hek⟩ := List.any_eq_true.mp hany
    exact hk (List.mem_map.mpr ⟨e, he, of_decide_eq_true hek⟩)
  rw [Reader.insert, if_neg hany]

theorem keys_insert {entries : List (String × Json)} {k : String} (v : Json)
    (hk : k ∈ entries.map Prod.fst) :
    (Reader.insert entries k v).map Prod.fst = entries.map Prod.fst := by
  have hany : entries.any (·.1 = k) := by
    obtain ⟨e, he, hek⟩ := List.mem_map.mp hk
    exact List.any_eq_true.mpr ⟨e, he, decide_eq_true hek⟩
  rw [Reader.insert, if_pos hany, List.map_map]
  refine List.map_congr_left fun e _ => ?_
  show (if e.1 = k then (k, v) else e).1 = e.1
  split
  next h => exact h.symm
  next => rfl

theorem mem_insert {entries : List (String × Json)} {k : String} {v : Json} {e : String × Json}
    (he : e ∈ Reader.insert entries k v) : e = (k, v) ∨ e ∈ entries := by
  rw [Reader.insert] at he
  split at he
  · obtain ⟨e', he', hee'⟩ := List.mem_map.mp he
    split at hee'
    · exact Or.inl hee'.symm
    · exact Or.inr (hee' ▸ he')
  · rcases List.mem_append.mp he with he | he
    · exact Or.inr he
    · exact Or.inl (List.mem_singleton.mp he)

theorem nodup_insert {entries : List (String × Json)} (h : (entries.map Prod.fst).Nodup)
    (k : String) (v : Json) : ((Reader.insert entries k v).map Prod.fst).Nodup := by
  by_cases hk : k ∈ entries.map Prod.fst
  · rwa [keys_insert v hk]
  · rw [insert_append v hk, List.map_append]
    refine List.nodup_append.mpr ⟨h, List.nodup_singleton k, fun x hx y hy hxy => ?_⟩
    have hy' : y = k := List.mem_singleton.mp hy
    rw [hxy, hy'] at hx
    exact hk hx

theorem mergedEntries_induct {P : String × Json → Prop} (before : List (String × Json))
    {entries : List (String × Json)} (hkeys : (before.map Prod.fst).Nodup) (hbefore : ∀ e ∈ before, P e)
    (hentries : ∀ e ∈ entries, P (e.1, e.2.merged)) :
    ((Json.mergedEntries before entries).map Prod.fst).Nodup ∧
      ∀ e ∈ Json.mergedEntries before entries, P e := by
  induction entries generalizing before with
  | nil => exact ⟨hkeys, hbefore⟩
  | cons e entries ih =>
    obtain ⟨hfirst, hrest⟩ := List.forall_mem_cons.mp hentries
    refine ih _ (nodup_insert hkeys e.1 e.2.merged) (fun e' he' => ?_) hrest
    rcases mem_insert he' with rfl | he'
    · exact hfirst
    · exact hbefore e' he'

theorem Json.each_merged {N : JsonNumber → Prop} {S K : String → Prop} {v : Json}
    (h : v.Each N S fun keys => ∀ k ∈ keys, K k) :
    v.merged.Each N S fun keys => keys.Nodup ∧ ∀ k ∈ keys, K k := by
  induction v using induct with
  | null => trivial
  | bool b => trivial
  | number n => exact h
  | string s => exact h
  | array items ih =>
    rw [Json.merged, Json.mergedItems_eq]
    refine Json.each_array.mpr fun w hw => ?_
    obtain ⟨v, hv, rfl⟩ := List.mem_map.mp hw
    exact ih v hv (Json.each_array.mp h v hv)
  | object entries ih =>
    obtain ⟨hkeys, hentries⟩ := Json.each_object.mp h
    rw [Json.merged]
    obtain ⟨hnodup, hall⟩ := mergedEntries_induct []
      (P := fun e => K e.1 ∧ e.2.Each N S fun keys => keys.Nodup ∧ ∀ k ∈ keys, K k) List.nodup_nil
      nofun fun e he => ⟨hkeys e.1 (List.mem_map_of_mem he), ih e he (hentries e he)⟩
    refine Json.each_object.mpr ⟨⟨hnodup, fun k hk => ?_⟩, fun e he => (hall e he).2⟩
    obtain ⟨e, he, rfl⟩ := List.mem_map.mp hk
    exact (hall e he).1

theorem mergedEntries_of_nodup (before : List (String × Json)) {entries : List (String × Json)}
    (hkeys : ((before ++ entries).map Prod.fst).Nodup) (h : ∀ e ∈ entries, e.2.merged = e.2) :
    Json.mergedEntries before entries = before ++ entries := by
  induction entries generalizing before with
  | nil => rw [Json.mergedEntries, List.append_nil]
  | cons e entries ih =>
    have hk : e.1 ∉ before.map Prod.fst := by
      rw [List.map_append] at hkeys
      intro hmem
      exact (List.nodup_append.mp hkeys).2.2 e.1 hmem e.1 (List.mem_cons_self ..) rfl
    obtain ⟨hfirst, hrest⟩ := List.forall_mem_cons.mp h
    have hassoc : before ++ e :: entries = before ++ [e] ++ entries := by simp
    rw [Json.mergedEntries, hfirst, insert_append e.2 hk, hassoc]
    rw [hassoc] at hkeys
    exact ih _ hkeys hrest

/-- A tree without repeated keys has nothing to merge. -/
theorem Json.merged_of_nodup {N : JsonNumber → Prop} {S : String → Prop} {v : Json}
    (h : v.Each N S List.Nodup) : v.merged = v := by
  induction v using induct with
  | null => rfl
  | bool b => rfl
  | number n => rfl
  | string s => rfl
  | array items ih =>
    rw [Json.merged, Json.mergedItems_eq]
    have hmap := List.map_congr_left fun v hv => ih v hv (Json.each_array.mp h v hv)
    rw [hmap, List.map_id']
  | object entries ih =>
    obtain ⟨hkeys, hentries⟩ := Json.each_object.mp h
    rw [Json.merged, mergedEntries_of_nodup [] hkeys fun e he => ih e he (hentries e he)]
    rfl

theorem Json.merged_of_wellFormed {v : Json} (h : v.WellFormed) : v.merged = v :=
  Json.merged_of_nodup h

end Merge

theorem spells_escape : Quoted.Spells escape := by
  intro c text
  unfold escape
  split_ifs with h₁ h₂ h₃ h₄ h₅ h₆ h₇ h₈
  · subst h₁
    exact Quoted.unquote_letter (by decide) text
  · subst h₂
    exact Quoted.unquote_letter (by decide) text
  · subst h₃
    exact Quoted.unquote_letter (by decide) text
  · subst h₄
    exact Quoted.unquote_letter (by decide) text
  · subst h₅
    exact Quoted.unquote_letter (by decide) text
  · subst h₆
    exact Quoted.unquote_letter (by decide) text
  · subst h₇
    exact Quoted.unquote_letter (by decide) text
  · have hunit := Quoted.unquote_unit h₈ text
    rw [Char.ofNat_toNat] at hunit
    exact hunit
  · exact Quoted.unquote_plain h₁ h₂ h₈ text

theorem unquote_quoted (s : String) (text : List Char) :
    Quoted.unquote (s.toList.flatMap escape ++ '"' :: text) = some (s.toList, text) :=
  spells_escape.unquote s.toList text

def Stops (text : List Char) : Prop := ∀ c ∈ text.head?, ¬ Numeral.isChar c

theorem stops_nil : Stops [] := nofun

theorem stops_cons {c : Char} (h : ¬ Numeral.isChar c) (text : List Char) : Stops (c :: text) := by
  intro d hd
  rwa [← Option.some.inj hd]

section Read

variable {ryu : F64 → List Char} {readF64 : List Char → Option F64} {ρ : F64 → F64}
  (h : Printed ryu readF64 ρ)

include h

theorem numeral_token {n : JsonNumber} (hn : n.Representable) :
    Numeral.isNumeral (n.token ryu) := by
  cases n with
  | int i => exact Numeral.isNumeral_decimal i
  | float f => exact h.numeral f hn

theorem read_token {n : JsonNumber} (hn : n.Representable) :
    Numeral.read readF64 (n.token ryu) = some (n.reread ρ) := by
  cases n with
  | int i => exact Numeral.read_decimal readF64 hn
  | float f =>
    rw [JsonNumber.token, Numeral.read, h.numeral f hn]
    simp only [Bool.not_true, Bool.false_eq_true, if_false]
    rw [if_neg fun hint => h.fractional f hn hint.1, h.read f hn]
    rfl

theorem token_head {n : JsonNumber} (hn : n.Representable) :
    ∃ c rest, n.token ryu = c :: rest ∧ (c = '-' ∨ c.isDigit) :=
  (Numeral.isNumeral_chars (numeral_token h hn)).2

theorem scalar_token {n : JsonNumber} (hn : n.Representable) {text : List Char}
    (hstop : Stops text) :
    Reader.scalar readF64 (n.token ryu ++ text) = some (.number (n.reread ρ), text) := by
  obtain ⟨c, rest, htoken, hc⟩ := token_head h hn
  have hchars := (Numeral.isNumeral_chars (numeral_token h hn)).1
  have htake : (n.token ryu ++ text).takeWhile Numeral.isChar = n.token ryu := by
    rw [List.takeWhile_append_of_pos hchars]
    cases text with
    | nil => exact List.append_nil _
    | cons d text => rw [List.takeWhile_cons_of_neg (hstop d rfl), List.append_nil]
  have hdrop : (n.token ryu ++ text).dropWhile Numeral.isChar = text := by
    rw [List.dropWhile_append_of_pos hchars]
    cases text with
    | nil => rfl
    | cons d text => exact List.dropWhile_cons_of_neg (hstop d rfl)
  have hword : ∀ d word, d = 'n' ∨ d = 't' ∨ d = 'f' →
      (n.token ryu ++ text).dropPrefix? (d :: word) = none := by
    intro d word hd
    have hne : c ≠ d := by
      rintro rfl
      rcases hd with rfl | rfl | rfl <;> exact absurd hc (by decide)
    rw [htoken, List.cons_append, List.dropPrefix?]
    simp [hne]
  have hnull := hword 'n' ['u', 'l', 'l'] (Or.inl rfl)
  have htrue := hword 't' ['r', 'u', 'e'] (Or.inr (Or.inl rfl))
  have hfalse := hword 'f' ['a', 'l', 's', 'e'] (Or.inr (Or.inr rfl))
  simp [Reader.scalar, hnull, htrue, hfalse, htake, hdrop, read_token h hn]

def ReadsBack (ryu : F64 → List Char) (readF64 : List Char → Option F64) (ρ : F64 → F64)
    (v : Json) : Prop :=
  ∀ fuel text, 2 * (v.emit ryu).length + 1 ≤ fuel → Stops text →
    Reader.value readF64 fuel (v.emit ryu ++ text) = some ((v.renumber ρ).merged, text)

def Json.Printable (v : Json) : Prop :=
  v.Each JsonNumber.Representable (fun _ => True) fun _ => True

def Opens (text : List Char) : Prop :=
  ∃ c rest, text = c :: rest ∧ c ∉ [' ', '\t', '\n', '\r', ']', '\x7d']

theorem opens_emit {v : Json} (hv : v.Printable) : Opens (v.emit ryu) := by
  cases v with
  | null => exact ⟨'n', _, rfl, by decide⟩
  | bool b => cases b <;> exact ⟨_, _, rfl, by decide⟩
  | number n =>
    obtain ⟨c, rest, htoken, hc⟩ := token_head h (n := n) hv
    refine ⟨c, rest, htoken, ?_⟩
    rcases hc with rfl | hc
    · decide
    · intro hmem
      have hdigit : ∀ d ∈ [' ', '\t', '\n', '\r', ']', '\x7d'], ¬ d.isDigit := by simp
      exact hdigit c hmem hc
  | string s => exact ⟨'"', _, rfl, by decide⟩
  | array items => exact ⟨'[', _, rfl, by decide⟩
  | object entries => exact ⟨'\x7b', _, rfl, by decide⟩

omit h in
theorem skipSpace_cons {c : Char} (hc : c ∉ [' ', '\t', '\n', '\r']) (text : List Char) :
    Reader.skipSpace (c :: text) = c :: text := by
  simp only [List.mem_cons, not_or] at hc
  simp [Reader.skipSpace, hc]

omit h in
theorem items_emit {items : List Json} (hne : items ≠ [])
    (hread : ∀ v ∈ items, ReadsBack ryu readF64 ρ v) {fuel : Nat} (text : List Char)
    (hfuel : 2 * (separated (items.map (Json.emit ryu))).length + 2 ≤ fuel) :
    Reader.items readF64 fuel (separated (items.map (Json.emit ryu)) ++ ']' :: text) =
      some (items.map fun v => (v.renumber ρ).merged, text) := by
  induction items generalizing fuel with
  | nil => exact absurd rfl hne
  | cons v items ih =>
    obtain ⟨fuel, rfl⟩ : ∃ f, fuel = f + 1 := ⟨fuel - 1, by omega⟩
    have hv := hread v (List.mem_cons_self ..)
    cases items with
    | nil =>
      have hval := hv fuel (']' :: text) (by simp [separated] at hfuel; omega)
        (stops_cons (by decide) text)
      rw [Reader.items]
      simp only [List.map_cons, List.map_nil, separated]
      rw [hval]
      rfl
    | cons w items =>
      have hsplit : separated ((v :: w :: items).map (Json.emit ryu)) =
          v.emit ryu ++ ',' :: separated ((w :: items).map (Json.emit ryu)) := rfl
      rw [hsplit, List.length_append, List.length_cons] at hfuel
      rw [hsplit, List.append_assoc, List.cons_append, Reader.items,
        hv fuel _ (by omega) (stops_cons (by decide) _)]
      have hlen : 2 * (separated ((w :: items).map (Json.emit ryu))).length + 2 ≤ fuel := by omega
      have hrest := ih (List.cons_ne_nil w items)
        (fun u hu => hread u (List.mem_cons_of_mem v hu)) hlen
      show (Reader.items readF64 fuel _).map _ = _
      rw [hrest]
      rfl

omit h in
theorem members_member {e : String × Json} (before : List (String × Json))
    (hread : ReadsBack ryu readF64 ρ e.2) {fuel : Nat}
    (hfuel : 2 * (e.2.emit ryu).length + 1 ≤ fuel) {d : Char} (hd : ¬ Numeral.isChar d)
    (hspace : d ∉ [' ', '\t', '\n', '\r']) (text : List Char) :
    Reader.members readF64 (fuel + 1) before (quote e.1 ++ ':' :: e.2.emit ryu ++ d :: text) =
      if d = ',' then
        Reader.members readF64 fuel (Reader.insert before e.1 (e.2.renumber ρ).merged) text
      else if d = '\x7d' then some (Reader.insert before e.1 (e.2.renumber ρ).merged, text)
      else none := by
  have hquote : quote e.1 ++ ':' :: e.2.emit ryu ++ d :: text =
      '"' :: (e.1.toList.flatMap escape ++ '"' :: ':' :: (e.2.emit ryu ++ d :: text)) := by
    simp [quote]
  have hval := hread fuel (d :: text) hfuel (stops_cons hd text)
  rw [hquote, Reader.members]
  simp only [skipSpace_cons (show '"' ∉ [' ', '\t', '\n', '\r'] by decide),
    skipSpace_cons (show ':' ∉ [' ', '\t', '\n', '\r'] by decide), unquote_quoted, ne_eq,
    not_true_eq_false, if_false, List.head?_cons, List.tail_cons, hval, skipSpace_cons hspace,
    String.ofList_toList]

omit h in
theorem members_emit {entries : List (String × Json)} (hne : entries ≠ [])
    (hread : ∀ e ∈ entries, ReadsBack ryu readF64 ρ e.2) {fuel : Nat}
    (before : List (String × Json)) (text : List Char)
    (hfuel : 2 * (separated (Json.emitEntries ryu entries)).length + 2 ≤ fuel) :
    Reader.members readF64 fuel before
        (separated (Json.emitEntries ryu entries) ++ '\x7d' :: text) =
      some (Json.mergedEntries before (entries.map fun e => (e.1, e.2.renumber ρ)), text) := by
  induction entries generalizing fuel before with
  | nil => exact absurd rfl hne
  | cons e entries ih =>
    obtain ⟨fuel, rfl⟩ : ∃ f, fuel = f + 1 := ⟨fuel - 1, by omega⟩
    have hv := hread e (List.mem_cons_self ..)
    cases entries with
    | nil =>
      have hlen : 2 * (e.2.emit ryu).length + 1 ≤ fuel := by
        simp [Json.emitEntries, separated] at hfuel
        omega
      exact members_member before hv hlen (by decide) (by decide) text
    | cons e' entries =>
      have hsplit : separated (Json.emitEntries ryu (e :: e' :: entries)) =
          (quote e.1 ++ ':' :: e.2.emit ryu) ++
            ',' :: separated (Json.emitEntries ryu (e' :: entries)) := rfl
      rw [hsplit] at hfuel
      simp only [List.length_append, List.length_cons] at hfuel
      rw [hsplit, List.append_assoc, List.cons_append,
        members_member before hv (by omega) (by decide) (by decide), if_pos rfl]
      have hlen : 2 * (separated (Json.emitEntries ryu (e' :: entries))).length + 2 ≤ fuel := by
        omega
      exact ih (List.cons_ne_nil e' entries) (fun u hu => hread u (List.mem_cons_of_mem e hu))
        (Reader.insert before e.1 (e.2.renumber ρ).merged) hlen

omit h in
theorem value_scalar {c : Char} (hc : c ∉ [' ', '\t', '\n', '\r', '"', '[', '\x7b']) (fuel : Nat)
    (text : List Char) :
    Reader.value readF64 (fuel + 1) (c :: text) = Reader.scalar readF64 (c :: text) := by
  simp only [List.mem_cons, List.not_mem_nil, or_false, not_or] at hc
  rw [Reader.value, skipSpace_cons (by simp [hc])]
  simp [hc]

omit h in
theorem value_array {fuel : Nat} {body text : List Char} (hopen : Opens body) :
    Reader.value readF64 (fuel + 1) ('[' :: (body ++ text)) =
      (Reader.items readF64 fuel (body ++ text)).map fun r => (.array r.1, r.2) := by
  obtain ⟨c, rest, rfl, hc⟩ := hopen
  simp only [List.mem_cons, List.not_mem_nil, or_false, not_or] at hc
  rw [Reader.value, skipSpace_cons (by decide)]
  simp [skipSpace_cons (c := c) (by simp [hc]), hc]

omit h in
theorem value_object {fuel : Nat} {body text : List Char} (hopen : Opens body) :
    Reader.value readF64 (fuel + 1) ('\x7b' :: (body ++ text)) =
      (Reader.members readF64 fuel [] (body ++ text)).map fun r => (.object r.1, r.2) := by
  obtain ⟨c, rest, rfl, hc⟩ := hopen
  simp only [List.mem_cons, List.not_mem_nil, or_false, not_or] at hc
  rw [Reader.value, skipSpace_cons (by decide)]
  simp [skipSpace_cons (c := c) (by simp [hc]), hc]

omit h in
theorem opens_separated {part : List Char} (hopen : Opens part) (parts : List (List Char)) :
    Opens (separated (part :: parts)) := by
  obtain ⟨c, rest, rfl, hc⟩ := hopen
  cases parts with
  | nil => exact ⟨c, rest, rfl, hc⟩
  | cons next parts => exact ⟨c, rest ++ ',' :: separated (next :: parts), rfl, hc⟩

/-- The reader takes exactly the text of the tree and gives the tree back, one entry a key. -/
theorem readsBack {v : Json} (hv : v.Printable) : ReadsBack ryu readF64 ρ v := by
  induction v using Json.induct with
  | null =>
    intro fuel text hfuel _
    obtain ⟨fuel, rfl⟩ : ∃ f, fuel = f + 1 := ⟨fuel - 1, by omega⟩
    have hword : Json.null.emit ryu ++ text = 'n' :: (['u', 'l', 'l'] ++ text) := rfl
    rw [hword, value_scalar (by decide)]
    simp [Reader.scalar, List.dropPrefix?, Json.renumber, Json.merged]
  | bool b =>
    intro fuel text hfuel _
    obtain ⟨fuel, rfl⟩ : ∃ f, fuel = f + 1 := ⟨fuel - 1, by omega⟩
    cases b with
    | true =>
      have hword : (Json.bool true).emit ryu ++ text = 't' :: (['r', 'u', 'e'] ++ text) := rfl
      rw [hword, value_scalar (by decide)]
      simp [Reader.scalar, List.dropPrefix?, Json.renumber, Json.merged]
    | false =>
      have hword : (Json.bool false).emit ryu ++ text = 'f' :: (['a', 'l', 's', 'e'] ++ text) := rfl
      rw [hword, value_scalar (by decide)]
      simp [Reader.scalar, List.dropPrefix?, Json.renumber, Json.merged]
  | number n =>
    intro fuel text hfuel hstop
    obtain ⟨fuel, rfl⟩ : ∃ f, fuel = f + 1 := ⟨fuel - 1, by omega⟩
    -- a number begins with a digit or a sign, so that it is taken for nothing else
    obtain ⟨c, rest, htoken, hc⟩ := token_head h (n := n) hv
    have hother : c ∉ [' ', '\t', '\n', '\r', '"', '[', '\x7b'] := by
      have hdigit : ∀ d ∈ [' ', '\t', '\n', '\r', '"', '[', '\x7b'], d ≠ '-' ∧ ¬ d.isDigit := by
        simp
      exact fun hmem => hc.elim (hdigit c hmem).1 (hdigit c hmem).2
    have hscalar := scalar_token h (n := n) hv hstop
    rw [htoken, List.cons_append] at hscalar
    rw [Json.emit, htoken, List.cons_append, value_scalar hother, hscalar, Json.renumber,
      Json.merged]
  | string s =>
    intro fuel text hfuel _
    obtain ⟨fuel, rfl⟩ : ∃ f, fuel = f + 1 := ⟨fuel - 1, by omega⟩
    have htext : (Json.string s).emit ryu ++ text =
        '"' :: (s.toList.flatMap escape ++ '"' :: text) := by simp [Json.emit, quote]
    rw [htext, Reader.value, skipSpace_cons (by decide)]
    simp [unquote_quoted, Json.renumber, Json.merged]
  | array items ih =>
    intro fuel text hfuel _
    have hitems := Json.each_array.mp hv
    obtain ⟨fuel, rfl⟩ : ∃ f, fuel = f + 1 := ⟨fuel - 1, by omega⟩
    rw [Json.emit, Json.emitItems_eq] at hfuel ⊢
    cases items with
    | nil => rfl
    | cons v items =>
      simp only [List.length_cons, List.length_append] at hfuel
      -- the brackets pay for the fuel of the items
      have hread := items_emit (List.cons_ne_nil v items) (fun u hu => ih u hu (hitems u hu)) text
        (show 2 * (separated ((v :: items).map (Json.emit ryu))).length + 2 ≤ fuel by omega)
      have hopen := opens_separated (opens_emit h (hitems v (List.mem_cons_self ..)))
        (items.map (Json.emit ryu))
      rw [List.cons_append, List.cons_append, List.append_assoc, List.map_cons, value_array hopen,
        Json.renumber_array, Json.merged, Json.mergedItems_eq, List.map_map]
      exact congrArg (Option.map _) hread
  | object entries ih =>
    intro fuel text hfuel _
    obtain ⟨-, hentries⟩ := Json.each_object.mp hv
    obtain ⟨fuel, rfl⟩ : ∃ f, fuel = f + 1 := ⟨fuel - 1, by omega⟩
    rw [Json.emit] at hfuel ⊢
    cases entries with
    | nil => rfl
    | cons e entries =>
      simp only [List.length_cons, List.length_append] at hfuel
      have hread := members_emit (List.cons_ne_nil e entries)
        (fun u hu => ih u hu (hentries u hu)) [] text
        (show 2 * (separated (Json.emitEntries ryu (e :: entries))).length + 2 ≤ fuel by omega)
      have hmember : Opens (quote e.1 ++ ':' :: e.2.emit ryu) := ⟨'"', _, rfl, by decide⟩
      have hopen := opens_separated hmember (Json.emitEntries ryu entries)
      rw [List.cons_append, List.cons_append, List.append_assoc]
      show Reader.value readF64 (fuel + 1) ('\x7b' ::
        (separated ((quote e.1 ++ ':' :: e.2.emit ryu) :: Json.emitEntries ryu entries) ++ _)) = _
      rw [value_object hopen, Json.renumber_object]
      exact congrArg (Option.map _) hread

theorem fromStr_renumber {v : Json} (hv : v.Printable) :
    Reader.fromStr readF64 (v.emit ryu) = some (v.renumber ρ).merged := by
  have hread := readsBack h hv (2 * (v.emit ryu).length + 2) [] (by omega) stops_nil
  rw [List.append_nil] at hread
  rw [Reader.fromStr, hread]
  rfl

theorem fromSlice_renumber {v : Json} (hv : v.Printable) :
    Reader.fromSlice readF64 ((v.emit ryu).flatMap String.utf8EncodeChar) =
      some (v.renumber ρ).merged := by
  have hbytes : ((v.emit ryu).flatMap String.utf8EncodeChar).toByteArray =
      (String.ofList (v.emit ryu)).toByteArray := by
    rw [String.toByteArray_ofList, List.utf8Encode]
  have hvalid := (String.ofList (v.emit ryu)).isValidUTF8
  rw [Reader.fromSlice, hbytes, String.fromUTF8?, dif_pos hvalid]
  show Reader.fromStr readF64 (String.ofList (v.emit ryu)).toList = some (v.renumber ρ).merged
  rw [String.toList_ofList]
  exact fromStr_renumber h hv

omit h in
theorem Json.WellFormed.printable {v : Json} (hv : v.WellFormed) : v.Printable := by
  induction v using Json.induct with
  | null => trivial
  | bool b => trivial
  | number n => exact hv
  | string s => trivial
  | array items ih =>
    exact Json.each_array.mpr fun v hmem => ih v hmem (Json.each_array.mp hv v hmem)
  | object entries ih =>
    obtain ⟨-, hentries⟩ := Json.each_object.mp hv
    exact Json.each_object.mpr ⟨trivial, fun e he => ih e he (hentries e he)⟩

end Read

section Text

mutual

def Json.depth : Json → Nat
  | .null => 0
  | .bool _ => 0
  | .number _ => 0
  | .string _ => 0
  | .array items => Json.depthItems items + 1
  | .object entries => Json.depthEntries entries + 1

def Json.depthItems : List Json → Nat
  | [] => 0
  | v :: items => max v.depth (Json.depthItems items)

def Json.depthEntries : List (String × Json) → Nat
  | [] => 0
  | (_, v) :: entries => max v.depth (Json.depthEntries entries)

end

theorem Json.depth_renumber (ρ : F64 → F64) (v : Json) : (v.renumber ρ).depth = v.depth := by
  induction v using induct with
  | null => rfl
  | bool b => rfl
  | number n => rfl
  | string s => rfl
  | array items ih =>
    have hitems : Json.depthItems (Json.renumberItems ρ items) = Json.depthItems items := by
      induction items with
      | nil => rfl
      | cons v items ihItems =>
        rw [Json.renumberItems, Json.depthItems, Json.depthItems, ih v List.mem_cons_self,
          ihItems fun w hw => ih w (List.mem_cons_of_mem v hw)]
    rw [Json.renumber, Json.depth, Json.depth, hitems]
  | object entries ih =>
    have hentries : Json.depthEntries (Json.renumberEntries ρ entries) =
        Json.depthEntries entries := by
      induction entries with
      | nil => rfl
      | cons e entries ihEntries =>
        rw [Json.renumberEntries, Json.depthEntries, Json.depthEntries, ih e List.mem_cons_self,
          ihEntries fun w hw => ih w (List.mem_cons_of_mem e hw)]
    rw [Json.renumber, Json.depth, Json.depth, hentries]

theorem Json.depthEntries_le {entries : List (String × Json)} {n : Nat} :
    Json.depthEntries entries ≤ n ↔ ∀ e ∈ entries, e.2.depth ≤ n := by
  induction entries with
  | nil => exact iff_of_true n.zero_le nofun
  | cons e entries ih => rw [Json.depthEntries, Nat.max_le, ih, List.forall_mem_cons]

theorem Json.depth_object_le {entries : List (String × Json)} {n : Nat} :
    (Json.object entries).depth ≤ n + 1 ↔ ∀ e ∈ entries, e.2.depth ≤ n := by
  rw [Json.depth, Nat.add_le_add_iff_right, Json.depthEntries_le]

/-- `serde_json` gives up at 128 containers inside one another. -/
def Json.decode {α : Type} (readF64 : List Char → Option F64) (dec : Json → Option α)
    (bytes : List UInt8) : Option α :=
  (Reader.fromSlice readF64 bytes).bind fun v => if v.depth ≤ 127 then dec v else none

def Json.encode (ryu : F64 → List Char) (v : Json) : List UInt8 :=
  (v.emit ryu).flatMap String.utf8EncodeChar

theorem decode_encode {α : Type} {ryu : F64 → List Char} {readF64 : List Char → Option F64}
    {ρ : F64 → F64} (h : Printed ryu readF64 ρ) (dec : Json → Option α) {v : Json}
    (hv : v.WellFormed) :
    Json.decode readF64 dec (v.encode ryu) =
      if v.depth ≤ 127 then dec (v.renumber ρ) else none := by
  have hmerged : (v.renumber ρ).merged = v.renumber ρ :=
    Json.merged_of_nodup (Json.each_renumber ρ hv)
  rw [Json.decode, Json.encode, fromSlice_renumber h hv.printable, hmerged, Option.bind_some,
    Json.depth_renumber]

/-- A payload that is read back: its floats are, and it is not too deep with `around` containers
around it. -/
structure Json.ReadBack (ρ : F64 → F64) (around : Nat) (v : Json) : Prop where
  depth : v.depth + around ≤ 127
  floats : v.Each (fun n => n.reread ρ = n) (fun _ => True) fun _ => True

theorem Json.readBack_iff {ρ : F64 → F64} {around : Nat} {v : Json} :
    v.ReadBack ρ around ↔ v.depth + around ≤ 127 ∧ v.renumber ρ = v := by
  rw [Json.renumber_eq_iff]
  constructor
  · intro h
    exact ⟨h.depth, h.floats⟩
  · intro h
    exact ⟨h.1, h.2⟩

section ReadBack
variable {ρ : F64 → F64} {around : Nat}

@[simp] theorem Json.readBack_null : Json.null.ReadBack ρ around ↔ around ≤ 127 := by
  simp [Json.readBack_iff, Json.depth, Json.renumber]

@[simp] theorem Json.readBack_bool (b : Bool) : (Json.bool b).ReadBack ρ around ↔ around ≤ 127 := by
  simp [Json.readBack_iff, Json.depth, Json.renumber]

@[simp] theorem Json.readBack_string (s : String) :
    (Json.string s).ReadBack ρ around ↔ around ≤ 127 := by
  simp [Json.readBack_iff, Json.depth, Json.renumber]

@[simp] theorem Json.readBack_int (i : Int) : (Json.int i).ReadBack ρ around ↔ around ≤ 127 := by
  simp [Json.readBack_iff, Json.int, Json.depth, Json.renumber, JsonNumber.reread]

@[simp] theorem Json.readBack_nat (n : Nat) : (Json.nat n).ReadBack ρ around ↔ around ≤ 127 :=
  Json.readBack_int n

theorem Json.depthItems_le {items : List Json} {n : Nat} :
    Json.depthItems items ≤ n ↔ ∀ v ∈ items, v.depth ≤ n := by
  induction items with
  | nil => exact iff_of_true n.zero_le nofun
  | cons v items ih => rw [Json.depthItems, Nat.max_le, ih, List.forall_mem_cons]

@[simp] theorem Json.readBack_array (items : List Json) : (Json.array items).ReadBack ρ around ↔
    around < 127 ∧ ∀ v ∈ items, v.ReadBack ρ (around + 1) := by
  have hdepth : (Json.array items).depth + around ≤ 127 ↔
      around < 127 ∧ ∀ v ∈ items, v.depth + (around + 1) ≤ 127 := by
    rw [Json.depth]
    constructor
    · intro h
      have hitems := Json.depthItems_le.mp (show Json.depthItems items ≤ 126 - around by omega)
      exact ⟨by omega, fun v hv => by have := hitems v hv; omega⟩
    · intro h
      have hitems := Json.depthItems_le.mpr fun v hv =>
        (show v.depth ≤ 126 - around by have := h.2 v hv; omega)
      omega
  simp only [Json.readBack_iff, hdepth, Json.renumber_array, array.injEq, map_eq_self_iff,
    forall₂_and, and_assoc]

@[simp] theorem Json.readBack_object (entries : List (String × Json)) :
    (Json.object entries).ReadBack ρ around ↔
      around < 127 ∧ ∀ e ∈ entries, e.2.ReadBack ρ (around + 1) := by
  have hdepth : (Json.object entries).depth + around ≤ 127 ↔
      around < 127 ∧ ∀ e ∈ entries, e.2.depth + (around + 1) ≤ 127 := by
    rw [Json.depth]
    constructor
    · intro h
      have hentries :=
        Json.depthEntries_le.mp (show Json.depthEntries entries ≤ 126 - around by omega)
      exact ⟨by omega, fun e he => by have := hentries e he; omega⟩
    · intro h
      have hentries := Json.depthEntries_le.mpr fun e he =>
        (show e.2.depth ≤ 126 - around by have := h.2 e he; omega)
      omega
  have hsame : ∀ e : String × Json, (e.1, e.2.renumber ρ) = e ↔ e.2.renumber ρ = e.2 := by
    intro e
    simp [Prod.ext_iff]
  simp only [Json.readBack_iff, hdepth, Json.renumber_object, object.injEq, map_eq_self_iff,
    hsame, forall₂_and, and_assoc]

end ReadBack

end Text

section Exact

variable {ryu : F64 → List Char} {readF64 : List Char → Option F64} (h : Shortest ryu readF64)

include h

theorem fromSlice_merged {v : Json} (hv : v.Printable) :
    Reader.fromSlice readF64 ((v.emit ryu).flatMap String.utf8EncodeChar) = some v.merged := by
  rw [fromSlice_renumber h.printed hv, Json.renumber_id]

theorem fromSlice_emit {v : Json} (hv : v.WellFormed) :
    Reader.fromSlice readF64 ((v.emit ryu).flatMap String.utf8EncodeChar) = some v := by
  rw [fromSlice_merged h hv.printable, Json.merged_of_wellFormed hv]

end Exact

end Vcli

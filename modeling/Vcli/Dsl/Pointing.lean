import Vcli.Dsl.Cycles
import Vcli.Dsl.Document

/-! Where the errors of the validator point. A path leads to a place of the document as long as
what holds the first violation is written as an object; an inline condition that names itself is
reported at the predicates, which the document may not have. -/

namespace Vcli.Dsl

section Place
variable {v d : Json} {p : JsonPath}

theorem find_field {entries : List (String × Json)} (h : p.find v = some (.object entries))
    (k : String) : (p.key k).find v = entries.lookup k := by
  rw [find_key, h]
  exact Json.child_object entries k

theorem find_field_root (entries : List (String × Json)) (k : String) :
    (JsonPath.root.key k).find (.object entries) = entries.lookup k :=
  find_field (find_root (.object entries)) k

theorem find_item {items : List Json} (h : p.find v = some (.array items)) (i : Nat) :
    (p.index i).find v = items[i]? := by
  rw [find_index, h]
  exact Json.child_array items i

theorem keyed_root : JsonPath.root.Keyed d ↔ ∃ entries, d = .object entries :=
  exists_congr fun _ => Option.some_inj

theorem find_below (hd : p.find v = some d) (r : List Segment) :
    (JsonPath.mk (p.segments ++ r)).find v = (JsonPath.mk r).find d := by
  rw [find_append, hd]
  rfl

theorem find_ne_none_left {l r : List Segment} (h : (JsonPath.mk (l ++ r)).find v ≠ none) :
    (JsonPath.mk l).find v ≠ none := by
  intro hl
  rw [find_append, hl] at h
  exact h rfl

theorem find_key_iff {k : String} (hk : arrayIndex k.toList = none)
    (h : ∀ entries, p.find v = some (.object entries) → ∃ w, entries.lookup k = some w) :
    (p.key k).find v ≠ none ↔ p.Keyed v := by
  constructor
  · exact keyed_of_find hk
  · rintro ⟨entries, hentries⟩
    obtain ⟨w, hw⟩ := h entries hentries
    exact Option.ne_none_iff_exists'.mpr ⟨w, (find_field hentries k).trans hw⟩

theorem find_ne_none_of_keyed (h : p.Keyed v) : p.find v ≠ none := by
  obtain ⟨entries, hentries⟩ := h
  exact Option.ne_none_iff_exists'.mpr ⟨_, hentries⟩

theorem item_at {α : Type} {dec : Json → Option α} {items : List Json} {l : List α} {i : Nat} {a : α}
    (hp : p.find v = some (.array items)) (h : items.mapM dec = some l) (ha : l[i]? = some a) :
    ∃ d, (p.index i).find v = some d ∧ dec d = some a := by
  have hall := Traverse.mapM_eq_some_iff.mp h
  obtain ⟨hi, rfl⟩ := List.getElem?_eq_some_iff.mp ha
  have hi' : i < items.length := hall.length_eq ▸ hi
  refine ⟨items[i], ?_, hall.get hi' hi⟩
  rw [find_item hp, List.getElem?_eq_getElem hi']

end Place

def PlainSegments (r : List Segment) : Prop :=
  ∀ s ∈ r, s.token ≠ [] ∧ ∀ c ∈ s.token, c ≠ '/' ∧ c ≠ '~'

def referenceHolder (q : PredicateKind) (at_ : JsonPath) : JsonPath :=
  match q with
  | .template .. | .pixelDiff .. => at_.key "region"
  | _ => at_

section References
variable {d : Json} {q : PredicateKind} {names : List String} {at_ : JsonPath} {e : DslError}

theorem plain_key {k : String} (h : k ∈ ["of", "predicate", "region"]) :
    (Segment.key k).token ≠ [] ∧ ∀ c ∈ (Segment.key k).token, c ≠ '/' ∧ c ≠ '~' := by
  simp only [List.mem_cons, List.not_mem_nil, or_false] at h
  rcases h with rfl | rfl | rfl <;> simp [Segment.token]

theorem plain_index (i : Nat) :
    (Segment.index i).token ≠ [] ∧ ∀ c ∈ (Segment.index i).token, c ≠ '/' ∧ c ≠ '~' := by
  refine ⟨Nat.toDigits_ne_nil, fun c hc => ?_⟩
  have hdigit := Nat.isDigit_of_mem_toDigits (by decide) (by decide) hc
  constructor
  · rintro rfl
    exact absurd hdigit (by decide)
  · rintro rfl
    exact absurd hdigit (by decide)

theorem resolveName_path {name : String} (h : resolveName name names at_ = .error e) :
    e.path = at_ := by
  rw [resolveName, known] at h
  split_ifs at h
  rw [← Except.error.inj h]

structure ReferenceAt (d : Json) (q : PredicateKind) (at_ path : JsonPath) (r : List Segment) :
    Prop where
  path : path = ⟨at_.segments ++ r⟩
  plain : PlainSegments r
  found : (JsonPath.mk r).find d ≠ none ↔ (referenceHolder q .root).Keyed d

theorem field_at {k : String} (hk : k ∈ ["of", "predicate", "region"])
    (hq : referenceHolder q .root = .root)
    (hd : ∀ entries, d = .object entries → ∃ w, entries.lookup k = some w) :
    ReferenceAt d q at_ (at_.key k) [.key k] := by
  have hname : ∀ k ∈ ["of", "predicate", "region"], arrayIndex k.toList = none := by decide
  refine ⟨rfl, fun s hs => ?_, ?_⟩
  · rw [List.mem_singleton.mp hs]
    exact plain_key hk
  · rw [hq]
    exact find_key_iff (p := .root) (hname k hk) fun entries hentries =>
      hd entries (Option.some.inj hentries)

theorem operands_at {of : List String} {op : String}
    (hq : referenceHolder q .root = .root)
    (hd : ∀ entries, d = .object entries →
      ∃ items, entries.lookup "of" = some (.array items) ∧ items.length = of.length)
    (h : checkOperands op of names at_ = .error e) : ∃ r, ReferenceAt d q at_ e.path r := by
  have hof : ReferenceAt d q at_ (at_.key "of") [.key "of"] := by
    refine field_at (by decide) hq fun entries hentries => ?_
    obtain ⟨items, hitems, -⟩ := hd entries hentries
    exact ⟨_, hitems⟩
  rw [checkOperands] at h
  split_ifs at h
  · rw [← Except.error.inj h]
    exact ⟨_, hof⟩
  -- the check names an operand, so the array has an item of that number
  · obtain ⟨⟨n, i⟩, hn, hi⟩ := forM_eq_error h
    obtain ⟨hlt, -⟩ := List.getElem?_eq_some_iff.mp (List.mk_mem_zipIdx_iff_getElem?.mp hn)
    refine ⟨[.key "of", .index i], ?_, fun s hs => ?_, ?_⟩
    · rw [resolveName_path hi, JsonPath.index, JsonPath.key, List.append_assoc]
      rfl
    · rcases List.mem_cons.mp hs with rfl | hs
      · exact plain_key (by decide)
      · rw [List.mem_singleton.mp hs]
        exact plain_index i
    · rw [← hof.found]
      constructor
      · exact fun hfound => find_ne_none_left (l := [.key "of"]) (r := [.index i]) hfound
      · intro hfound
        have hkeyed := hof.found.mp hfound
        rw [hq] at hkeyed
        obtain ⟨entries, rfl⟩ := keyed_root.mp hkeyed
        obtain ⟨items, hitems, hlen⟩ := hd entries rfl
        have harray : (JsonPath.root.key "of").find (.object entries) = some (.array items) :=
          (find_field_root entries "of").trans hitems
        have hitem := find_item harray i
        rw [List.getElem?_eq_getElem (hlen ▸ hlt)] at hitem
        exact Option.ne_none_iff_exists'.mpr ⟨_, hitem⟩

theorem region_at {region : Region} (hq : referenceHolder q .root = JsonPath.root.key "region")
    (hd : ∀ entries, d = .object entries →
      ∃ w, entries.lookup "region" = some w ∧ Region.fromValue w = some region)
    (h : checkRegionReferences region names (at_.key "region") = .error e) :
    ∃ r, ReferenceAt d q at_ e.path r := by
  cases region with
  | absolute | window => exact nomatch h
  | relativeTo predicate anchor offset size =>
    refine ⟨[.key "region", .key "predicate"], ?_, fun s hs => ?_, ?_⟩
    · rw [resolveName_path h, JsonPath.key, JsonPath.key, List.append_assoc]
      rfl
    · rcases List.mem_cons.mp hs with rfl | hs
      · exact plain_key (by decide)
      · rw [List.mem_singleton.mp hs]
        exact plain_key (by decide)
    · rw [hq]
      refine find_key_iff (p := JsonPath.root.key "region") (by decide) fun fields hregion => ?_
      have hroot : JsonPath.root.Keyed d :=
        keyed_of_find (k := "region") (by decide) (Option.ne_none_iff_exists'.mpr ⟨_, hregion⟩)
      obtain ⟨entries, rfl⟩ := keyed_root.mp hroot
      obtain ⟨w, hw, hdec⟩ := hd entries rfl
      have hfield := find_field_root entries "region"
      obtain rfl := Option.some.inj (hregion.symm.trans (hfield.trans hw))
      exact Region.listed hdec

theorem reference_at {buffered : Bool} (hd : PredicateKind.fromValue buffered d = some q)
    (h : checkPredicateReferences q names at_ = .error e) : ∃ r, ReferenceAt d q at_ e.path r := by
  cases q with
  | allOf of | anyOf of =>
    refine operands_at rfl (fun entries hentries => ?_) h
    rw [hentries] at hd
    exact PredicateKind.listed hd
  | not of =>
    rw [resolveName_path h]
    refine ⟨_, field_at (by decide) rfl fun entries hentries => ?_⟩
    rw [hentries] at hd
    exact PredicateKind.listed hd
  | elapsedMsSinceTrue predicate ms =>
    have hpath : e.path = at_.key "predicate" := by
      rw [checkPredicateReferences, resolveElapsed, known] at h
      split_ifs at h
      rw [← Except.error.inj h]
    rw [hpath]
    refine ⟨_, field_at (by decide) rfl fun entries hentries => ?_⟩
    rw [hentries] at hd
    exact PredicateKind.listed hd
  | colorAt => cases h
  | template image confidence region throttleMs | pixelDiff region baseline threshold =>
    refine region_at rfl (fun entries hentries => ?_) h
    rw [hentries] at hd
    exact PredicateKind.listed hd

end References

section Rewrite
variable {v : Json} {p p' at_ : JsonPath} {r : List Segment}

theorem find_eq_of_tokens (h : p.tokens = p'.tokens) (v : Json) : p.find v = p'.find v := by
  rw [JsonPath.find, h, JsonPath.find]

theorem tokens_foldl_key (segs : List (List Char)) (at_ : JsonPath) :
    (segs.foldl (fun p seg => p.key (String.ofList seg)) at_).tokens = at_.tokens ++ segs := by
  induction segs generalizing at_ with
  | nil => simp
  | cons seg segs ih =>
    rw [List.foldl_cons, ih]
    simp [JsonPath.tokens, JsonPath.key, Segment.token]

theorem split_plain (hr : PlainSegments r) :
    ((JsonPath.mk r).toList.splitOn '/').filter (· ≠ []) = r.map Segment.token := by
  have htokens : ∀ s ∈ r, s.token.flatMap Pointer.escape = s.token := by
    intro s hs
    have hplain : ∀ c ∈ s.token, Pointer.escape c = [c] := by
      intro c hc
      obtain ⟨hslash, htilde⟩ := (hr s hs).2 c hc
      unfold Pointer.escape
      split
      · exact absurd rfl htilde
      · exact absurd rfl hslash
      · rfl
    rw [List.flatMap_congr hplain, List.flatMap_singleton']
  rw [toList_eq_write]
  cases r with
  | nil => rfl
  | cons s r =>
    have hmap : ((s :: r).map Segment.token).map (·.flatMap Pointer.escape) =
        (s :: r).map Segment.token := by
      rw [List.map_map]
      exact List.map_congr_left htokens
    have hsplit : (['/'].intercalate ((s :: r).map Segment.token)).splitOn '/' =
        (s :: r).map Segment.token := by
      refine List.splitOn_intercalate '/' (fun t ht => ?_) (List.cons_ne_nil _ _)
      obtain ⟨s', hs', rfl⟩ := List.mem_map.mp ht
      exact fun hmem => ((hr s' hs').2 '/' hmem).1 rfl
    have hne : ∀ t ∈ (s :: r).map Segment.token, decide (t ≠ []) = true := by
      intro t ht
      obtain ⟨s', hs', rfl⟩ := List.mem_map.mp ht
      exact decide_eq_true (hr s' hs').1
    rw [JsonPath.tokens, List.map_cons, Pointer.write_cons, ← List.map_cons, hmap]
    rw [List.splitOn_cons_eq_if_modifyHead, if_pos (beq_self_eq_true _), hsplit]
    rw [List.filter_cons_of_neg (by simp), List.filter_eq_self.mpr hne]

/-- A path below the synthetic name is moved to the condition. -/
theorem rewritePath_below (hr : PlainSegments r) :
    (rewritePath at_ ⟨((JsonPath.root.key "predicates").key synthetic).segments ++ r⟩).tokens =
      at_.tokens ++ r.map Segment.token := by
  have htext : (JsonPath.mk (((JsonPath.root.key "predicates").key synthetic).segments ++
      r)).toList = "/predicates/__vcli_inline__".toList ++ (JsonPath.mk r).toList := by
    rw [JsonPath.toList, List.flatMap_append]
    rfl
  have hdrop : (JsonPath.mk (((JsonPath.root.key "predicates").key synthetic).segments ++
      r)).toList.dropPrefix? "/predicates/__vcli_inline__".toList = some (JsonPath.mk r).toList := by
    rw [htext, List.dropPrefix?_eq_some_iff]
    exact ⟨_, rfl, beq_self_eq_true _⟩
  rw [rewritePath, hdrop]
  dsimp only
  rw [split_plain hr, tokens_foldl_key]

theorem rewritePath_predicates :
    rewritePath at_ (JsonPath.root.key "predicates") = JsonPath.root.key "predicates" := rfl

end Rewrite

section Paths
variable {at_ : JsonPath} {e : DslError} {predicates : Predicates}

theorem known_path {unknown : Option String → DslErrorKind} {name : String} {names : List String}
    (h : known unknown name names at_ = .error e) : e.path = at_ := by
  rw [known] at h
  split_ifs at h
  rw [← Except.error.inj h]

theorem parse_path {raw : String} (h : Expression.parse raw at_ = .error e) : e.path = at_ := by
  unfold Expression.parse at h
  dsimp only at h
  repeat' split at h
  all_goals cases h
  all_goals rfl

theorem validateTarget_path {t : Target} (h : validateTarget t predicates at_ = .error e) :
    e.path = at_ := by
  cases t with
  | absolute p =>
    rw [validateTarget] at h
    split_ifs at h
    rw [← Except.error.inj h]
  | expression raw =>
    rcases Fallible.bind_eq_error.mp h with hparse | ⟨expr, -, h⟩
    · exact parse_path hparse
    · split at h
      · rw [← Except.error.inj h]
      · rw [← Except.error.inj h]
      · rw [← Except.error.inj h]
      · rw [← Except.error.inj h]
      · rw [← Except.error.inj h]
      · exact nomatch h

theorem validateStep_path {s : Step} {inWatch : Bool}
    (h : validateStep s predicates inWatch at_ = .error e) :
    match s with
    | .move _ | .click _ _ | .scroll _ _ _ => e.path = at_.key "at"
    | .waitFor .. | .assert .. => e.path = if inWatch then at_ else at_.key "predicate"
    | .sleepMs _ => inWatch = true ∧ e.path = at_
    | _ => False := by
  have hbody : ∀ {kind : String} {e : DslError}, bodyOnly kind inWatch at_ = .error e →
      inWatch = true ∧ e.path = at_ := by
    intro kind e h
    rw [bodyOnly] at h
    split_ifs at h with hin
    exact ⟨hin, by rw [← Except.error.inj h]⟩
  have hnamed : ∀ {kind name : String},
      (do bodyOnly kind inWatch at_; resolveStepName name predicates (at_.key "predicate")) =
        .error e → e.path = if inWatch then at_ else at_.key "predicate" := by
    intro kind name h
    rcases Fallible.bind_eq_error.mp h with h | ⟨_, hok, h⟩
    · obtain ⟨hin, hpath⟩ := hbody h
      rw [hpath, if_pos hin]
    · have hin : inWatch = false := by
        cases inWatch with
        | false => rfl
        | true => exact nomatch hok
      rw [known_path h, hin]
      rfl
  cases s with
  | move tgt | click tgt button | scroll tgt dx dy => exact validateTarget_path h
  | type | key => exact nomatch h
  | waitFor | assert => exact hnamed h
  | sleepMs ms => exact hbody h

end Paths

structure Spot where
  check : Check
  holder : JsonPath

section Spots
variable (predicates : Predicates)

def checkCycles : Check :=
  match Search.sweep predicates.keys (edgesIn predicates) predicates.keys fun _ => .white with
  | .ok _ => .ok ()
  | .error cycle => .error ⟨.predicateCycle cycle, JsonPath.root.key "predicates"⟩

def predicateSpot (e : String × PredicateKind) : Spot where
  check := checkPredicateReferences e.2 predicates.keys ((JsonPath.root.key "predicates").key e.1)
  holder := referenceHolder e.2 ((JsonPath.root.key "predicates").key e.1)

def graphSpots : List Spot :=
  predicates.toList.map (predicateSpot predicates) ++ [⟨checkCycles predicates, .root⟩]

def conditionHolder (at_ : JsonPath) : WatchWhen → JsonPath
  | .byName _ => at_
  | .inline q =>
    if synthetic ∈ predicates then at_
    else if (checkPredicateReferences q (predicates.insert synthetic q).keys .root).isOk then
      JsonPath.root.key "predicates"
    else referenceHolder q (at_.key "when")

def stepHolder (inWatch : Bool) (around at_ : JsonPath) : Step → JsonPath
  | .move _ | .click _ _ | .scroll _ _ _ => at_
  | _ => if inWatch then around else at_

def stepSpots (inWatch : Bool) (around base : JsonPath) (steps : List Step) : List Spot :=
  steps.zipIdx.map fun s =>
    ⟨validateStep s.1 predicates inWatch (base.index s.2),
      stepHolder inWatch around (base.index s.2) s.1⟩

def watchSpots (at_ : JsonPath) (w : Watch) : List Spot :=
  ⟨validateWatchWhen w.when_ predicates (at_.key "when"), conditionHolder predicates at_ w.when_⟩ ::
    (stepSpots predicates true at_ (at_.key "do") w.steps ++
      [⟨validateLifetime w.lifetime predicates (at_.key "lifetime"), at_.key "lifetime"⟩])

def usageSpots (p : Program) : List Spot :=
  ⟨validateTrigger p.trigger p.predicates, JsonPath.root.key "trigger"⟩ ::
    ((p.watches.zipIdx.flatMap fun w =>
        watchSpots p.predicates ((JsonPath.root.key "watches").index w.2) w.1) ++
      stepSpots p.predicates false .root (JsonPath.root.key "body") p.body)

def spots (p : Program) : List Spot := graphSpots p.predicates ++ usageSpots p

theorem forM_append {α : Type} {f : α → Check} (l l' : List α) :
    (l ++ l').forM f = (do l.forM f; l'.forM f) := List.forM_append

theorem graphSpots_forM :
    (graphSpots predicates).forM Spot.check = validatePredicateGraph predicates := by
  have hshape : (predicates.toList.map (predicateSpot predicates)).forM Spot.check =
      validatePredicateShape predicates := List.forM_map
  rw [graphSpots, forM_append, hshape]
  have hcycles : [(⟨checkCycles predicates, .root⟩ : Spot)].forM Spot.check =
      checkCycles predicates := bind_pure _
  rw [hcycles]
  rfl

theorem stepSpots_forM (inWatch : Bool) (around base : JsonPath) (steps : List Step) :
    (stepSpots predicates inWatch around base steps).forM Spot.check =
      validateSteps inWatch steps predicates base := List.forM_map

theorem watchSpots_forM (at_ : JsonPath) (w : Watch) :
    (watchSpots predicates at_ w).forM Spot.check = validateWatch w predicates at_ := by
  have hlast : [(⟨validateLifetime w.lifetime predicates (at_.key "lifetime"),
      at_.key "lifetime"⟩ : Spot)].forM Spot.check =
      validateLifetime w.lifetime predicates (at_.key "lifetime") := bind_pure _
  rw [watchSpots, forM_cons, forM_append, stepSpots_forM, hlast]
  rfl

theorem forM_flatMap {α : Type} {k : α → List Spot} {l : List α} :
    (l.flatMap k).forM Spot.check = l.forM fun x => (k x).forM Spot.check := by
  induction l with
  | nil => rfl
  | cons x l ih => rw [List.flatMap_cons, forM_append, forM_cons, ih]

theorem usageSpots_forM (p : Program) : (usageSpots p).forM Spot.check = (do
    validateTrigger p.trigger p.predicates
    validateWatches p.watches p.predicates
    validateBodySteps p.body p.predicates (JsonPath.root.key "body")) := by
  rw [usageSpots, forM_cons, forM_append, stepSpots_forM, forM_flatMap]
  simp only [watchSpots_forM]
  rfl

/-- The validator goes through the checks, and then takes the digests. -/
theorem finish_eq (X : Crates) (p : Program) : finish X p = (do
    (spots p).forM Spot.check
    let hashes ← computePredicateHashes X p.predicates
    return ⟨p, hashes⟩) := by
  rw [spots, forM_append, graphSpots_forM, usageSpots_forM]
  simp only [bind_assoc]
  rfl

end Spots

section Documents
variable {X : Crates} {v : Json} {entries : List (String × Json)} {p : Program} {e : DslError}

theorem listed_of_parse (h : parseEnvelopeValue X v = .ok p) :
    ∃ entries, v = .object entries ∧ p.Listed entries := by
  cases v with
  | object entries =>
    refine ⟨entries, rfl, ?_⟩
    rw [parseEnvelopeValue] at h
    split at h
    · cases h
    · split_ifs at h
      split at h
      next program hread =>
        obtain rfl := Except.ok.inj h
        exact Program.listed hread
      next => cases h
    · cases h
  | _ => cases h

theorem parse_find (h : parseEnvelopeValue X v = .error e) : e.path.find v ≠ none := by
  cases v with
  | object entries =>
    have hversion : ∀ w, entries.lookup "version" = some w →
        (JsonPath.root.key "version").find (.object entries) ≠ none := fun w hw =>
      Option.ne_none_iff_exists'.mpr ⟨w, (find_field_root entries "version").trans hw⟩
    rw [parseEnvelopeValue] at h
    split at h
    next => rw [← Except.error.inj h]; exact Option.some_ne_none _
    next ver hver =>
      split_ifs at h
      · rw [← Except.error.inj h]
        exact hversion _ hver
      · split at h
        next => cases h
        next => rw [← Except.error.inj h]; exact Option.some_ne_none _
    next ver hver =>
      rw [← Except.error.inj h]
      exact hversion _ hver
  | _ =>
    rw [← Except.error.inj h]
    exact Option.some_ne_none _

theorem predicate_at (hv : (Json.object entries).WellFormed) (hp : p.Listed entries) {k : String}
    {q : PredicateKind} (hq : p.predicates[k]? = some q) :
    ∃ d, ((JsonPath.root.key "predicates").key k).find (.object entries) = some d ∧
      PredicateKind.fromValue false d = some q := by
  rcases hp.predicates with ⟨hempty, -⟩ | ⟨fields, decoded, hfields, hdecoded, hfill⟩
  · rw [hempty, Std.ExtTreeMap.getElem?_empty] at hq
    exact nomatch hq
  · rw [hfill] at hq
    obtain ⟨⟨k', d⟩, hd, hread⟩ := Traverse.exists_of_mapM hdecoded (Traverse.mem_of_fill hq)
    obtain ⟨q', hdec, hpair⟩ := Option.map_eq_some_iff.mp hread
    obtain ⟨rfl, rfl⟩ := Prod.mk.inj hpair
    obtain ⟨hkeys, hentries⟩ := Json.each_object.mp hv
    have hnodup := (Json.each_object.mp
      (hentries _ ((Table.mem_iff_lookup hkeys).mpr hfields))).1
    have hplace := find_field_root entries "predicates"
    refine ⟨d, ?_, hdec⟩
    rw [find_field (hplace.trans hfields), (Table.mem_iff_lookup hnodup).mp hd]

theorem predicates_keyed (hp : p.Listed entries) {k : String} (hk : k ∈ p.predicates) :
    (JsonPath.root.key "predicates").Keyed (.object entries) := by
  rcases hp.predicates with ⟨hempty, -⟩ | ⟨fields, decoded, hfields, -, -⟩
  · rw [hempty] at hk
    exact absurd hk Std.ExtTreeMap.not_mem_empty
  · exact ⟨fields, (find_field_root entries "predicates").trans hfields⟩

end Documents

def Spot.Pointed (v : Json) (s : Spot) : Prop :=
  ∀ e, s.check = .error e → (e.path.find v ≠ none ↔ s.holder.Keyed v)

section Graph
variable {v d : Json} {entries : List (String × Json)} {p : Program} {q : PredicateKind}
  {names : List String} {at_ : JsonPath} {e : DslError}

theorem referenceHolder_keyed (hd : at_.find v = some d) :
    (referenceHolder q at_).Keyed v ↔ (referenceHolder q .root).Keyed d := by
  have hroot : at_.Keyed v ↔ JsonPath.root.Keyed d := by
    rw [JsonPath.Keyed, hd]
    exact Iff.rfl
  have hregion : (at_.key "region").Keyed v ↔ (JsonPath.root.key "region").Keyed d := by
    rw [JsonPath.Keyed, JsonPath.key, find_below hd]
    exact Iff.rfl
  cases q with
  | template | pixelDiff => exact hregion
  | colorAt | allOf | anyOf | not | elapsedMsSinceTrue => exact hroot

theorem predicateSpot_pointed (hv : (Json.object entries).WellFormed) (hp : p.Listed entries)
    {k : String} (hq : p.predicates[k]? = some q) :
    (predicateSpot p.predicates (k, q)).Pointed (.object entries) := by
  intro e he
  obtain ⟨d, hd, hread⟩ := predicate_at hv hp hq
  obtain ⟨r, hpath, -, hfound⟩ := reference_at hread he
  rw [hpath, find_below hd, hfound]
  exact (referenceHolder_keyed hd).symm

theorem checkCycles_error {predicates : Predicates} (h : checkCycles predicates = .error e) :
    e.path = JsonPath.root.key "predicates" ∧ ∃ k, k ∈ predicates := by
  rw [checkCycles] at h
  split at h
  next => exact nomatch h
  next cycle hfound =>
    refine ⟨by rw [← Except.error.inj h], ?_⟩
    by_contra hnone
    have hkeys : predicates.keys = [] := List.eq_nil_iff_forall_not_mem.mpr fun k hk =>
      hnone ⟨k, Std.ExtTreeMap.mem_keys.mp hk⟩
    rw [hkeys] at hfound
    exact nomatch hfound

theorem graphSpots_pointed (hv : (Json.object entries).WellFormed) (hp : p.Listed entries) :
    ∀ s ∈ graphSpots p.predicates, s.Pointed (.object entries) := by
  intro s hs
  rcases List.mem_append.mp hs with hs | hs
  · obtain ⟨⟨k, q⟩, hq, rfl⟩ := List.mem_map.mp hs
    exact predicateSpot_pointed hv hp (Std.ExtTreeMap.mem_toList_iff_getElem?_eq_some.mp hq)
  · obtain rfl := List.mem_singleton.mp hs
    intro e he
    obtain ⟨hpath, k, hk⟩ := checkCycles_error he
    rw [hpath]
    exact iff_of_true (find_ne_none_of_keyed (predicates_keyed hp hk)) ⟨entries, rfl⟩

end Graph

section Usage
variable {v : Json} {entries : List (String × Json)} {p : Program} {w : Watch}
  {predicates : Predicates} {at_ around base : JsonPath} {e : DslError}

theorem named_pointed {unknown : Option String → DslErrorKind} {name : String} {names : List String}
    (h : ∀ entries, at_.find v = some (.object entries) → ∃ w, entries.lookup "name" = some w) :
    Spot.Pointed v ⟨known unknown name names (at_.key "name"), at_⟩ := by
  intro e he
  rw [known_path he]
  exact find_key_iff (by decide) h

theorem trigger_pointed (hp : p.Listed entries) :
    Spot.Pointed (.object entries)
      ⟨validateTrigger p.trigger p.predicates, JsonPath.root.key "trigger"⟩ := by
  obtain ⟨d, hd, hread⟩ := hp.trigger
  have hplace := (find_field_root entries "trigger").trans hd
  cases htrigger : p.trigger with
  | onSubmit | manual => exact nofun
  | onPredicate name =>
    refine named_pointed fun fields hfields => ?_
    obtain rfl := Option.some.inj (hplace.symm.trans hfields)
    exact Trigger.listed (htrigger ▸ hread)

theorem steps_pointed {inWatch : Bool} {steps : List Step}
    (hbase : base.find v ≠ none ↔ around.Keyed v)
    (hitems : ∀ d, base.find v = some d →
      ∃ items, d = .array items ∧ items.mapM Step.fromValue = some steps) :
    ∀ s ∈ stepSpots predicates inWatch around base steps, s.Pointed v := by
  intro s hs e he
  obtain ⟨⟨step, i⟩, hstep, rfl⟩ := List.mem_map.mp hs
  have hi := List.mk_mem_zipIdx_iff_getElem?.mp hstep
  have hplace : ∀ d, base.find v = some d → ∃ d', (base.index i).find v = some d' ∧
      Step.fromValue d' = some step := by
    intro d hd
    obtain ⟨items, rfl, hread⟩ := hitems d hd
    exact item_at hd hread hi
  have haround : (base.index i).find v ≠ none ↔ around.Keyed v := by
    rw [← hbase]
    constructor
    · exact fun h => find_ne_none_left (l := base.segments) (r := [.index i]) h
    · intro h
      obtain ⟨d, hd⟩ := Option.ne_none_iff_exists'.mp h
      obtain ⟨d', hd', -⟩ := hplace d hd
      exact Option.ne_none_iff_exists'.mpr ⟨d', hd'⟩
  have hobject : ∀ entries, (base.index i).find v = some (.object entries) →
      Step.fromValue (.object entries) = some step := by
    intro entries hentries
    have hfound : (base.index i).find v ≠ none := Option.ne_none_iff_exists'.mpr ⟨_, hentries⟩
    obtain ⟨d, hd⟩ := Option.ne_none_iff_exists'.mp (hbase.mpr (haround.mp hfound))
    obtain ⟨d', hd', hread⟩ := hplace d hd
    obtain rfl := Option.some.inj (hentries.symm.trans hd')
    exact hread
  have hpath := validateStep_path he
  cases step with
  | move tgt | click tgt button | scroll tgt dx dy =>
    rw [hpath]
    exact find_key_iff (by decide) fun entries hentries => Step.listed (hobject entries hentries)
  | type | key => exact hpath.elim
  | waitFor | assert =>
    -- in a watch such a step is refused as a whole, where it stands
    cases inWatch with
    | true =>
      rw [hpath]
      exact haround
    | false =>
      rw [hpath]
      exact find_key_iff (by decide) fun entries hentries => Step.listed (hobject entries hentries)
  | sleepMs ms =>
    obtain ⟨rfl, hpath⟩ := hpath
    rw [hpath]
    exact haround

theorem when_at (hat : ∃ d, at_.find v = some d ∧ Watch.fromValue d = some w)
    (hkeyed : at_.Keyed v) :
    ∃ d, (at_.key "when").find v = some d ∧ WatchWhen.fromValue d = some w.when_ := by
  obtain ⟨d, hd, hread⟩ := hat
  obtain ⟨entries, hentries⟩ := hkeyed
  obtain rfl := Option.some.inj (hd.symm.trans hentries)
  obtain ⟨d', hd', hwhen⟩ := (Watch.listed hread).condition
  exact ⟨d', (find_field hentries "when").trans hd', hwhen⟩

theorem when_find (hat : ∃ d, at_.find v = some d ∧ Watch.fromValue d = some w) :
    (at_.key "when").find v ≠ none ↔ at_.Keyed v := by
  constructor
  · exact keyed_of_find (by decide)
  · intro hkeyed
    obtain ⟨d, hd, -⟩ := when_at hat hkeyed
    exact Option.ne_none_iff_exists'.mpr ⟨d, hd⟩

theorem mapError_eq_error {ε ε' α : Type} {x : Except ε α} {f : ε → ε'} {e : ε'}
    (h : x.mapError f = .error e) : ∃ e', x = .error e' ∧ f e' = e := by
  cases x with
  | ok a => exact nomatch h
  | error e' => exact ⟨e', rfl, Except.error.inj h⟩

theorem shape_beside {k : String} {q q' : PredicateKind} {at' : JsonPath}
    (hgraph : validatePredicateGraph predicates = .ok ())
    (hk : (predicates.insert synthetic q)[k]? = some q')
    (h : checkPredicateReferences q' (predicates.insert synthetic q).keys at' = .error e) :
    k = synthetic ∧ q' = q := by
  rw [Std.ExtTreeMap.getElem?_insert] at hk
  split at hk
  next heq => exact ⟨(Std.compare_eq_iff_eq.mp heq).symm, (Option.some.inj hk).symm⟩
  next =>
    have hwf := validatePredicateGraph_eq_ok.mp hgraph
    have hok : checkPredicateReferences q' (predicates.insert synthetic q).keys at' = .ok () := by
      refine checkPredicateReferences_eq_ok.mpr ⟨fun n hn => ?_, ?_, ?_⟩
      · have hmem := hwf.named k n ⟨q', hk, hn⟩
        exact Std.ExtTreeMap.mem_keys.mpr (Std.ExtTreeMap.mem_insert.mpr (.inr hmem))
      · rintro rfl
        exact (hwf.joined k).1 hk
      · rintro rfl
        exact (hwf.joined k).2 hk
    exact nomatch hok.symm.trans h

theorem references_isOk {q : PredicateKind} {names : List String} :
    (checkPredicateReferences q names at_).isOk = true ↔
      checkPredicateReferences q names at_ = .ok () := by
  cases checkPredicateReferences q names at_ with
  | ok u => exact iff_of_true rfl rfl
  | error e => exact iff_of_false nofun nofun

theorem references_anywhere {q : PredicateKind} {names : List String} (at' : JsonPath)
    (h : checkPredicateReferences q names at_ = .ok ()) :
    checkPredicateReferences q names at' = .ok () :=
  checkPredicateReferences_eq_ok.mpr (checkPredicateReferences_eq_ok.mp h)

theorem inline_error {q : PredicateKind} (hgraph : validatePredicateGraph predicates = .ok ())
    (h : validatePredicateGraph (predicates.insert synthetic q) = .error e) :
    if (checkPredicateReferences q (predicates.insert synthetic q).keys .root).isOk then
      e.path = JsonPath.root.key "predicates"
    else checkPredicateReferences q (predicates.insert synthetic q).keys
      ((JsonPath.root.key "predicates").key synthetic) = .error e := by
  have hself : (predicates.insert synthetic q)[synthetic]? = some q :=
    Std.ExtTreeMap.getElem?_insert_self
  rcases Fallible.bind_eq_error.mp h with hshape | ⟨_, hshape, hcycle⟩
  · obtain ⟨⟨k, q'⟩, hk, hcheck⟩ := forM_eq_error hshape
    obtain ⟨rfl, rfl⟩ := shape_beside hgraph
      (Std.ExtTreeMap.mem_toList_iff_getElem?_eq_some.mp hk) hcheck
    rw [if_neg, hcheck]
    intro hok
    exact nomatch (references_anywhere _ (references_isOk.mp hok)).symm.trans hcheck
  · have hok := forM_eq_ok.mp hshape _ (Std.ExtTreeMap.mem_toList_iff_getElem?_eq_some.mpr hself)
    rw [if_pos (references_isOk.mpr (references_anywhere .root hok))]
    exact (checkCycles_error hcycle).1

theorem when_read {d : Json} (h : Watch.fromValue d = some w) :
    ∃ d', WatchWhen.fromValue d' = some w.when_ := by
  obtain ⟨f, -, h⟩ := Option.bind_eq_some_iff.mp h
  obtain ⟨when_, hwhen, h⟩ := Option.bind_eq_some_iff.mp h
  obtain ⟨steps, -, h⟩ := Option.bind_eq_some_iff.mp h
  obtain ⟨throttle, -, h⟩ := Option.bind_eq_some_iff.mp h
  obtain ⟨lifetime, -, h⟩ := Option.bind_eq_some_iff.mp h
  obtain rfl := Option.some.inj h
  obtain ⟨d', -, hd'⟩ := Option.bind_eq_some_iff.mp hwhen
  exact ⟨d', hd'⟩

theorem inline_read {d : Json} {q : PredicateKind} (h : WatchWhen.fromValue d = some (.inline q)) :
    PredicateKind.fromValue true d = some q := by
  rw [WatchWhen.fromValue.eq_def] at h
  split at h
  next => cases h
  next =>
    obtain ⟨q', hq', heq⟩ := Option.map_eq_some_iff.mp h
    rwa [← WatchWhen.inline.inj heq]

theorem found_of_referenceHolder {q : PredicateKind} (h : (referenceHolder q at_).Keyed v) :
    at_.find v ≠ none := by
  cases q with
  | template | pixelDiff =>
    have hregion := find_ne_none_of_keyed h
    exact find_ne_none_left (l := at_.segments) (r := [.key "region"]) hregion
  | colorAt | allOf | anyOf | not | elapsedMsSinceTrue => exact find_ne_none_of_keyed h

theorem moved_find {q : PredicateKind}
    (hread : ∃ d, PredicateKind.fromValue true d = some q)
    (hd : ∀ d, at_.find v = some d → PredicateKind.fromValue true d = some q)
    (h : checkPredicateReferences q (predicates.insert synthetic q).keys
      ((JsonPath.root.key "predicates").key synthetic) = .error e) :
    (rewritePath at_ e.path).find v ≠ none ↔ (referenceHolder q at_).Keyed v := by
  have hmoved : ∀ d r, ReferenceAt d q ((JsonPath.root.key "predicates").key synthetic) e.path r →
      (rewritePath at_ e.path).find v = (JsonPath.mk (at_.segments ++ r)).find v := by
    intro d r hr
    refine find_eq_of_tokens ?_ v
    rw [hr.path, rewritePath_below hr.plain, JsonPath.tokens, JsonPath.tokens, List.map_append]
  cases hfind : at_.find v with
  | none =>
    obtain ⟨d, hread⟩ := hread
    obtain ⟨r, hr⟩ := reference_at hread h
    rw [hmoved d r hr]
    refine iff_of_false (fun hfound => ?_) fun hkeyed => found_of_referenceHolder hkeyed hfind
    exact find_ne_none_left (l := at_.segments) hfound hfind
  | some d =>
    obtain ⟨r, hr⟩ := reference_at (hd d hfind) h
    rw [hmoved d r hr, find_below hfind, hr.found]
    exact (referenceHolder_keyed hfind).symm

theorem condition_pointed (hat : ∃ d, at_.find v = some d ∧ Watch.fromValue d = some w)
    (hgraph : validatePredicateGraph predicates = .ok ())
    (hwritten : (JsonPath.root.key "predicates").find v ≠ none →
      (JsonPath.root.key "predicates").Keyed v) :
    Spot.Pointed v ⟨validateWatchWhen w.when_ predicates (at_.key "when"),
      conditionHolder predicates at_ w.when_⟩ := by
  intro e he
  cases hw : w.when_ with
  | byName name =>
    rw [hw] at he
    rw [known_path he]
    exact when_find hat
  | inline q =>
    rw [hw] at he
    dsimp only at he ⊢
    rw [validateWatchWhen] at he
    rw [conditionHolder]
    by_cases hreserved : synthetic ∈ predicates
    · rw [if_pos hreserved] at he ⊢
      rw [← Except.error.inj he]
      exact when_find hat
    · rw [if_neg hreserved] at he ⊢
      obtain ⟨e', he', rfl⟩ := mapError_eq_error he
      have herror := inline_error hgraph he'
      split_ifs at herror ⊢ with hshape
      · -- the references are known, so that the error is the cycle
        rw [herror, rewritePath_predicates]
        exact ⟨hwritten, find_ne_none_of_keyed⟩
      · obtain ⟨d, hat, hread⟩ := hat
        obtain ⟨d', hd'⟩ := when_read hread
        refine moved_find ⟨d', inline_read (hw ▸ hd')⟩ (fun d'' hfind => ?_) herror
        have hkeyed := (when_find ⟨d, hat, hread⟩).mp (Option.ne_none_iff_exists'.mpr ⟨_, hfind⟩)
        obtain ⟨d₀, hd₀, hread₀⟩ := when_at ⟨d, hat, hread⟩ hkeyed
        obtain rfl := Option.some.inj (hfind.symm.trans hd₀)
        exact inline_read (hw ▸ hread₀)

theorem watchSpots_pointed (hat : ∃ d, at_.find v = some d ∧ Watch.fromValue d = some w)
    (hgraph : validatePredicateGraph predicates = .ok ())
    (hwritten : (JsonPath.root.key "predicates").find v ≠ none →
      (JsonPath.root.key "predicates").Keyed v) :
    ∀ s ∈ watchSpots predicates at_ w, s.Pointed v := by
  obtain ⟨d, hd, hread⟩ := hat
  have hlisted : ∀ fields, at_.find v = some (.object fields) → w.Listed fields := by
    intro fields hfields
    obtain rfl := Option.some.inj (hd.symm.trans hfields)
    exact Watch.listed hread
  intro s hs
  rcases List.mem_cons.mp hs with rfl | hs
  · exact condition_pointed ⟨d, hd, hread⟩ hgraph hwritten
  -- the condition comes first, then the steps, and then the terminator
  rcases List.mem_append.mp hs with hs | hs
  · refine steps_pointed ?_ (fun d' hd' => ?_) s hs
    · refine find_key_iff (by decide) fun fields hfields => ?_
      obtain ⟨items, hitems, -⟩ := (hlisted fields hfields).steps
      exact ⟨_, hitems⟩
    · obtain ⟨fields, hfields⟩ := keyed_of_find (k := "do") (by decide)
        (Option.ne_none_iff_exists'.mpr ⟨d', hd'⟩)
      obtain ⟨items, hitems, hsteps⟩ := (hlisted fields hfields).steps
      obtain rfl := Option.some.inj (hd'.symm.trans ((find_field hfields "do").trans hitems))
      exact ⟨items, rfl, hsteps⟩
  · obtain rfl := List.mem_singleton.mp hs
    cases hlifetime : w.lifetime with
    | oneShot | persistent | timeoutMs => exact nofun
    | untilPredicate name =>
      refine named_pointed fun fields hfields => ?_
      obtain ⟨outer, houter⟩ := keyed_of_find (k := "lifetime") (by decide)
        (Option.ne_none_iff_exists'.mpr ⟨_, hfields⟩)
      rcases (hlisted outer houter).lifetime with hpersistent | ⟨d', hd', hdec⟩
      · exact nomatch hlifetime.symm.trans hpersistent
      · obtain rfl := Option.some.inj
          (hfields.symm.trans ((find_field houter "lifetime").trans hd'))
        exact Lifetime.listed (hlifetime ▸ hdec)

theorem usageSpots_pointed (hp : p.Listed entries)
    (hgraph : validatePredicateGraph p.predicates = .ok ()) :
    ∀ s ∈ usageSpots p, s.Pointed (.object entries) := by
  have hfield := find_field_root entries
  have hwritten : (JsonPath.root.key "predicates").find (.object entries) ≠ none →
      (JsonPath.root.key "predicates").Keyed (.object entries) := by
    intro hfound
    rcases hp.predicates with ⟨-, hnone⟩ | ⟨fields, -, hfields, -⟩
    · exact absurd ((hfield "predicates").trans hnone) hfound
    · exact ⟨fields, (hfield "predicates").trans hfields⟩
  intro s hs
  rcases List.mem_cons.mp hs with rfl | hs
  · exact trigger_pointed hp
  rcases List.mem_append.mp hs with hs | hs
  · obtain ⟨⟨w, i⟩, hw, hs⟩ := List.mem_flatMap.mp hs
    have hi := List.mk_mem_zipIdx_iff_getElem?.mp hw
    refine watchSpots_pointed ?_ hgraph hwritten s hs
    rcases hp.watches with hnil | ⟨items, hitems, hread⟩
    · rw [hnil] at hi
      exact nomatch hi
    · exact item_at ((hfield "watches").trans hitems) hread hi
  · rcases hp.body with hnil | ⟨items, hitems, hread⟩
    · rw [hnil] at hs
      exact nomatch hs
    · have hbody := (hfield "body").trans hitems
      refine steps_pointed ?_ (fun d hd => ?_) s hs
      · exact iff_of_true (Option.ne_none_iff_exists'.mpr ⟨_, hbody⟩) ⟨entries, rfl⟩
      · exact ⟨items, Option.some.inj (hd.symm.trans hbody), hread⟩

end Usage

section Validator
variable {X : Crates} {v : Json} {entries : List (String × Json)} {p : Program} {s : Spot}
  {e : DslError}

def FirstViolation (p : Program) (s : Spot) : Prop :=
  ∃ pre post, spots p = pre ++ s :: post ∧ (∀ t ∈ pre, t.check = .ok ()) ∧ s.check ≠ .ok ()

theorem FirstViolation.error (h : FirstViolation p s) :
    ∃ e, s.check = .error e ∧ (spots p).forM Spot.check = .error e := by
  obtain ⟨pre, post, hspots, hpre, hs⟩ := h
  cases he : s.check with
  | ok u => exact absurd he hs
  | error e => exact ⟨e, rfl, forM_eq_error_iff.mpr ⟨pre, s, post, hspots, hpre, he⟩⟩

/-- The uses of predicates are checked after the predicates. -/
theorem FirstViolation.pointed (hv : (Json.object entries).WellFormed) (hp : p.Listed entries)
    (h : FirstViolation p s) : s.Pointed (.object entries) := by
  obtain ⟨pre, post, hspots, hpre, -⟩ := h
  by_cases hs : s ∈ graphSpots p.predicates
  · exact graphSpots_pointed hv hp s hs
  · have hbefore : ∀ t ∈ graphSpots p.predicates, t ∈ pre := by
      rcases List.append_eq_append_iff.mp hspots with ⟨used, rfl, -⟩ | ⟨rest, hgraph, hrest⟩
      · exact fun t ht => List.mem_append_left used ht
      · cases rest with
        | nil =>
          rw [hgraph, List.append_nil]
          exact fun t ht => ht
        | cons t rest =>
          obtain ⟨rfl, -⟩ := List.cons.inj hrest
          refine absurd ?_ hs
          rw [hgraph]
          exact List.mem_append_right _ List.mem_cons_self
    have hok : (graphSpots p.predicates).forM Spot.check = .ok () :=
      forM_eq_ok.mpr fun t ht => hpre t (hbefore t ht)
    rw [graphSpots_forM] at hok
    have hall : s ∈ graphSpots p.predicates ++ usageSpots p := by
      rw [← spots, hspots]
      exact List.mem_append_right _ List.mem_cons_self
    exact usageSpots_pointed hp hok s ((List.mem_append.mp hall).resolve_left hs)

theorem foldlM_eq_error {α β ε : Type} {f : β → α → Except ε β} {l : List α} {b : β} {e : ε}
    (h : l.foldlM f b = .error e) : ∃ x ∈ l, ∃ b', f b' x = .error e := by
  induction l generalizing b with
  | nil => exact nomatch h
  | cons x l ih =>
    rcases Fallible.bind_eq_error.mp h with hx | ⟨b', -, hl⟩
    · exact ⟨x, List.mem_cons_self, b, hx⟩
    · obtain ⟨y, hy, hfy⟩ := ih hl
      exact ⟨y, List.mem_cons_of_mem x hy, hfy⟩

theorem hashes_find (hv : (Json.object entries).WellFormed) (hp : p.Listed entries)
    (h : computePredicateHashes X p.predicates = .error e) :
    e.path.find (.object entries) ≠ none := by
  obtain ⟨⟨k, q⟩, hq, out, he⟩ := foldlM_eq_error h
  obtain ⟨d, hd, -⟩ := predicate_at hv hp (Std.ExtTreeMap.mem_toList_iff_getElem?_eq_some.mp hq)
  split at he
  next => exact nomatch he
  next =>
    rw [← Except.error.inj he]
    exact Option.ne_none_iff_exists'.mpr ⟨d, hd⟩

/-- The path of every error leads to a place of the document if and only if the first violation is
held by an object; a condition that names itself is held by the predicates. -/
theorem error_paths_resolve_iff (X : Crates) (v : Value) :
    (∀ e, validateValue X v.1 = .error e → e.path.Resolves v.1) ↔
      ∀ p s, parseEnvelopeValue X v.1 = .ok p → FirstViolation p s → s.holder.Keyed v.1 := by
  obtain ⟨v, hv⟩ := v
  constructor
  · intro h p s hparse hfirst
    obtain ⟨entries, rfl, hp⟩ := listed_of_parse hparse
    obtain ⟨e, he, hspots⟩ := hfirst.error
    have herror : validateValue X (.object entries) = .error e := by
      rw [validateValue, hparse]
      show finish X p = .error e
      rw [finish_eq, hspots]
      rfl
    exact (hfirst.pointed hv hp e he).mp (resolves_iff.mp (h e herror))
  · intro h e herror
    rw [resolves_iff]
    rcases Fallible.bind_eq_error.mp herror with hparse | ⟨p, hparse, hfinish⟩
    · exact parse_find hparse
    · obtain ⟨entries, rfl, hp⟩ := listed_of_parse hparse
      rw [finish_eq] at hfinish
      rcases Fallible.bind_eq_error.mp hfinish with hspots | ⟨_, -, hhashes⟩
      · obtain ⟨pre, s, post, hsplit, hpre, hs⟩ := forM_eq_error_iff.mp hspots
        have hfirst : FirstViolation p s := by
          refine ⟨pre, post, hsplit, hpre, ?_⟩
          rw [hs]
          exact fun hnot => by cases hnot
        exact (hfirst.pointed hv hp e hs).mpr (h p s hparse hfirst)
      · rcases Fallible.bind_eq_error.mp hhashes with hhashes | ⟨_, -, hdone⟩
        · exact hashes_find hv hp hhashes
        · cases hdone

def selfNegating : Json :=
  .object [("version", .string "0.1"), ("name", .string "p"),
    ("trigger", .object [("kind", .string "on_submit")]),
    ("watches", .array [.object [
      ("when", .object [("kind", .string "not"), ("of", .string synthetic)]), ("do", .array [])]])]

theorem self_reference_dangles :
    ∃ v : Value, v.1 = selfNegating ∧ ∃ e, validateValue plainCrates v.1 = .error e ∧
      e = ⟨.predicateCycle [synthetic, synthetic], JsonPath.root.key "predicates"⟩ ∧
        ¬ e.path.Resolves v.1 := by
  have hwf : selfNegating.WellFormed := by
    simp [Json.WellFormed, selfNegating, Json.Each, Json.EachEntry, Json.EachItem]
  have herror : Fallible.refusal (validateValue plainCrates selfNegating) =
      some ⟨.predicateCycle [synthetic, synthetic], JsonPath.root.key "predicates"⟩ := by
    decide +kernel
  have hdangles : ¬ (JsonPath.root.key "predicates").Resolves selfNegating := by decide +kernel
  refine ⟨⟨selfNegating, hwf⟩, rfl, _, ?_, rfl, hdangles⟩
  exact Fallible.refusal_eq_some.mp herror

end Validator

end Vcli.Dsl

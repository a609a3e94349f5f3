import Vcli.Dsl.Accepted

/-! A stored program and the program it is reloaded as. What is stored are canonical bytes, and
these have every text in normal form. -/

namespace Vcli.Dsl

section Retouched

def isTargetKind : PredicateKind → Bool
  | .template .. | .colorAt .. | .pixelDiff .. => true
  | _ => false

structure Retouches (φ : PredicateKind → PredicateKind) : Prop where
  references : ∀ q names at_,
    checkPredicateReferences (φ q) names at_ = checkPredicateReferences q names at_
  edges : ∀ q, edgesOf (φ q) = edgesOf q
  target : ∀ q, isTargetKind (φ q) = isTargetKind q

theorem retouches_mapFloats (g : F64 → F64) : Retouches (PredicateKind.mapFloats g) where
  references q _ _ := by cases q <;> rfl
  edges q := by cases q <;> rfl
  target q := by cases q <;> rfl

variable {φ : PredicateKind → PredicateKind} (h : Retouches φ)

theorem validateTarget_expression (raw : String) (predicates : Predicates) (at_ : JsonPath) :
    validateTarget (.expression raw) predicates at_ = (do
      let expr ← Expression.parse raw at_
      match predicates[expr.name]?.map isTargetKind with
      | none => .error ⟨.unknownPredicateName expr.name (didYouMean expr.name predicates.keys), at_⟩
      | some false => .error ⟨.expressionOnLogicalPredicate expr.name, at_⟩
      | some true => .ok ()) := by
  rw [validateTarget]
  refine congrArg (Except.bind (Expression.parse raw at_)) (funext fun expr => ?_)
  cases predicates[expr.name]? with
  | none => rfl
  | some q => cases q <;> rfl

include h

theorem validatePredicateGraph_map (predicates : Predicates) :
    validatePredicateGraph (predicates.map fun _ q => φ q) = validatePredicateGraph predicates := by
  have hshape : validatePredicateShape (predicates.map fun _ q => φ q) =
      validatePredicateShape predicates := by
    rw [validatePredicateShape, validatePredicateShape, Std.ExtTreeMap.toList_map,
      Std.ExtTreeMap.keys_map, List.forM_eq_forM, List.forM_map]
    simp only [h.references]
  have hedges : edgesIn (predicates.map fun _ q => φ q) = edgesIn predicates := by
    funext n
    have hcomp : (edgesOf ∘ fun q => φ q) = edgesOf := funext h.edges
    rw [edgesIn, edgesIn, Std.ExtTreeMap.getElem?_map, Option.map_map, hcomp]
  rw [validatePredicateGraph, validatePredicateGraph, hshape, hedges, Std.ExtTreeMap.keys_map]

theorem validateTarget_map (t : Target) (predicates : Predicates) (at_ : JsonPath) :
    validateTarget t (predicates.map fun _ q => φ q) at_ = validateTarget t predicates at_ := by
  cases t with
  | absolute p => rfl
  | expression raw =>
    have hcomp : (isTargetKind ∘ fun q => φ q) = isTargetKind := funext h.target
    simp only [validateTarget_expression, Std.ExtTreeMap.getElem?_map, Option.map_map, hcomp,
      Std.ExtTreeMap.keys_map]

theorem validateSteps_map (inWatch : Bool) (steps : List Step) (predicates : Predicates)
    (base : JsonPath) : validateSteps inWatch steps (predicates.map fun _ q => φ q) base =
      validateSteps inWatch steps predicates base := by
  have hstep : ∀ s at_, validateStep s (predicates.map fun _ q => φ q) inWatch at_ =
      validateStep s predicates inWatch at_ := by
    intro s at_
    cases s <;> simp only [validateStep, validateTarget_map h, resolveStepName,
      Std.ExtTreeMap.keys_map]
  simp only [validateSteps, hstep]

theorem validateWatchWhen_map (w : WatchWhen) (predicates : Predicates) (at_ : JsonPath) :
    validateWatchWhen (w.mapPredicates φ) (predicates.map fun _ q => φ q) at_ =
      validateWatchWhen w predicates at_ := by
  cases w with
  | byName name => simp only [validateWatchWhen, WatchWhen.mapPredicates, Std.ExtTreeMap.keys_map]
  | inline q =>
    have hinsert : (predicates.map fun _ q => φ q).insert synthetic (φ q) =
        (predicates.insert synthetic q).map fun _ q => φ q := by
      apply Std.ExtTreeMap.ext_getElem?
      intro n
      simp only [Std.ExtTreeMap.getElem?_map, Std.ExtTreeMap.getElem?_insert]
      split <;> rfl
    simp only [validateWatchWhen, WatchWhen.mapPredicates, hinsert, Std.ExtTreeMap.mem_map,
      validatePredicateGraph_map h]

theorem validateWatches_map (watches : List Watch) (predicates : Predicates) :
    validateWatches (watches.map (Watch.mapPredicates φ)) (predicates.map fun _ q => φ q) =
      validateWatches watches predicates := by
  have hwatch : ∀ w at_, validateWatch (Watch.mapPredicates φ w) (predicates.map fun _ q => φ q) at_ =
      validateWatch w predicates at_ := by
    intro w at_
    have hlifetime : validateLifetime w.lifetime (predicates.map fun _ q => φ q) (at_.key "lifetime") =
        validateLifetime w.lifetime predicates (at_.key "lifetime") := by
      cases hl : w.lifetime <;> simp only [validateLifetime, Std.ExtTreeMap.keys_map]
    rw [validateWatch, validateWatch, Watch.mapPredicates, validateWatchWhen_map h, validateWatchSteps,
      validateWatchSteps, validateSteps_map h, hlifetime]
  rw [validateWatches, validateWatches, List.zipIdx_map, List.forM_eq_forM, List.forM_map]
  simp only [Prod.map, hwatch, id]

end Retouched

section Fits

variable {S : String → Prop} {φ : PredicateKind → PredicateKind}

theorem fits_mapPredicates (h : ∀ q, PredicateKind.Fits S (φ q) ↔ q.Fits S) (p : Program) :
    (p.mapPredicates φ).Fits S ↔ p.Fits S := by
  have hwhen : ∀ w : WatchWhen, WatchWhen.Fits S (w.mapPredicates φ) ↔ w.Fits S := by
    intro w
    cases w with
    | byName name => rfl
    | inline q => exact h q
  constructor
  · intro hp
    refine ⟨hp.version, hp.name, hp.trigger, fun n q hq => ?_, fun w hw => ?_, hp.body,
      hp.onComplete, hp.onFail, hp.labels, hp.priority⟩
    · have hmapped : (p.mapPredicates φ).predicates[n]? = some (φ q) := by
        rw [Program.mapPredicates, Std.ExtTreeMap.getElem?_map, hq]
        rfl
      obtain ⟨hn, hfits⟩ := hp.predicates n (φ q) hmapped
      exact ⟨hn, (h q).mp hfits⟩
    · have hmapped := hp.watches _ (List.mem_map_of_mem (f := Watch.mapPredicates φ) hw)
      exact ⟨(hwhen _).mp hmapped.when_, hmapped.steps, hmapped.lifetime⟩
  · intro hp
    refine ⟨hp.version, hp.name, hp.trigger, fun n q hq => ?_, fun w hw => ?_, hp.body,
      hp.onComplete, hp.onFail, hp.labels, hp.priority⟩
    · rw [Program.mapPredicates, Std.ExtTreeMap.getElem?_map] at hq
      obtain ⟨q', hq', rfl⟩ := Option.map_eq_some_iff.mp hq
      obtain ⟨hn, hfits⟩ := hp.predicates n q' hq'
      exact ⟨hn, (h q').mpr hfits⟩
    · obtain ⟨w', hw', rfl⟩ := List.mem_map.mp hw
      have hw'' := hp.watches w' hw'
      exact ⟨(hwhen _).mpr hw''.when_, hw''.steps, hw''.lifetime⟩

theorem fits_plain (q : PredicateKind) : (q.mapFloats F64.plain).Fits S ↔ q.Fits S := by
  cases q with
  | template image confidence region throttleMs =>
    rw [PredicateKind.mapFloats, PredicateKind.Fits, PredicateKind.Fits, F64.isFinite_plain]
  | pixelDiff region baseline threshold =>
    rw [PredicateKind.mapFloats, PredicateKind.Fits, PredicateKind.Fits, F64.isFinite_plain]
  | _ => rfl

theorem spelled_of_wellFormed {v : Json} (h : v.WellFormed) : v.Spelled fun _ => True :=
  h.imp (fun _ hn => hn) (fun _ hs => hs) fun _ hkeys => ⟨hkeys, fun _ _ => trivial⟩

theorem parseEnvelopeValue_ok {X : Crates} {v : Json} {p : Program}
    (h : parseEnvelopeValue X v = .ok p) :
    Program.fromValue X.parseId v = some p ∧ major p.version = supportedDslMajor := by
  cases v with
  | object entries =>
    rw [parseEnvelopeValue] at h
    split at h
    next => cases h
    next ver hver =>
      split at h
      next => cases h
      next hmajor =>
        split at h
        next program hread =>
          obtain rfl := Except.ok.inj h
          have hversion := Program.lookup_version hread
          rw [hver] at hversion
          refine ⟨hread, ?_⟩
          rw [← Json.string.inj (Option.some.inj hversion)]
          exact not_not.mp hmajor
        next => cases h
    next => cases h
  | _ => cases h

theorem Accepted.fits {X : Crates} {p : Program} (h : Accepted X p) : p.Fits fun _ => True := by
  obtain ⟨v, hashes, hv⟩ := h
  obtain ⟨q, hparse, hfinish⟩ := Fallible.bind_eq_ok.mp hv
  obtain ⟨-, rfl⟩ := finish_ok hfinish
  exact Program.gives X.parseId v.1 (spelled_of_wellFormed v.2) _ (parseEnvelopeValue_ok hparse).1

theorem Accepted.major {X : Crates} {p : Program} (h : Accepted X p) :
    major p.version = supportedDslMajor := by
  obtain ⟨v, hashes, hv⟩ := h
  obtain ⟨q, hparse, hfinish⟩ := Fallible.bind_eq_ok.mp hv
  obtain ⟨-, rfl⟩ := finish_ok hfinish
  exact (parseEnvelopeValue_ok hparse).2

theorem Accepted.finish {X : Crates} {p : Program} (h : Accepted X p) :
    ∃ hashes, finish X p = .ok ⟨p, hashes⟩ := by
  obtain ⟨v, hashes, hv⟩ := h
  obtain ⟨q, -, hfinish⟩ := Fallible.bind_eq_ok.mp hv
  obtain ⟨-, rfl⟩ := finish_ok hfinish
  exact ⟨hashes, hfinish⟩

theorem computePredicateHashes_ok (X : Crates) {predicates : Predicates}
    (h : ∀ (n : String) q, predicates[n]? = some q → PredicateKind.Fits (fun _ => True) q) :
    ∃ hashes, computePredicateHashes X predicates = .ok hashes := by
  have hall : ∀ e ∈ predicates.toList, ∃ hash, predicateHash X.nfc X.ryu e.2.toValue = .ok hash := by
    intro e he
    have hfits := h e.1 e.2 (Std.ExtTreeMap.mem_toList_iff_getElem?_eq_some.mp he)
    have hspelled := PredicateKind.spelled_toValue (fun _ _ => trivial) hfits
    rw [predicateHash, canonicalize_eq hspelled.wellFormed]
    exact ⟨_, rfl⟩
  rw [computePredicateHashes]
  generalize (∅ : PredicateHashes) = out
  generalize predicates.toList = entries at hall ⊢
  induction entries generalizing out with
  | nil => exact ⟨out, rfl⟩
  | cons e entries ih =>
    obtain ⟨⟨hash, hhash⟩, hrest⟩ := List.forall_mem_cons.mp hall
    rw [List.foldlM_cons, hhash]
    exact ih _ hrest

theorem finish_mapPredicates {X : Crates} {φ : PredicateKind → PredicateKind} (h : Retouches φ)
    {p : Program} (hp : ∃ hashes, Dsl.finish X p = .ok ⟨p, hashes⟩)
    (hfits : (p.mapPredicates φ).Fits fun _ => True) :
    ∃ hashes, Dsl.finish X (p.mapPredicates φ) = .ok ⟨p.mapPredicates φ, hashes⟩ := by
  obtain ⟨hashes, hp⟩ := hp
  obtain ⟨⟨⟩, hgraph, hp⟩ := Fallible.bind_eq_ok.mp hp
  obtain ⟨⟨⟩, htrigger, hp⟩ := Fallible.bind_eq_ok.mp hp
  obtain ⟨⟨⟩, hwatches, hp⟩ := Fallible.bind_eq_ok.mp hp
  obtain ⟨⟨⟩, hbody, -⟩ := Fallible.bind_eq_ok.mp hp
  obtain ⟨hashes', hhashes⟩ := computePredicateHashes_ok X fun n q hq => (hfits.predicates n q hq).2
  refine ⟨hashes', ?_⟩
  rw [← validatePredicateGraph_map h] at hgraph
  rw [← validateWatches_map h] at hwatches
  rw [validateBodySteps, ← validateSteps_map h] at hbody
  have htrigger' : validateTrigger p.trigger (p.mapPredicates φ).predicates = .ok () := by
    rw [← htrigger, validateTrigger.eq_def, validateTrigger.eq_def, Program.mapPredicates,
      Std.ExtTreeMap.keys_map]
  exact Fallible.bind_eq_ok.mpr ⟨(), hgraph, Fallible.bind_eq_ok.mpr ⟨(), htrigger',
    Fallible.bind_eq_ok.mpr ⟨(), hwatches, Fallible.bind_eq_ok.mpr ⟨(), hbody,
    Fallible.bind_eq_ok.mpr ⟨hashes', hhashes, rfl⟩⟩⟩⟩⟩

end Fits

section Reload

/-- `materialize_predicate`: the image of a template is referred to by the digest of its content.
The digest of what is found under a path is a parameter. -/
def materializeImageRef (digest : String → String) (image : String) : String :=
  if "sha256:".toList.isPrefixOf image.toList then image else "sha256:" ++ digest image

def materializePredicate (digest : String → String) : PredicateKind → PredicateKind
  | .template image confidence region throttleMs =>
    .template (materializeImageRef digest image) confidence region throttleMs
  | p => p

/-- The program that `handle_submit` stores and hands to the scheduler. -/
def materialize (digest : String → String) (p : Program) : Program :=
  p.mapPredicates (materializePredicate digest)

theorem retouches_materializePredicate (digest : String → String) :
    Retouches (materializePredicate digest) where
  references q _ _ := by cases q <;> rfl
  edges q := by cases q <;> rfl
  target q := by cases q <;> rfl

theorem fits_materializePredicate (digest : String → String) (q : PredicateKind) :
    (materializePredicate digest q).Fits (fun _ => True) ↔ q.Fits fun _ => True := by
  cases q <;> rfl

def Equal (p q : Program) : Prop :=
  p.mapPredicates (.mapFloats F64.plain) = q.mapPredicates (.mapFloats F64.plain)

variable (X : Crates) (readF64 : List Char → Option F64)

/-- What a restart or a resume makes of the stored bytes. -/
def reload (bytes : List UInt8) : Option Program :=
  match Reader.fromSlice readF64 bytes with
  | none => none
  | some v =>
    match validateValue X v with
    | .ok out => some out.program
    | .error _ => none

def Reloads (p : Program) : Prop :=
  ∃ bytes q, canonicalize X.nfc X.ryu p.toValue = .ok bytes ∧ reload X readF64 bytes = some q ∧
    Equal q p

/-- What is known of the other crates. -/
structure Lawful : Prop where
  idempotent : ∀ s, X.nfc (X.nfc s) = X.nfc s
  ascii : ∀ s, Ascii s → X.nfc s = s
  parseId : ∀ id, X.parseId id.toString = some id
  shortest : Shortest X.ryu readF64

variable {X readF64}

theorem reload_eq_some {bytes : List UInt8} {p : Program} (h : reload X readF64 bytes = some p) :
    ∃ v, Reader.fromSlice readF64 bytes = some v ∧ Program.fromValue X.parseId v = some p := by
  rw [reload] at h
  split at h
  next => exact nomatch h
  next v hv =>
    split at h
    next out hout =>
      obtain ⟨q, hparse, hfinish⟩ := Fallible.bind_eq_ok.mp hout
      obtain ⟨-, hprogram⟩ := finish_ok hfinish
      rw [hprogram] at h
      obtain rfl := Option.some.inj h
      exact ⟨v, hv, (parseEnvelopeValue_ok hparse).1⟩
    next => exact nomatch h

theorem equal_plain (p : Program) : Equal (p.mapPredicates (.mapFloats F64.plain)) p := by
  have hplain : ∀ f : F64, f.plain.plain = f.plain := by
    intro f
    by_cases hf : f.rank = 0
    · have hzero : f.plain = ⟨0#64⟩ := if_pos hf
      rw [hzero]
      rfl
    · have hsame : f.plain = f := if_neg hf
      rw [hsame, hsame]
  have htwice : (fun q : PredicateKind => (q.mapFloats F64.plain).mapFloats F64.plain) =
      PredicateKind.mapFloats F64.plain := by
    funext q
    cases q <;> simp only [PredicateKind.mapFloats, hplain]
  rw [Equal, Program.mapPredicates_comp, htwice]

theorem each_arrange {nfc : String → String} (hidem : ∀ s, nfc (nfc s) = nfc s) {v : Json}
    (h : v.WellFormed) : (v.arrange nfc utf8).Each JsonNumber.Representable (fun s => nfc s = s)
      fun keys => ∀ k ∈ keys, nfc k = k := by
  induction v using Json.induct with
  | null => trivial
  | bool b => trivial
  | number n => exact JsonNumber.representable_plain h
  | string s => exact hidem s
  | array items ih =>
    rw [Json.arrange_array]
    refine Json.each_array.mpr fun w hw => ?_
    obtain ⟨v, hv, rfl⟩ := List.mem_map.mp hw
    exact ih v hv (Json.each_array.mp h v hv)
  | object entries ih =>
    obtain ⟨-, hentries⟩ := Json.each_object.mp h
    rw [Json.arrange_object]
    refine Json.each_object.mpr ⟨fun k hk => ?_, fun e he => ?_⟩
    · rw [List.map_map] at hk
      obtain ⟨e, -, rfl⟩ := List.mem_map.mp hk
      exact hidem e.1
    · obtain ⟨e', he', rfl⟩ := List.mem_map.mp he
      exact ih e' (Sorting.mem_byKey.mp he') (hentries e' (Sorting.mem_byKey.mp he'))

theorem fits_of_reloads (h : Lawful X readF64) {p : Program} (hp : p.Fits fun _ => True)
    (hreloads : Reloads X readF64 p) : p.Fits fun s => X.nfc s = s := by
  obtain ⟨bytes, q, hbytes, hreload, hequal⟩ := hreloads
  have hwell := (Program.spelled_toValue (fun _ _ => trivial) hp).wellFormed
  obtain ⟨v, hv, hread⟩ := reload_eq_some hreload
  have harrange := each_arrange h.idempotent hwell
  have hprintable : (p.toValue.arrange X.nfc utf8).Printable :=
    harrange.imp (fun _ hn => hn) (fun _ _ => trivial) fun _ _ => trivial
  rw [canonicalize_eq hwell] at hbytes
  rw [← Except.ok.inj hbytes, fromSlice_merged h.shortest hprintable] at hv
  -- Keys that have one normal form are merged; those that are left are in normal form.
  have hspelled : v.Spelled fun s => X.nfc s = s := by
    rw [← Option.some.inj hv]
    exact Json.each_merged harrange
  have hq := Program.gives X.parseId v hspelled q hread
  rw [← fits_mapPredicates fits_plain] at hq ⊢
  rwa [← hequal]

theorem reloads_of_fits (h : Lawful X readF64) {p : Program}
    (hp : p.Fits fun s => X.nfc s = s) (hfits : p.Fits fun _ => True)
    (hmajor : major p.version = supportedDslMajor)
    (hfinish : ∃ hashes, finish X p = .ok ⟨p, hashes⟩) : Reloads X readF64 p := by
  have hspelled := Program.spelled_toValue h.ascii hp
  obtain ⟨bytes, hbytes, hread⟩ := canonicalize_fixed h.shortest hspelled.wellFormed hspelled.fixed
  have hparse := parseEnvelopeValue_toValue (X := X) rendering_arrange hp
    (fun id _ => h.parseId id) hmajor
  obtain ⟨hashes, hplain⟩ := finish_mapPredicates (retouches_mapFloats F64.plain) hfinish
    ((fits_mapPredicates fits_plain p).mpr hfits)
  have hvalid : validateValue X (p.toValue.arrange id utf8) = .ok ⟨_, hashes⟩ :=
    Fallible.bind_eq_ok.mpr ⟨_, hparse, hplain⟩
  refine ⟨bytes, _, hbytes, ?_, equal_plain p⟩
  rw [reload, hread]
  dsimp only
  rw [hvalid]

/-- A stored program is reloaded as it was exactly if every text in it is in normal form: its
version, its names and labels, the texts and keys of its steps, and the names it refers to. -/
theorem stored_program_reloads_iff (h : Lawful X readF64) {p : Program} (haccepted : Accepted X p)
    (digest : String → String) :
    Reloads X readF64 (materialize digest p) ↔
      (materialize digest p).Fits fun s => X.nfc s = s := by
  have hfits : (materialize digest p).Fits fun _ => True :=
    (fits_mapPredicates (fits_materializePredicate digest) p).mpr haccepted.fits
  have hfinish := finish_mapPredicates (retouches_materializePredicate digest) haccepted.finish hfits
  exact ⟨fits_of_reloads h hfits, fun hnormal =>
    reloads_of_fits h hnormal hfits haccepted.major hfinish⟩

section Acute

def acuteCrates : Crates :=
  ⟨composeAcute, printBits, fun s => some ⟨BitVec.ofNat 128 (readHex s.toList)⟩,
    fun _ => "no program"⟩

theorem compose_ascii {text : List Char} (h : ∀ c ∈ text, c.toNat < 128) : compose text = text := by
  fun_induction compose text with
  | case1 => rfl
  | case2 text ih =>
    have haccent := h '\u0301' (by simp)
    exact absurd haccent (by decide)
  | case3 c text hother ih => rw [ih fun d hd => h d (List.mem_cons_of_mem c hd)]

theorem acuteCrates_lawful : Lawful acuteCrates readBits where
  idempotent := composeAcute_idem
  ascii s hs := by
    show String.ofList (compose s.toList) = s
    rw [compose_ascii hs, String.ofList_toList]
  parseId := readId_toString
  shortest := shortest_printBits

def typing (text : String) : Program := { Program.blank "p" with body := [.type text] }

theorem typing_fits {S : String → Prop} {text : String} (hversion : S "0.1") (hname : S "p")
    (htext : S text) : (typing text).Fits S where
  version := hversion
  name := hname
  trigger := trivial
  predicates := by simp [typing, Program.blank]
  watches := fun _ hw => nomatch hw
  body := fun s hs => by
    obtain rfl := List.mem_singleton.mp hs
    exact htext
  onComplete := fun _ hs => nomatch hs
  onFail := fun _ hs => nomatch hs
  labels := by simp [typing, Program.blank]
  priority := inI32_zero

theorem typing_accepted {text : String} (h : (finish acuteCrates (typing text)).isOk = true) :
    Accepted acuteCrates (typing text) :=
  accepted_of_fits (typing_fits trivial trivial trivial) (fun _ hid => nomatch hid)
    (show major "0.1" = supportedDslMajor by decide) h

theorem stored_program_reloads_composed :
    Reloads acuteCrates readBits (materialize id (typing "é")) := by
  have hfits : (materialize id (typing "é")).Fits fun s => acuteCrates.nfc s = s :=
    typing_fits (by decide) (by decide) (by decide)
  exact (stored_program_reloads_iff acuteCrates_lawful (typing_accepted (by decide +kernel)) id).mpr
    hfits

/-- A text that is typed in two characters and comes back from the store as one. -/
theorem stored_program_changes :
    Accepted acuteCrates (typing "e\u0301") ∧
      ¬ Reloads acuteCrates readBits (materialize id (typing "e\u0301")) ∧
      ((canonicalize composeAcute printBits (materialize id (typing "e\u0301")).toValue).toOption.bind
        (reload acuteCrates readBits)).map Program.body = some [.type "é"] := by
  refine ⟨typing_accepted (by decide +kernel), fun hreloads => ?_, by decide +kernel⟩
  have hfits := fits_of_reloads acuteCrates_lawful (typing_fits trivial trivial trivial) hreloads
  have htext : composeAcute "e\u0301" = "e\u0301" := hfits.body _ List.mem_cons_self
  exact absurd htext (by decide)

end Acute

end Reload

end Vcli.Dsl

import Vcli.Daemon.Images
import Vcli.Dsl.Accepted
import Vcli.Store.BlobPath

/-! The references of a program to what is in the asset store already. What stands behind
`sha256:` goes into a path as it is, and what is read there is not looked at. -/

namespace Vcli

/-- The directories of the daemon, what reading a path gives, and what opening a path gives that
is not the one of a blob. -/
structure Volume where
  dataRoot : String
  cwd : Pathname.Place
  read : String → Except String (List UInt8)
  elsewhere : AssetStore → List Char → Except String (Option (List UInt8))

structure Loading where
  store : AssetStore
  out : MaterializedAssets
  opened : List (List Char)

def hashOf (image : String) : Option String :=
  if "sha256:".toList.isPrefixOf image.toList then some (String.ofList (image.toList.drop 7))
  else none

namespace Opening

/-- Materializing with the panics of `asset_blob_path`. -/
abbrev Materializing := Fallible Loading Ipc.ErrorPayload PathPanic

def storeError (path : List Char) (source : String) : Ipc.ErrorPayload :=
  { code := .internal
    message := "store: io at " ++ (String.ofList path).quote ++ ": " ++ source }

section Materialize
variable (v : Volume) (baseDir : Option String) (nowMs : UnixMs)

def found (a : AssetStore) (hash : String) (path : List Char) :
    Except String (Option (List UInt8)) :=
  if staysInside hash && ((a.extensionOf hash).all fun ext => !ext.toList.contains '/') then
    .ok (a.getAsset hash)
  else v.elsewhere a path

def getAsset (hash : String) : Materializing (Option (List UInt8)) := do
  let s ← Fallible.get
  match assetBlobPath v.dataRoot hash (s.store.extensionOf hash) with
  | .error panic => Fallible.crash panic
  | .ok path =>
    Fallible.modify fun s => { s with opened := s.opened ++ [path] }
    match found v s.store hash path with
    | .error source => Fallible.fail (storeError path source)
    | .ok bytes => pure bytes

def putAsset (bytes : List UInt8) (extension : Option String) : Materializing Unit :=
  match assetBlobPath v.dataRoot (AssetHash.ofBytes bytes) extension with
  | .error panic => Fallible.crash panic
  | .ok _ => Fallible.modify fun s =>
    { s with store := (s.store.putAsset bytes extension nowMs).2 }

def readTemplate (image : String) : Except Ipc.ErrorPayload (String × List UInt8) :=
  let resolved :=
    if isAbsolute image then some image else baseDir.map fun base => joinPath base image
  match resolved with
  | none => .error (AssetMaterializeError.missingBaseDir image)
  | some path => match v.read path with
    | .error source => .error (AssetMaterializeError.io path source)
    | .ok bytes => .ok (path, bytes)

def materializeImageRef (image : String) : Materializing String :=
  match hashOf image with
  | some hash => do
    match ← getAsset v hash with
    | none => Fallible.fail (AssetMaterializeError.unknownAsset hash)
    | some bytes =>
      Fallible.modify fun s => { s with out := s.out.insert hash bytes }
      return image
  | none =>
    match readTemplate v baseDir image with
    | .error e => Fallible.fail e
    | .ok (path, bytes) => do
      putAsset v nowMs bytes (extensionOf path)
      Fallible.modify fun s => { s with out := s.out.insert (AssetHash.ofBytes bytes) bytes }
      return "sha256:" ++ AssetHash.ofBytes bytes

def materializeTemplateAssets (a : AssetStore) (program : Program) :
    Except PathPanic (Except Ipc.ErrorPayload Program × Loading) :=
  rewriteProgram (materializeImageRef v baseDir nowMs) program ⟨a, ⟨∅, []⟩, []⟩

end Materialize

section Steps
variable (v : Volume) (baseDir : Option String) (nowMs : UnixMs) {image hash : String} {s : Loading}

theorem putAsset_apply (bytes : List UInt8) {extension : Option String} (hext : Simple extension)
    (s : Loading) : putAsset v nowMs bytes extension s =
      .ok (.ok (), { s with store := (s.store.putAsset bytes extension nowMs).2 }) := by
  obtain ⟨path, hpath, _⟩ := (isDigest_ofBytes bytes).addressable hext v.dataRoot v.cwd
  rw [putAsset, hpath]
  rfl

theorem ref_panics (himage : hashOf image = some hash) {panic : PathPanic}
    (hpath : assetBlobPath v.dataRoot hash (s.store.extensionOf hash) = .error panic) :
    materializeImageRef v baseDir nowMs image s = .error panic := by
  have hget : getAsset v hash s = .error panic := by
    rw [getAsset, Fallible.bind_apply_eq]
    simp only [Fallible.get, hpath]
    rfl
  rw [materializeImageRef, himage]
  exact Fallible.bind_crashes hget _

theorem ref_apply_hash (himage : hashOf image = some hash) {path : List Char}
    (hpath : assetBlobPath v.dataRoot hash (s.store.extensionOf hash) = .ok path) :
    materializeImageRef v baseDir nowMs image s = match found v s.store hash path with
      | .error source =>
        .ok (.error (storeError path source), { s with opened := s.opened ++ [path] })
      | .ok none => .ok (.error (AssetMaterializeError.unknownAsset hash),
          { s with opened := s.opened ++ [path] })
      | .ok (some bytes) =>
        .ok (.ok image, ⟨s.store, s.out.insert hash bytes, s.opened ++ [path]⟩) := by
  have hget : getAsset v hash s = match found v s.store hash path with
      | .error source => .ok (.error (storeError path source),
          { s with opened := s.opened ++ [path] })
      | .ok bytes => .ok (.ok bytes, { s with opened := s.opened ++ [path] }) := by
    rw [getAsset, Fallible.bind_apply_eq]
    simp only [Fallible.get, hpath]
    cases found v s.store hash path <;> rfl
  rw [materializeImageRef, himage]
  dsimp only
  rw [Fallible.bind_apply_eq, hget]
  rcases found v s.store hash path with source | _ | bytes <;> rfl

theorem ref_opens (himage : hashOf image = some hash) {path : List Char}
    (hpath : assetBlobPath v.dataRoot hash (s.store.extensionOf hash) = .ok path) :
    (∃ e, materializeImageRef v baseDir nowMs image s =
        .ok (.error e, { s with opened := s.opened ++ [path] })) ∨
      ∃ bytes, found v s.store hash path = .ok (some bytes) ∧
        materializeImageRef v baseDir nowMs image s =
          .ok (.ok image, ⟨s.store, s.out.insert hash bytes, s.opened ++ [path]⟩) := by
  rw [ref_apply_hash v baseDir nowMs himage hpath]
  rcases found v s.store hash path with source | _ | bytes
  · exact .inl ⟨_, rfl⟩
  · exact .inl ⟨_, rfl⟩
  · exact .inr ⟨bytes, rfl, rfl⟩

theorem ref_apply_file (himage : hashOf image = none) (s : Loading) :
    materializeImageRef v baseDir nowMs image s = match readTemplate v baseDir image with
      | .error e => .ok (.error e, s)
      | .ok (path, bytes) => .ok (.ok ("sha256:" ++ AssetHash.ofBytes bytes),
          ⟨(s.store.putAsset bytes (extensionOf path) nowMs).2,
            s.out.insert (AssetHash.ofBytes bytes) bytes, s.opened⟩) := by
  rw [materializeImageRef, himage]
  rcases readTemplate v baseDir image with e | ⟨path, bytes⟩
  · rfl
  · dsimp only
    rw [Fallible.bind_apply_eq, putAsset_apply v nowMs bytes (simple_extensionOf path) s]
    rfl

theorem ref_reads (himage : hashOf image = none) (s : Loading) :
    (∃ e, materializeImageRef v baseDir nowMs image s = .ok (.error e, s)) ∨
      ∃ path bytes, readTemplate v baseDir image = .ok (path, bytes) ∧
        materializeImageRef v baseDir nowMs image s =
          .ok (.ok ("sha256:" ++ AssetHash.ofBytes bytes),
            ⟨(s.store.putAsset bytes (extensionOf path) nowMs).2,
              s.out.insert (AssetHash.ofBytes bytes) bytes, s.opened⟩) := by
  rw [ref_apply_file v baseDir nowMs himage s]
  rcases readTemplate v baseDir image with e | ⟨path, bytes⟩
  · exact .inl ⟨e, rfl⟩
  · exact .inr ⟨path, bytes, rfl, rfl⟩

end Steps

section Runs
variable (v : Volume) (baseDir : Option String) (nowMs : UnixMs) {image hash : String}
  {s s' t : Loading} {images as : List String}

open Fallible

def Contained (s : Loading) : Prop :=
  ∀ path ∈ s.opened, Pathname.Under v.cwd (assetsRoot v.dataRoot) path

def AllAddressable (s : Loading) (images : List String) : Prop :=
  ∀ image t, Reached (materializeImageRef v baseDir nowMs) s images image t →
    ∀ hash, hashOf image = some hash →
      Addressable v.dataRoot v.cwd hash (t.store.extensionOf hash)

theorem contained_append {path : List Char} {store : AssetStore} {out : MaterializedAssets} :
    Contained v ⟨store, out, s.opened ++ [path]⟩ ↔
      Contained v s ∧ Pathname.Under v.cwd (assetsRoot v.dataRoot) path := by
  constructor
  · intro h
    exact ⟨fun p hp => h p (List.mem_append_left _ hp),
      h path (List.mem_append_right _ List.mem_cons_self)⟩
  · rintro ⟨h, hpath⟩ p hp
    rcases List.mem_append.mp hp with hp | hp
    · exact h p hp
    · rwa [List.mem_singleton.mp hp]

/-- No panic, and no path that leads out of the store: exactly where every reference by hash that
is reached is addressable. -/
theorem each_contained_iff (images : List String) (s : Loading) :
    (∃ s', (each (materializeImageRef v baseDir nowMs) images).Ends s s' ∧ Contained v s') ↔
      Contained v s ∧ AllAddressable v baseDir nowMs s images := by
  induction images generalizing s with
  | nil =>
    constructor
    · rintro ⟨s', ⟨r, hret⟩, hs'⟩
      obtain ⟨_, rfl⟩ := returns_pure.mp hret
      exact ⟨hs', fun _ _ h => absurd h not_reached_nil⟩
    · exact fun h => ⟨_, ⟨_, returns_pure.mpr ⟨rfl, rfl⟩⟩, h.1⟩
  | cons image images ih =>
    rw [AllAddressable, forall_reached_cons]
    cases himage : hashOf image with
    -- a reference by path stays where it is, and what it puts lies under its digest
    | none =>
      rcases ref_reads v baseDir nowMs himage s with ⟨e, hhead⟩ | ⟨path, bytes, _, hhead⟩
      · simp only [ends_cons_of_error hhead, exists_eq_left, forall_returned hhead]
        exact ⟨fun h => ⟨h, nofun, nofun⟩, fun h => h.1⟩
      · simp only [ends_cons_of_ok hhead, ih, forall_returned hhead]
        exact ⟨fun h => ⟨h.1, nofun, fun _ _ => h.2⟩, fun h => ⟨h.1, h.2.2 _ rfl⟩⟩
    | some hash =>
      cases hpath : assetBlobPath v.dataRoot hash (s.store.extensionOf hash) with
      | error panic =>
        -- a hash that is too short, or is cut inside a character, ends the call by a panic
        constructor
        · rintro ⟨s', hends, _⟩
          exact absurd hends (not_ends_cons (ref_panics v baseDir nowMs himage hpath))
        · rintro ⟨_, hhere, _⟩
          obtain ⟨path, hok, _⟩ := hhere hash rfl
          exact nomatch hpath.symm.trans hok
      | ok path =>
        have hhere : (∀ h, some hash = some h → Addressable v.dataRoot v.cwd h
            (s.store.extensionOf h)) ↔ Pathname.Under v.cwd (assetsRoot v.dataRoot) path := by
          constructor
          · intro h
            obtain ⟨path', hpath', hunder⟩ := h hash rfl
            rwa [Except.ok.inj (hpath.symm.trans hpath')]
          · rintro hunder h hh
            obtain rfl := Option.some.inj hh
            exact ⟨path, hpath, hunder⟩
        rw [hhere]
        rcases ref_opens v baseDir nowMs himage hpath with ⟨e, hhead⟩ | ⟨bytes, _, hhead⟩
        · simp only [ends_cons_of_error hhead, exists_eq_left, forall_returned hhead,
            contained_append]
          exact ⟨fun h => ⟨h.1, h.2, nofun⟩, fun h => ⟨h.1, h.2.1⟩⟩
        · simp only [ends_cons_of_ok hhead, ih, forall_returned hhead, contained_append]
          exact ⟨fun h => ⟨h.1.1, h.1.2, fun _ _ => h.2⟩, fun h => ⟨⟨h.1, h.2.1⟩, h.2.2 _ rfl⟩⟩

def Honest (out : MaterializedAssets) : Prop :=
  ∀ hash bytes, out.bytes[hash]? = some bytes → AssetHash.ofBytes bytes = hash

def AllGenuine (s : Loading) (images : List String) : Prop :=
  ∀ image t, Reached (materializeImageRef v baseDir nowMs) s images image t →
    ∀ hash path bytes, hashOf image = some hash → t.out.bytes[hash]? = none →
      assetBlobPath v.dataRoot hash (t.store.extensionOf hash) = .ok path →
      found v t.store hash path = .ok (some bytes) → AssetHash.ofBytes bytes = hash

theorem getElem?_insert (out : MaterializedAssets) (hash : String) (bytes : List UInt8)
    (key : String) : (out.insert hash bytes).bytes[key]? =
      if hash = key then some (out.bytes[hash]?.getD bytes) else out.bytes[key]? := by
  have hcmp : compare hash key = .eq ↔ hash = key := Std.compare_eq_iff_eq
  show (out.bytes.insertIfNew hash bytes)[key]? = _
  rw [Std.ExtTreeMap.getElem?_insertIfNew]
  by_cases hkey : hash = key
  · subst hkey
    rw [if_pos rfl]
    cases hget : out.bytes[hash]? with
    | none =>
      have hnot : hash ∉ out.bytes := by
        rw [Std.ExtTreeMap.mem_iff_isSome_getElem?, hget]
        exact Bool.false_ne_true
      rw [if_pos ⟨hcmp.mpr rfl, hnot⟩]
      rfl
    | some b =>
      have hmem : hash ∈ out.bytes := Std.ExtTreeMap.mem_iff_isSome_getElem?.mpr (by rw [hget]; rfl)
      rw [if_neg fun h => h.2 hmem]
      rfl
  · rw [if_neg fun h => hkey (hcmp.mp h.1), if_neg hkey]

theorem insert_keeps {out : MaterializedAssets} {hash key : String} {bytes b : List UInt8}
    (h : out.bytes[key]? = some b) : (out.insert hash bytes).bytes[key]? = some b := by
  rw [getElem?_insert]
  split_ifs with hkey
  · rw [hkey, h]
    rfl
  · exact h

theorem Honest.insert {out : MaterializedAssets} (h : Honest out) {bytes : List UInt8}
    (hnew : out.bytes[hash]? = none → AssetHash.ofBytes bytes = hash) :
    Honest (out.insert hash bytes) := by
  intro key b hb
  rw [getElem?_insert] at hb
  split_ifs at hb with hkey
  · subst hkey
    cases hget : out.bytes[hash]? with
    | none =>
      rw [hget] at hb
      rw [← Option.some.inj hb]
      exact hnew hget
    | some b' =>
      rw [hget] at hb
      rw [← Option.some.inj hb]
      exact h hash b' hget
  · exact h key b hb

theorem ref_returns {a : String} {s₁ : Loading}
    (h : (materializeImageRef v baseDir nowMs image).Returns s (.ok a) s₁) :
    ∃ hash bytes, s₁.out = s.out.insert hash bytes ∧
      ((hashOf image = none ∧ hash = AssetHash.ofBytes bytes) ∨
        (hashOf image = some hash ∧ ∃ path,
          assetBlobPath v.dataRoot hash (s.store.extensionOf hash) = .ok path ∧
          found v s.store hash path = .ok (some bytes))) := by
  cases himage : hashOf image with
  | none =>
    rcases ref_reads v baseDir nowMs himage s with ⟨e, he⟩ | ⟨path, bytes, _, hok⟩
    · exact nomatch (h.unique he).1
    · obtain ⟨_, rfl⟩ := h.unique hok
      exact ⟨_, bytes, rfl, .inl ⟨rfl, rfl⟩⟩
  | some hash =>
    cases hpath : assetBlobPath v.dataRoot hash (s.store.extensionOf hash) with
    | error panic => exact nomatch (ref_panics v baseDir nowMs himage hpath).symm.trans h
    | ok path =>
      rcases ref_opens v baseDir nowMs himage hpath with ⟨e, he⟩ | ⟨bytes, hfound, hok⟩
      · exact nomatch (h.unique he).1
      · obtain ⟨_, rfl⟩ := h.unique hok
        exact ⟨hash, bytes, rfl, .inr ⟨rfl, path, hpath, hfound⟩⟩

theorem chain_keeps (h : Chain (materializeImageRef v baseDir nowMs) s images as s')
    {key : String} {b : List UInt8} (hb : s.out.bytes[key]? = some b) :
    s'.out.bytes[key]? = some b := by
  induction h with
  | nil => exact hb
  | cons hhead _ ih =>
    obtain ⟨hash, bytes, hout, _⟩ := ref_returns v baseDir nowMs hhead
    apply ih
    rw [hout]
    exact insert_keeps hb

def Answers (out : MaterializedAssets) (image : String) : Prop :=
  ∀ hash, hashOf image = some hash →
    ∃ bytes, out.bytes[hash]? = some bytes ∧ AssetHash.ofBytes bytes = hash

theorem chain_answers_iff (h : Chain (materializeImageRef v baseDir nowMs) s images as s')
    (hs : Honest s.out) :
    (∀ image ∈ images, Answers s'.out image) ↔ AllGenuine v baseDir nowMs s images := by
  induction h with
  | nil => exact ⟨fun _ _ _ h => absurd h not_reached_nil, fun _ _ h => absurd h List.not_mem_nil⟩
  | @cons s s₁ s' image images a as hhead htail ih =>
    rw [AllGenuine, forall_reached_cons, forall_returned hhead, List.forall_mem_cons]
    obtain ⟨hash, bytes, hout, hkind⟩ := ref_returns v baseDir nowMs hhead
    -- later references add digests and replace none, so what stands under this one stays
    have hkept : s'.out.bytes[hash]? = some (s.out.bytes[hash]?.getD bytes) := by
      apply chain_keeps v baseDir nowMs htail
      rw [hout, getElem?_insert, if_pos rfl]
    constructor
    · rintro ⟨hhere, hrest⟩
      have hnew : s.out.bytes[hash]? = none → AssetHash.ofBytes bytes = hash := by
        intro hnone
        rcases hkind with ⟨_, rfl⟩ | ⟨himage, _⟩
        · rfl
        · obtain ⟨b, hb, hdigest⟩ := hhere hash himage
          rw [hkept, hnone] at hb
          rwa [← Option.some.inj hb] at hdigest
      have hs₁ : Honest s₁.out := hout ▸ hs.insert hnew
      refine ⟨?_, fun _ _ => (ih hs₁).mp hrest⟩
      intro hash' path bytes' himage' hnone hpath hfound
      rcases hkind with ⟨himage, _⟩ | ⟨himage, path', hpath', hfound'⟩
      · exact nomatch himage.symm.trans himage'
      · obtain rfl := Option.some.inj (himage.symm.trans himage')
        obtain rfl := Except.ok.inj (hpath'.symm.trans hpath)
        obtain rfl := Option.some.inj (Except.ok.inj (hfound'.symm.trans hfound))
        exact hnew hnone
    · rintro ⟨hhere, hrest⟩
      have hnew : s.out.bytes[hash]? = none → AssetHash.ofBytes bytes = hash := by
        intro hnone
        rcases hkind with ⟨_, rfl⟩ | ⟨himage, path, hpath, hfound⟩
        · rfl
        · exact hhere hash path bytes himage hnone hpath hfound
      have hs₁ : Honest s₁.out := hout ▸ hs.insert hnew
      refine ⟨?_, (ih hs₁).mpr (hrest a rfl)⟩
      intro hash' himage'
      rcases hkind with ⟨himage, _⟩ | ⟨himage, _⟩
      · exact nomatch himage.symm.trans himage'
      · obtain rfl := Option.some.inj (himage.symm.trans himage')
        refine ⟨_, hkept, ?_⟩
        refine hs₁ hash _ ?_
        rw [hout, getElem?_insert, if_pos rfl]

end Runs

section Results
variable (v : Volume) (baseDir : Option String) (nowMs : UnixMs)

def start (a : AssetStore) : Loading := ⟨a, ⟨∅, []⟩, []⟩

/-- It returns, all that it has opened is inside the asset store, and if it succeeds, what it
has for a reference by hash has this hash. -/
def ReferencesSafe (a : AssetStore) (program : Program) : Prop :=
  ∃ r s', materializeTemplateAssets v baseDir nowMs a program = .ok (r, s') ∧ Contained v s' ∧
    ((∃ program', r = .ok program') → ∀ image ∈ program.images, Answers s'.out image)

def AllLoad (a : AssetStore) (program : Program) : Prop :=
  ∃ as s', Fallible.Chain (materializeImageRef v baseDir nowMs) (start a) program.images as s'

theorem materializeTemplateAssets_returns {a : AssetStore} {program : Program} {s' : Loading} :
    ((∃ r, materializeTemplateAssets v baseDir nowMs a program = .ok (r, s')) ↔
      (Fallible.each (materializeImageRef v baseDir nowMs) program.images).Ends (start a) s') ∧
    ((∃ program', materializeTemplateAssets v baseDir nowMs a program = .ok (.ok program', s')) ↔
      ∃ as, Fallible.Chain (materializeImageRef v baseDir nowMs) (start a) program.images as s') := by
  have hmatch := rewriteProgram_matches (materializeImageRef v baseDir nowMs) program (start a)
  simp only [← Fallible.returns_each]
  unfold materializeTemplateAssets Fallible.Ends Fallible.Returns
  show ((∃ r, rewriteProgram (materializeImageRef v baseDir nowMs) program (start a) = .ok (r, s')) ↔ _) ∧
    ((∃ program', rewriteProgram (materializeImageRef v baseDir nowMs) program (start a) =
      .ok (.ok program', s')) ↔ _)
  generalize rewriteProgram (materializeImageRef v baseDir nowMs) program (start a) = x at hmatch ⊢
  generalize Fallible.each (materializeImageRef v baseDir nowMs) program.images (start a) = y at hmatch ⊢
  cases hmatch with
  | crash c => simp
  | error e t => simp
  | ok h t => simp

/-- References by hash are safe exactly where every one that is reached is addressable, and if
all of them load, what each is the first to bring is genuine. -/
theorem references_safe_iff (a : AssetStore) (program : Program) :
    ReferencesSafe v baseDir nowMs a program ↔
      AllAddressable v baseDir nowMs (start a) program.images ∧
        (AllLoad v baseDir nowMs a program →
          AllGenuine v baseDir nowMs (start a) program.images) := by
  have hstart : Contained v (start a) := fun _ h => absurd h List.not_mem_nil
  have hhonest : Honest (start a).out := by
    intro hash bytes hb
    simp [start] at hb
  have hcontained := each_contained_iff v baseDir nowMs program.images (start a)
  rw [and_iff_right hstart] at hcontained
  rw [← hcontained]
  constructor
  · rintro ⟨r, s', hret, hs', hanswers⟩
    refine ⟨⟨s', (materializeTemplateAssets_returns v baseDir nowMs).1.mp ⟨r, hret⟩, hs'⟩, ?_⟩
    rintro ⟨as, t, hchain⟩
    obtain ⟨program', hok⟩ := (materializeTemplateAssets_returns v baseDir nowMs).2.mpr ⟨as, hchain⟩
    obtain ⟨rfl, rfl⟩ := Prod.mk.inj (Except.ok.inj (hret.symm.trans hok))
    exact (chain_answers_iff v baseDir nowMs hchain hhonest).mp (hanswers ⟨program', rfl⟩)
  · rintro ⟨⟨s', hends, hs'⟩, hgenuine⟩
    obtain ⟨r, hret⟩ := (materializeTemplateAssets_returns v baseDir nowMs).1.mpr hends
    refine ⟨r, s', hret, hs', ?_⟩
    rintro ⟨program', rfl⟩
    obtain ⟨as, hchain⟩ := (materializeTemplateAssets_returns v baseDir nowMs).2.mp ⟨program', hret⟩
    exact (chain_answers_iff v baseDir nowMs hchain hhonest).mpr (hgenuine ⟨as, s', hchain⟩)

theorem simple_extensionOf_proper {a : AssetStore} (h : a.Proper) (hash : String) :
    Simple (a.extensionOf hash) := by
  unfold AssetStore.extensionOf
  cases hrow : a.rows.get hash with
  | none => exact fun _ hext => nomatch hext
  | some row => exact (h.rows hash row hrow).2

theorem allAddressable_of_digests {a : AssetStore} (ha : a.Proper) {images : List String}
    (h : ∀ image ∈ images, ∀ hash, hashOf image = some hash → IsDigest hash) :
    AllAddressable v baseDir nowMs (start a) images := by
  rintro image t ⟨done, rest, as, rfl, hchain⟩ hash himage
  have ht : t.store.Proper := by
    refine hchain.invariant (I := fun s => s.store.Proper) ha ?_
    intro s s' image a hret hs
    cases hi : hashOf image with
    | none =>
      rcases ref_reads v baseDir nowMs hi s with ⟨e, he⟩ | ⟨path, bytes, _, hok⟩
      · exact nomatch (hret.unique he).1
      · obtain ⟨_, rfl⟩ := hret.unique hok
        exact hs.putAsset bytes (simple_extensionOf path) nowMs
    | some hash =>
      cases hpath : assetBlobPath v.dataRoot hash (s.store.extensionOf hash) with
      | error panic => exact nomatch (ref_panics v baseDir nowMs hi hpath).symm.trans hret
      | ok path =>
        rcases ref_opens v baseDir nowMs hi hpath with ⟨e, he⟩ | ⟨bytes, _, hok⟩
        · exact nomatch (hret.unique he).1
        · obtain ⟨_, rfl⟩ := hret.unique hok
          exact hs
  have hdigest := h image (List.mem_append_right _ List.mem_cons_self) hash himage
  exact hdigest.addressable (simple_extensionOf_proper ht hash) v.dataRoot v.cwd

end Results

section Coarse
variable (v : Volume) (disk : Disk) (baseDir : Option String) (nowMs : UnixMs)

structure Agrees : Prop where
  read : disk.read = v.read
  behind : ∀ a hash path, assetBlobPath v.dataRoot hash (a.extensionOf hash) = .ok path →
    (if staysInside hash then .ok (a.getAsset hash) else disk.elsewhere hash) =
      (found v a hash path).mapError (storeError path)

theorem readTemplate_eq (h : Agrees v disk) (image : String) :
    Vcli.readTemplate disk baseDir image = match readTemplate v baseDir image with
      | .error e => Fallible.fail e
      | .ok r => pure r := by
  unfold Vcli.readTemplate readTemplate
  rw [h.read]
  dsimp only
  generalize (if isAbsolute image then some image else
    baseDir.map fun base => joinPath base image) = resolved
  cases resolved with
  | none => rfl
  | some path =>
    dsimp only
    cases v.read path <;> rfl

/-- Where nothing panics, a reference is materialized as in the model without paths. -/
theorem ref_refines (h : Agrees v disk) (image : String) :
    Fallible.Refines (fun s : Loading => (s.store, s.out)) (materializeImageRef v baseDir nowMs image)
      (Vcli.materializeImageRef disk baseDir nowMs image) := by
  intro s r s' hret
  unfold Vcli.materializeImageRef
  -- the reference takes the same branch in both models: by path, or by a digest behind its prefix
  cases himage : hashOf image with
  | none =>
    have hprefix : ¬ "sha256:".toList.isPrefixOf image.toList = true := by
      intro hp
      rw [hashOf, if_pos hp] at himage
      cases himage
    rw [if_neg hprefix, readTemplate_eq v disk baseDir h]
    rw [Fallible.Returns, ref_apply_file v baseDir nowMs himage] at hret
    generalize readTemplate v baseDir image = read at hret ⊢
    rcases read with e | ⟨path, bytes⟩
    · obtain ⟨rfl, rfl⟩ := Prod.mk.inj (Except.ok.inj hret)
      rfl
    · obtain ⟨rfl, rfl⟩ := Prod.mk.inj (Except.ok.inj hret)
      rfl
  | some hash =>
    have hprefix : "sha256:".toList.isPrefixOf image.toList = true ∧
        String.ofList (image.toList.drop 7) = hash := by
      unfold hashOf at himage
      split_ifs at himage with hp
      exact ⟨hp, Option.some.inj himage⟩
    rw [if_pos hprefix.1, hprefix.2]
    cases hpath : assetBlobPath v.dataRoot hash (s.store.extensionOf hash) with
    | error panic => cases (ref_panics v baseDir nowMs himage hpath).symm.trans hret
    | ok path =>
      have hbehind := h.behind s.store hash path hpath
      rw [Fallible.Returns, ref_apply_hash v baseDir nowMs himage hpath] at hret
      rw [Fallible.Returns, Fallible.bind_apply_eq, getMaterialized, Fallible.bind_apply_eq]
      simp only [Fallible.get, hbehind]
      generalize found v s.store hash path = bytes? at hret ⊢
      rcases bytes? with source | _ | bytes
      · obtain ⟨rfl, rfl⟩ := Prod.mk.inj (Except.ok.inj hret)
        rfl
      · obtain ⟨rfl, rfl⟩ := Prod.mk.inj (Except.ok.inj hret)
        rfl
      · obtain ⟨rfl, rfl⟩ := Prod.mk.inj (Except.ok.inj hret)
        rfl

theorem materialize_refines (h : Agrees v disk) {a : AssetStore} {program : Program}
    {r : Except Ipc.ErrorPayload Program} {s' : Loading}
    (hret : materializeTemplateAssets v baseDir nowMs a program = .ok (r, s')) :
    Vcli.materializeTemplateAssets disk a program baseDir nowMs =
      (r.map fun program => (program, s'.out), s'.store) := by
  have hrefines := rewriteProgram_refines _ (ref_refines v disk baseDir nowMs h) program hret
  have hcoarse : materializeProgram disk baseDir nowMs program (a, ⟨∅, []⟩) =
      .ok (r, (s'.store, s'.out)) := by
    rw [materializeProgram_eq]
    exact hrefines
  rw [Vcli.materializeTemplateAssets, hcoarse]

end Coarse

section Concrete

def showing (image : String) : Program :=
  { Program.blank "p" with
    watches := [⟨.inline (.template image ⟨0x3fe0000000000000#64⟩ (.absolute ⟨0, 0, 1, 1⟩) 0), [], 0,
      .persistent⟩] }

/-- An empty asset store under `/data`, on a machine with a file of hosts. -/
def volume : Volume where
  dataRoot := "/data"
  cwd := []
  read _ := .error "no such file"
  elsewhere _ path := .ok (if path = "/etc/hosts".toList then some [49] else none)

theorem showing_images (image : String) : (showing image).images = [image] := by
  rfl

theorem showing_fits (image : String) : (showing image).Fits fun _ => True where
  version := trivial
  name := trivial
  trigger := trivial
  predicates := by simp [showing, Program.blank]
  watches := by
    intro w hw
    obtain rfl := List.mem_singleton.mp hw
    have hrect : (Rect.mk 0 0 1 1).Fits := by
      refine ⟨?_, ?_, ?_, ?_⟩ <;> exact ⟨by decide, by decide⟩
    exact ⟨⟨trivial, by decide, hrect⟩, fun _ hs => (by cases hs), trivial⟩
  body := fun _ hs => by cases hs
  onComplete := fun _ hs => by cases hs
  onFail := fun _ hs => by cases hs
  labels := by simp [showing, Program.blank]
  priority := inI32_zero

theorem showing_accepted {image : String} (h : (Dsl.finish Dsl.plainCrates (showing image)).isOk = true) :
    Dsl.Accepted Dsl.plainCrates (showing image) :=
  Dsl.accepted_of_fits (showing_fits image) (fun _ hid => nomatch hid)
    (show Dsl.major "0.1" = Dsl.supportedDslMajor by decide) h

theorem materialize_showing (v : Volume) (baseDir : Option String) (nowMs : UnixMs)
    (a : AssetStore) (image : String) :
    materializeTemplateAssets v baseDir nowMs a (showing image) =
      (materializeImageRef v baseDir nowMs image (start a)).map
        fun r => (r.1.map showing, r.2) := by
  have hnone : (showing image).predicates.toList = [] := by simp [showing, Program.blank]
  have hwatch : rewriteWatch (materializeImageRef v baseDir nowMs)
      ⟨.inline (.template image ⟨0x3fe0000000000000#64⟩ (.absolute ⟨0, 0, 1, 1⟩) 0), [], 0,
        .persistent⟩ (start a) = (materializeImageRef v baseDir nowMs image (start a)).map
          fun r => (r.1.map fun image => ⟨.inline (.template image ⟨0x3fe0000000000000#64⟩
            (.absolute ⟨0, 0, 1, 1⟩) 0), [], 0, .persistent⟩, r.2) := by
    simp only [rewriteWatch, rewritePredicate, Fallible.bind_apply_eq]
    rcases materializeImageRef v baseDir nowMs image (start a) with c | ⟨e | image', s'⟩ <;> rfl
  unfold materializeTemplateAssets rewriteProgram
  rw [hnone, Fallible.each, Fallible.pure_bind', Fallible.bind_apply_eq]
  have heach : Fallible.each (rewriteWatch (materializeImageRef v baseDir nowMs))
      (showing image).watches ⟨a, ⟨∅, []⟩, []⟩ =
        (materializeImageRef v baseDir nowMs image (start a)).map
          fun r => (r.1.map fun image => [⟨.inline (.template image ⟨0x3fe0000000000000#64⟩
            (.absolute ⟨0, 0, 1, 1⟩) 0), [], 0, .persistent⟩], r.2) := by
    show Fallible.each _ [_] (start a) = _
    rw [Fallible.each, Fallible.bind_apply_eq, hwatch]
    rcases materializeImageRef v baseDir nowMs image (start a) with c | ⟨e | image', s'⟩ <;> rfl
  rw [heach]
  rcases materializeImageRef v baseDir nowMs image (start a) with c | ⟨e | image', s'⟩ <;> rfl

theorem shortPath : assetBlobPath "/data" "ab" none = .error (.tooShort 2) := by
  decide +kernel

theorem hostsPath : assetBlobPath "/data" "/etc/hosts" none = .ok "/etc/hosts".toList := by
  decide +kernel

/-- Too short a reference panics. An absolute path behind `sha256:` is opened, and what it holds
is taken for what has the path as its hash. -/
theorem references_unsafe :
    (Dsl.Accepted Dsl.plainCrates (showing "sha256:ab") ∧
      ¬ ReferencesSafe volume none 0 .empty (showing "sha256:ab")) ∧
    Dsl.Accepted Dsl.plainCrates (showing "sha256:/etc/hosts") ∧
      ¬ ReferencesSafe volume none 0 .empty (showing "sha256:/etc/hosts") ∧
      ∃ program s', materializeTemplateAssets volume none 0 .empty (showing "sha256:/etc/hosts") =
          .ok (.ok program, s') ∧
        s'.opened = ["/etc/hosts".toList] ∧ s'.out.bytes["/etc/hosts"]? = some [49] := by
  have hab : hashOf "sha256:ab" = some "ab" := by decide +kernel
  have hhosts : hashOf "sha256:/etc/hosts" = some "/etc/hosts" := by decide +kernel
  have hshort := ref_panics volume none 0 (s := start .empty) hab shortPath
  have hfound : found volume .empty "/etc/hosts" "/etc/hosts".toList = .ok (some [49]) := by
    decide +kernel
  have hopen := ref_apply_hash volume none 0 (s := start .empty) hhosts hostsPath
  rw [show (start .empty).store = .empty from rfl, hfound] at hopen
  refine ⟨⟨showing_accepted (by decide +kernel), ?_⟩, showing_accepted (by decide +kernel), ?_, ?_⟩
  · rintro ⟨r, s', hret, _⟩
    rw [materialize_showing, hshort] at hret
    exact nomatch hret
  · rintro ⟨r, s', hret, hcontained, _⟩
    rw [materialize_showing, hopen] at hret
    obtain ⟨_, rfl⟩ := Prod.mk.inj (Except.ok.inj hret)
    have hunder := hcontained "/etc/hosts".toList List.mem_cons_self
    revert hunder
    decide +kernel
  · rw [materialize_showing, hopen]
    refine ⟨_, _, rfl, rfl, ?_⟩
    rw [getElem?_insert, if_pos rfl]
    rfl

end Concrete

end Opening

end Vcli

import Vcli.Daemon.Digests
import Vcli.Store.Uploads

/-! What materializing a program promises, and when doing it again gives the same. A resumed
program has its references only, and the store has to bring back what the files were. -/

namespace Vcli

namespace Opening

section References
variable (v : Volume) (baseDir : Option String)

def uploadOf (image : String) : Option Upload :=
  match hashOf image with
  | some _ => none
  | none => match readTemplate v baseDir image with
    | .ok (path, bytes) => some ⟨bytes, extensionOf path, simple_extensionOf path⟩
    | .error _ => none

def uploads (images : List String) : List Upload := images.filterMap (uploadOf v baseDir)

def Behind (nowMs : UnixMs) (a : AssetStore) (us : List Upload) (hash : String)
    (bytes : List UInt8) : Prop :=
  ∃ path, assetBlobPath v.dataRoot hash (a.extensionWith us hash) = .ok path ∧
    if staysInside hash && ((a.extensionWith us hash).all fun ext => !ext.toList.contains '/') then
      a.Holds us (blobName hash (a.extensionWith us hash)) bytes
    else v.elsewhere (a.stored nowMs us) path = .ok (some bytes)

def Brings (nowMs : UnixMs) (a : AssetStore) (hash : String) (before : List String) (image : String)
    (bytes : List UInt8) : Prop :=
  match hashOf image with
  | some hash' => hash' = hash ∧ Behind v nowMs a (uploads v baseDir before) hash bytes
  | none => ∃ u, uploadOf v baseDir image = some u ∧ u.hash = hash ∧ u.bytes = bytes

def Collected (nowMs : UnixMs) (a : AssetStore) (images : List String) (hash : String)
    (bytes : List UInt8) : Prop :=
  Slot.First (Brings v baseDir nowMs a hash) [] images bytes

/-- What is collected under a hash first is what every file of this digest holds, and it is what
stands behind the hash in the end. -/
def Retained (nowMs : UnixMs) (a : AssetStore) (images : List String) : Prop :=
  ∀ hash bytes, Collected v baseDir nowMs a images hash bytes →
    (∀ u ∈ uploads v baseDir images, u.hash = hash → u.bytes = bytes) ∧
      Behind v nowMs a (uploads v baseDir images) hash bytes

def Renames (image image' : String) : Prop :=
  match hashOf image with
  | some _ => image' = image
  | none => ∃ u, uploadOf v baseDir image = some u ∧ image' = "sha256:" ++ u.hash

def Rewrites (out : MaterializedAssets) (image image' : String) : Prop :=
  match hashOf image with
  | some _ => image' = image
  | none => ∃ path bytes, readTemplate v baseDir image = .ok (path, bytes) ∧
      image' = "sha256:" ++ AssetHash.ofBytes bytes ∧
      out.bytes[AssetHash.ofBytes bytes]? = some bytes

/-- The program that comes out refers to what has been collected, the files are kept as they are,
and nothing else of the program has changed. -/
structure Faithful (program program' : Program) (out : MaterializedAssets) : Prop where
  images : ∀ image ∈ program'.images, ∃ hash ∈ out.bytes, image = "sha256:" ++ hash
  nodup : out.hashes.Nodup
  hashes : ∀ hash, hash ∈ out.hashes ↔ hash ∈ out.bytes
  referred : ∀ hash, hash ∈ out.bytes ↔ "sha256:" ++ hash ∈ program'.images
  rewrites : List.Forall₂ (Rewrites v baseDir out) program.images program'.images
  rest : program'.imageless = program.imageless

def Repeats (program' : Program) (s' : Loading) : Prop :=
  ∀ nowMs, ∃ s'', materializeTemplateAssets v none nowMs s'.store program' =
    .ok (.ok program', s'') ∧ s''.out.bytes = s'.out.bytes

end References

section Runs
variable {v : Volume} {baseDir : Option String} {nowMs : UnixMs} {a : AssetStore}
  {program program' : Program} {s s' : Loading} {images as : List String} {us : List Upload}
  {image hash : String} {bytes : List UInt8}

open Fallible

theorem materialize_eq_ok : materializeTemplateAssets v baseDir nowMs a program =
      .ok (.ok program', s') ↔
    Chain (materializeImageRef v baseDir nowMs) (start a) program.images program'.images s' ∧
      program'.imageless = program.imageless := by
  have hmatch := rewriteProgram_matches (materializeImageRef v baseDir nowMs) program (start a)
  have hrun : materializeTemplateAssets v baseDir nowMs a program =
    rewriteProgram (materializeImageRef v baseDir nowMs) program (start a) := rfl
  rw [hrun, ← returns_each, Returns]
  generalize rewriteProgram (materializeImageRef v baseDir nowMs) program (start a) = x at hmatch ⊢
  generalize each (materializeImageRef v baseDir nowMs) program.images (start a) = y at hmatch ⊢
  cases hmatch with
  | crash c => exact iff_of_false (fun h => by cases h) fun h => by cases h.1
  | error e t => exact iff_of_false (fun h => by cases h) fun h => by cases h.1
  | ok h t =>
    obtain ⟨rfl, hrest⟩ := h
    constructor
    · intro heq
      obtain ⟨hprogram, rfl⟩ := Prod.mk.inj (Except.ok.inj heq)
      obtain rfl := Except.ok.inj hprogram
      exact ⟨rfl, hrest⟩
    · rintro ⟨heq, hrest'⟩
      obtain ⟨himages, rfl⟩ := Prod.mk.inj (Except.ok.inj heq)
      rw [Program.ext_images (hrest.trans hrest'.symm) (Except.ok.inj himages)]

theorem hashOf_prefixed (hash : String) : hashOf ("sha256:" ++ hash) = some hash := by
  rw [hashOf, String.toList_append, if_pos]
  · have hdrop : ("sha256:".toList ++ hash.toList).drop 7 = hash.toList := List.drop_left' rfl
    rw [hdrop, String.ofList_toList]
  · exact List.isPrefixOf_iff_prefix.mpr (List.prefix_append _ _)

theorem eq_of_hashOf (h : hashOf image = some hash) : image = "sha256:" ++ hash := by
  rw [hashOf] at h
  split_ifs at h with hprefix
  obtain ⟨rest, hrest⟩ := List.isPrefixOf_iff_prefix.mp hprefix
  have hdrop : image.toList.drop 7 = rest := by rw [← hrest]; exact List.drop_left' rfl
  have htext : (String.ofList rest).toList = rest := String.toList_ofList
  rw [← Option.some.inj h, hdrop]
  apply String.toList_inj.mp
  rw [String.toList_append, htext, hrest]

/-- What stands behind a hash is what is found in the store with the files. -/
theorem behind_iff (us : List Upload) : Behind v nowMs a us hash bytes ↔
    ∃ path, assetBlobPath v.dataRoot hash ((a.stored nowMs us).extensionOf hash) = .ok path ∧
      found v (a.stored nowMs us) hash path = .ok (some bytes) := by
  rw [AssetStore.extensionOf_stored]
  refine exists_congr fun path => and_congr_right fun _ => ?_
  rw [found, AssetStore.extensionOf_stored]
  split_ifs
  · rw [AssetStore.getAsset, AssetStore.extensionOf_stored, Except.ok.injEq,
      AssetStore.files_stored]
  · rfl

theorem staysInside_digest (h : IsDigest hash) : staysInside hash = true := by
  have hplain : ∀ c ∈ "0123456789abcdef".toList,
      decide (c.toNat < 128 ∧ c ≠ '/' ∧ c ≠ Char.ofNat 0) = true := by simp
  have hlong : 4 ≤ hash.toList.length := h.length ▸ (by decide : 4 ≤ 64)
  have hdots : ∀ chars : List Char, chars ⊆ hash.toList → chars ≠ ['.', '.'] := by
    rintro chars hsub rfl
    exact h.no_dot (hsub List.mem_cons_self)
  have hfirst := hdots _ (List.take_subset 2 hash.toList)
  have hsecond := hdots _ (List.Subset.trans (List.take_subset 2 _) (List.drop_subset 2 hash.toList))
  rw [staysInside, List.all_eq_true.mpr fun c hc => hplain c (h.hex c hc), decide_eq_true hlong,
    decide_eq_true hfirst, decide_eq_true hsecond]
  rfl

theorem found_digest {path : List Char} (ha : a.Proper) (h : IsDigest hash) :
    found v a hash path = .ok (a.getAsset hash) := by
  have hsimple : ((a.extensionOf hash).all fun ext => !ext.toList.contains '/') = true := by
    cases hext : a.extensionOf hash with
    | none => rfl
    | some ext =>
      have hslash := (simple_extensionOf_proper ha hash ext hext).2
      simp [hslash]
  rw [found, staysInside_digest h, hsimple, Bool.and_self, if_pos rfl]

theorem behind_unique {bytes' : List UInt8} (h : Behind v nowMs a us hash bytes)
    (h' : Behind v nowMs a us hash bytes') : bytes = bytes' := by
  obtain ⟨path, hpath, hfound⟩ := (behind_iff us).mp h
  obtain ⟨path', hpath', hfound'⟩ := (behind_iff us).mp h'
  obtain rfl := Except.ok.inj (hpath.symm.trans hpath')
  exact Option.some.inj (Except.ok.inj (hfound.symm.trans hfound'))

theorem brings_hash {before : List String} {key : String} (himage : hashOf image = some hash) :
    Brings v baseDir nowMs a key before image bytes ↔
      hash = key ∧ Behind v nowMs a (uploads v baseDir before) key bytes := by
  rw [Brings, himage]

theorem uploadOf_file {path : String} (himage : hashOf image = none)
    (hread : readTemplate v baseDir image = .ok (path, bytes)) :
    uploadOf v baseDir image = some ⟨bytes, extensionOf path, simple_extensionOf path⟩ := by
  rw [uploadOf, himage, hread]

theorem brings_file {before : List String} {key path : String} {b : List UInt8}
    (himage : hashOf image = none) (hread : readTemplate v baseDir image = .ok (path, bytes)) :
    Brings v baseDir nowMs a key before image b ↔ key = AssetHash.ofBytes bytes ∧ b = bytes := by
  rw [Brings, himage, uploadOf_file himage hread]
  constructor
  · rintro ⟨u, hu, rfl, rfl⟩
    obtain rfl := Option.some.inj hu
    exact ⟨rfl, rfl⟩
  · rintro ⟨rfl, rfl⟩
    exact ⟨_, rfl, rfl, rfl⟩

structure Took (v : Volume) (baseDir : Option String) (nowMs : UnixMs) (a : AssetStore)
    (before : List String) (image image' : String) (s s₁ : Loading) (key : String)
    (b : List UInt8) : Prop where
  store : s₁.store = a.stored nowMs (uploads v baseDir (before ++ [image]))
  out : s₁.out = s.out.insert key b
  renamed : image' = "sha256:" ++ key
  renames : Renames v baseDir image image'
  brings : ∀ k b', Brings v baseDir nowMs a k before image b' ↔ k = key ∧ b' = b

theorem ref_took {before : List String} {image' : String} {s₁ : Loading}
    (hstore : s.store = a.stored nowMs (uploads v baseDir before))
    (hret : (materializeImageRef v baseDir nowMs image).Returns s (.ok image') s₁) :
    ∃ key b, Took v baseDir nowMs a before image image' s s₁ key b := by
  have huploads : uploads v baseDir (before ++ [image]) =
      uploads v baseDir before ++ (uploadOf v baseDir image).toList := by
    rw [uploads, List.filterMap_append, uploads]
    cases h : uploadOf v baseDir image <;> simp [h]
  -- a file is an upload of its own, a digest only refers to one
  cases himage : hashOf image with
  | none =>
    rcases ref_reads v baseDir nowMs himage s with ⟨e, he⟩ | ⟨path, bytes, hread, hok⟩
    · exact nomatch (hret.unique he).1
    · obtain ⟨himage', rfl⟩ := hret.unique hok
      have hupload := uploadOf_file himage hread
      refine ⟨_, bytes, ?_, rfl, Except.ok.inj himage', ?_, fun k b => brings_file himage hread⟩
      · rw [huploads, hupload, Option.toList_some, AssetStore.stored_append_one, ← hstore]
      · rw [Renames, himage]
        exact ⟨_, hupload, Except.ok.inj himage'⟩
  | some hash =>
    cases hpath : assetBlobPath v.dataRoot hash (s.store.extensionOf hash) with
    | error panic => exact nomatch (ref_panics v baseDir nowMs himage hpath).symm.trans hret
    | ok path =>
      rcases ref_opens v baseDir nowMs himage hpath with ⟨e, he⟩ | ⟨bytes, hfound, hok⟩
      · exact nomatch (hret.unique he).1
      · obtain ⟨himage', rfl⟩ := hret.unique hok
        rw [hstore] at hpath hfound
        have hbehind : Behind v nowMs a (uploads v baseDir before) hash bytes :=
          (behind_iff _).mpr ⟨path, hpath, hfound⟩
        have hnone : uploadOf v baseDir image = none := by rw [uploadOf, himage]
        refine ⟨hash, bytes, ?_, rfl, ?_, ?_, fun k b => ?_⟩
        · rw [huploads, hnone, Option.toList_none, List.append_nil]
          exact hstore
        · rw [Except.ok.inj himage']
          exact eq_of_hashOf himage
        · rw [Renames, himage]
          exact Except.ok.inj himage'
        · rw [brings_hash himage]
          constructor
          · rintro ⟨rfl, hb⟩
            exact ⟨rfl, behind_unique hb hbehind⟩
          · rintro ⟨rfl, rfl⟩
            exact ⟨rfl, hbehind⟩

structure Gathered (v : Volume) (baseDir : Option String) (nowMs : UnixMs) (a : AssetStore)
    (images as : List String) (s : Loading) : Prop where
  store : s.store = a.stored nowMs (uploads v baseDir images)
  bytes : ∀ key b, s.out.bytes[key]? = some b ↔ Collected v baseDir nowMs a images key b
  nodup : s.out.hashes.Nodup
  hashes : ∀ key, key ∈ s.out.hashes ↔ key ∈ s.out.bytes
  referred : ∀ key, key ∈ s.out.bytes ↔ "sha256:" ++ key ∈ as
  named : ∀ image ∈ as, ∃ key ∈ s.out.bytes, image = "sha256:" ++ key
  renames : List.Forall₂ (Renames v baseDir) images as

theorem prefixed_inj {key key' : String} : "sha256:" ++ key = "sha256:" ++ key' ↔ key = key' := by
  constructor
  · intro h
    have hhash := congrArg hashOf h
    rw [hashOf_prefixed, hashOf_prefixed] at hhash
    exact Option.some.inj hhash
  · rintro rfl
    rfl

theorem mem_bytes_iff {out : MaterializedAssets} {key : String} :
    key ∈ out.bytes ↔ ∃ b, out.bytes[key]? = some b := by
  rw [Std.ExtTreeMap.mem_iff_isSome_getElem?, Option.isSome_iff_exists]

theorem mem_bytes_insert {out : MaterializedAssets} {key k : String} {b : List UInt8} :
    k ∈ (out.insert key b).bytes ↔ k ∈ out.bytes ∨ k = key := by
  rw [mem_bytes_iff, mem_bytes_iff, getElem?_insert]
  by_cases hkey : key = k
  · subst hkey
    rw [if_pos rfl]
    exact iff_of_true ⟨_, rfl⟩ (.inr rfl)
  · rw [if_neg hkey]
    exact (or_iff_left fun h => hkey h.symm).symm

theorem mem_hashes_insert {out : MaterializedAssets} {key k : String} {b : List UInt8} :
    k ∈ (out.insert key b).hashes ↔ k ∈ out.hashes ∨ k = key := by
  show k ∈ (if key ∈ out.hashes then out.hashes else out.hashes ++ [key]) ↔ _
  split_ifs with hmem
  · constructor
    · exact .inl
    · rintro (h | rfl)
      · exact h
      · exact hmem
  · rw [List.mem_append, List.mem_singleton]

theorem nodup_insert {out : MaterializedAssets} (h : out.hashes.Nodup) (key : String)
    (b : List UInt8) : (out.insert key b).hashes.Nodup := by
  show (if key ∈ out.hashes then out.hashes else out.hashes ++ [key]).Nodup
  split_ifs with hmem
  · exact h
  · exact List.nodup_append.mpr ⟨h, List.nodup_singleton key, fun x hx y hy =>
      fun heq => hmem (List.mem_singleton.mp hy ▸ heq ▸ hx)⟩

theorem gathered_nil : Gathered v baseDir nowMs a [] [] (start a) where
  store := rfl
  bytes key b := by
    rw [Collected]
    exact iff_of_false (by simp [start]) Slot.not_first_nil
  nodup := List.nodup_nil
  hashes key := by simp [start]
  referred key := by simp [start]
  named := nofun
  renames := .nil

theorem Gathered.took {image' key : String} {b : List UInt8} {s₁ : Loading}
    (h : Gathered v baseDir nowMs a images as s)
    (ht : Took v baseDir nowMs a images image image' s s₁ key b) :
    Gathered v baseDir nowMs a (images ++ [image]) (as ++ [image']) s₁ where
  store := ht.store
  bytes k b' := by
    have hsilent : Slot.Silent (Brings v baseDir nowMs a k) [] images ↔
        s.out.bytes[k]? = none := by
      rw [Slot.silent_iff, Option.eq_none_iff_forall_ne_some]
      exact forall_congr' fun w => not_congr (h.bytes k w).symm
    rw [Collected, Slot.first_append_one, hsilent, List.nil_append, ht.brings, ← Collected,
      ← h.bytes, ht.out, getElem?_insert]
    -- what a digest stands for is set once, by the first that brings it
    by_cases hkey : key = k
    · subst hkey
      rw [if_pos rfl]
      cases s.out.bytes[key]? with
      | none => simp [eq_comm]
      | some w => simp
    · rw [if_neg hkey]
      simp [Ne.symm hkey]
  nodup := ht.out ▸ nodup_insert h.nodup key b
  hashes k := by rw [ht.out, mem_hashes_insert, mem_bytes_insert, h.hashes]
  referred k := by
    rw [ht.out, mem_bytes_insert, h.referred, List.mem_append, List.mem_singleton, ht.renamed,
      prefixed_inj]
  named image'' hmem := by
    rw [ht.out]
    rcases List.mem_append.mp hmem with hmem | hmem
    · obtain ⟨k, hk, heq⟩ := h.named image'' hmem
      exact ⟨k, mem_bytes_insert.mpr (.inl hk), heq⟩
    · rw [List.mem_singleton.mp hmem, ht.renamed]
      exact ⟨key, mem_bytes_insert.mpr (.inr rfl), rfl⟩
  renames := List.rel_append h.renames (.cons ht.renames .nil)

theorem chain_gathered
    (h : Chain (materializeImageRef v baseDir nowMs) (start a) images as s') :
    Gathered v baseDir nowMs a images as s' := by
  induction images using List.reverseRecOn generalizing as s' with
  | nil =>
    cases h
    exact gathered_nil
  | append_singleton images image ih =>
    obtain ⟨bs, s₁, bs', hfirst, hlast, rfl⟩ := h.append_inv
    cases hlast with
    | cons hhead htail =>
      cases htail
      have hgathered := ih hfirst
      obtain ⟨key, b, htook⟩ := ref_took hgathered.store hhead
      exact hgathered.took htook

theorem rewrites_iff {out : MaterializedAssets} {image' : String} :
    Rewrites v baseDir out image image' ↔ Renames v baseDir image image' ∧
      ∀ u, uploadOf v baseDir image = some u → out.bytes[u.hash]? = some u.bytes := by
  rw [Rewrites, Renames]
  cases himage : hashOf image with
  | some hash =>
    have hnone : uploadOf v baseDir image = none := by rw [uploadOf, himage]
    rw [hnone]
    exact (and_iff_left nofun).symm
  | none =>
    cases hread : readTemplate v baseDir image with
    | error e =>
      have hnone : uploadOf v baseDir image = none := by rw [uploadOf, himage, hread]
      rw [hnone]
      exact iff_of_false (fun ⟨_, _, h, _⟩ => nomatch h) fun ⟨⟨_, h, _⟩, _⟩ => nomatch h
    | ok file =>
      obtain ⟨path, bytes⟩ := file
      rw [uploadOf_file himage hread]
      constructor
      · rintro ⟨_, _, hfile, rfl, hkept⟩
        obtain ⟨rfl, rfl⟩ := Prod.mk.inj (Except.ok.inj hfile)
        refine ⟨⟨_, rfl, rfl⟩, fun u hu => ?_⟩
        obtain rfl := Option.some.inj hu
        exact hkept
      · rintro ⟨⟨u, hu, himage'⟩, hkept⟩
        have hbytes := hkept u hu
        obtain rfl := Option.some.inj hu
        exact ⟨path, bytes, rfl, himage', hbytes⟩

theorem Gathered.mem_of_upload (h : Gathered v baseDir nowMs a images as s) {u : Upload}
    (hu : u ∈ uploads v baseDir images) : u.hash ∈ s.out.bytes := by
  obtain ⟨image, himage, hupload⟩ := List.mem_filterMap.mp hu
  obtain ⟨i, hi, rfl⟩ := List.mem_iff_getElem.mp himage
  have hi' : i < as.length := h.renames.length_eq ▸ hi
  have hrename := h.renames.get hi hi'
  rw [List.get_eq_getElem, List.get_eq_getElem, Renames] at hrename
  cases hhash : hashOf images[i] with
  | some hash =>
    rw [uploadOf, hhash] at hupload
    exact nomatch hupload
  | none =>
    rw [hhash] at hrename
    obtain ⟨u', hu', heq⟩ := hrename
    obtain rfl := Option.some.inj (hu'.symm.trans hupload)
    exact (h.referred u'.hash).mpr (heq ▸ List.getElem_mem hi')

theorem Gathered.faithful_iff
    (h : Gathered v baseDir nowMs a program.images program'.images s')
    (hrest : program'.imageless = program.imageless) :
    Faithful v baseDir program program' s'.out ↔
      ∀ hash bytes, Collected v baseDir nowMs a program.images hash bytes →
        ∀ u ∈ uploads v baseDir program.images, u.hash = hash → u.bytes = bytes := by
  constructor
  · rintro hfaithful hash bytes hcollected u hu rfl
    obtain ⟨image, himage, hupload⟩ := List.mem_filterMap.mp hu
    obtain ⟨i, hi, rfl⟩ := List.mem_iff_getElem.mp himage
    have hi' : i < program'.images.length := h.renames.length_eq ▸ hi
    have hkept := (rewrites_iff.mp (hfaithful.rewrites.get hi hi')).2 u hupload
    exact Option.some.inj (hkept.symm.trans ((h.bytes _ _).mpr hcollected))
  · intro hcontents
    refine ⟨h.named, h.nodup, h.hashes, h.referred, ?_, hrest⟩
    refine List.forall₂_iff_get.mpr ⟨h.renames.length_eq, fun i hi hi' => ?_⟩
    refine rewrites_iff.mpr ⟨h.renames.get hi hi', fun u hupload => ?_⟩
    have hu : u ∈ uploads v baseDir program.images :=
      List.mem_filterMap.mpr ⟨_, List.get_mem _ _, hupload⟩
    obtain ⟨b, hb⟩ := mem_bytes_iff.mp (h.mem_of_upload hu)
    rw [hb, hcontents u.hash b ((h.bytes _ _).mp hb) u hu rfl]

section Again
variable {nowMs' : UnixMs} {key : String}

theorem behind_stored (us : List Upload) :
    Behind v nowMs' (a.stored nowMs us) [] hash bytes ↔ Behind v nowMs a us hash bytes := by
  rw [behind_iff, behind_iff]
  rfl

theorem uploads_refs (h : ∀ image ∈ images, ∃ key, image = "sha256:" ++ key) :
    uploads v baseDir images = [] := by
  refine List.filterMap_eq_nil_iff.mpr fun image himage => ?_
  obtain ⟨key, rfl⟩ := h image himage
  rw [uploadOf, hashOf_prefixed]

theorem collected_refs (h : ∀ image ∈ images, ∃ key, image = "sha256:" ++ key) :
    Collected v baseDir nowMs a images hash bytes ↔
      "sha256:" ++ hash ∈ images ∧ Behind v nowMs a [] hash bytes := by
  have hbrings : ∀ pre image post b, images = pre ++ image :: post →
      (Brings v baseDir nowMs a hash pre image b ↔
        image = "sha256:" ++ hash ∧ Behind v nowMs a [] hash b) := by
    rintro pre image post b rfl
    have hpre : uploads v baseDir pre = [] :=
      uploads_refs fun i hi => h i (List.mem_append_left _ hi)
    obtain ⟨key, rfl⟩ := h image (List.mem_append_right _ List.mem_cons_self)
    rw [brings_hash (hashOf_prefixed key), hpre, prefixed_inj]
  constructor
  · rintro ⟨pre, image, post, heq, -, hgives⟩
    obtain ⟨rfl, hbehind⟩ := (hbrings pre image post bytes heq).mp hgives
    rw [heq]
    exact ⟨List.mem_append_right _ List.mem_cons_self, hbehind⟩
  · rintro ⟨hmem, hbehind⟩
    have hsome : ¬ Slot.Silent (Brings v baseDir nowMs a hash) [] images := by
      intro hsilent
      obtain ⟨pre, post, heq⟩ := List.append_of_mem hmem
      exact hsilent pre _ post heq bytes ((hbrings pre _ post bytes heq).mpr ⟨rfl, hbehind⟩)
    rw [Slot.silent_iff] at hsome
    obtain ⟨b, hfirst⟩ := not_forall_not.mp hsome
    obtain ⟨pre, image, post, heq, hsilent, hgives⟩ := hfirst
    obtain ⟨-, hb⟩ := (hbrings pre image post b heq).mp hgives
    rw [behind_unique hbehind hb]
    exact ⟨pre, image, post, heq, hsilent, hgives⟩

theorem chain_refs
    (h : ∀ image ∈ images, ∃ key b, image = "sha256:" ++ key ∧ Behind v nowMs a [] key b)
    (hs : s.store = a) : ∃ s', Chain (materializeImageRef v baseDir nowMs) s images images s' := by
  induction images generalizing s with
  | nil => exact ⟨s, .nil s⟩
  | cons image images ih =>
    obtain ⟨⟨key, b, rfl, hbehind⟩, hrest⟩ := List.forall_mem_cons.mp h
    obtain ⟨path, hpath, hfound⟩ := (behind_iff []).mp hbehind
    have hstored : a.stored nowMs [] = s.store := hs.symm
    rw [hstored] at hpath hfound
    have hhead := ref_apply_hash v baseDir nowMs (hashOf_prefixed key) hpath
    rw [hfound] at hhead
    obtain ⟨s', htail⟩ := ih hrest (s := ⟨s.store, s.out.insert key b, s.opened ++ [path]⟩) hs
    exact ⟨s', .cons hhead htail⟩

theorem Gathered.repeats_iff
    (h : Gathered v baseDir nowMs a program.images program'.images s') :
    Repeats v program' s' ↔
      ∀ hash bytes, Collected v baseDir nowMs a program.images hash bytes →
        Behind v nowMs a (uploads v baseDir program.images) hash bytes := by
  have hrefs : ∀ image ∈ program'.images, ∃ key, image = "sha256:" ++ key := by
    intro image himage
    obtain ⟨key, -, heq⟩ := h.named image himage
    exact ⟨key, heq⟩
  -- the program that comes out has digests only, and uploads nothing more
  have hagain : ∀ nowMs' hash bytes, Collected v none nowMs' s'.store program'.images hash bytes ↔
      hash ∈ s'.out.bytes ∧ Behind v nowMs a (uploads v baseDir program.images) hash bytes := by
    intro nowMs' hash bytes
    rw [collected_refs hrefs, h.store, behind_stored, h.referred]
  constructor
  · intro hrepeats hash bytes hcollected
    obtain ⟨s'', hrun, hsame⟩ := hrepeats nowMs
    have hgathered := chain_gathered (materialize_eq_ok.mp hrun).1
    have hbytes := (h.bytes hash bytes).mpr hcollected
    rw [← hsame] at hbytes
    exact ((hagain nowMs hash bytes).mp ((hgathered.bytes hash bytes).mp hbytes)).2
  · intro hbehind nowMs'
    have hload : ∀ image ∈ program'.images, ∃ key b, image = "sha256:" ++ key ∧
        Behind v nowMs' s'.store [] key b := by
      intro image himage
      obtain ⟨key, hkey, heq⟩ := h.named image himage
      obtain ⟨b, hb⟩ := mem_bytes_iff.mp hkey
      refine ⟨key, b, heq, ?_⟩
      rw [h.store, behind_stored]
      exact hbehind key b ((h.bytes key b).mp hb)
    obtain ⟨s'', hchain⟩ : ∃ s'', Chain (materializeImageRef v none nowMs') (start s'.store)
      program'.images program'.images s'' := chain_refs hload rfl
    refine ⟨s'', materialize_eq_ok.mpr ⟨hchain, rfl⟩, ?_⟩
    have hgathered := chain_gathered hchain
    refine Std.ExtTreeMap.ext_getElem? fun key => Option.ext fun b => ?_
    rw [hgathered.bytes, hagain, mem_bytes_iff]
    constructor
    · rintro ⟨⟨b', hb'⟩, hb⟩
      rw [hb', behind_unique hb (hbehind key b' ((h.bytes key b').mp hb'))]
    · intro hb
      exact ⟨⟨b, hb⟩, hbehind key b ((h.bytes key b).mp hb)⟩

end Again

/-- What materializing promises is kept if and only if the files of one digest agree with what is
collected first, and the store has it behind the hash in the end. -/
theorem materialization_iff (h : materializeTemplateAssets v baseDir nowMs a program =
      .ok (.ok program', s')) :
    Faithful v baseDir program program' s'.out ∧ Repeats v program' s' ↔
      Retained v baseDir nowMs a program.images := by
  obtain ⟨hchain, hrest⟩ := materialize_eq_ok.mp h
  have hgathered := chain_gathered hchain
  rw [hgathered.faithful_iff hrest, hgathered.repeats_iff]
  constructor
  · rintro ⟨hcontents, hbehind⟩ hash bytes hcollected
    exact ⟨hcontents hash bytes hcollected, hbehind hash bytes hcollected⟩
  · intro hretained
    exact ⟨fun hash bytes hc => (hretained hash bytes hc).1,
      fun hash bytes hc => (hretained hash bytes hc).2⟩

section Concrete

def filled : Volume := { volume with read := fun _ => .ok [1] }

def copies (bytes : List UInt8) (paths : List String) : List Upload :=
  paths.map fun path => ⟨bytes, extensionOf path, simple_extensionOf path⟩

def awaiting (image image' : String) : Program :=
  { Program.blank "p" with watches := (showing image).watches ++ (showing image').watches }

theorem awaiting_accepted {image image' : String}
    (h : (Dsl.finish Dsl.plainCrates (awaiting image image')).isOk = true) :
    Dsl.Accepted Dsl.plainCrates (awaiting image image') := by
  refine Dsl.accepted_of_fits ?_ (fun _ hid => nomatch hid)
    (show Dsl.major "0.1" = Dsl.supportedDslMajor by decide) h
  refine { showing_fits image with watches := fun w hw => ?_ }
  rcases List.mem_append.mp hw with hw | hw
  · exact (showing_fits image).watches w hw
  · exact (showing_fits image').watches w hw

theorem filled_file (himage : isAbsolute image = true) :
    readTemplate filled none image = .ok (image, [1]) := by
  rw [readTemplate, if_pos himage]
  rfl

theorem filled_returns (hfile : hashOf image = none) (himage : isAbsolute image = true)
    (s : Loading) : ∃ s₁, (materializeImageRef filled none 0 image).Returns s
      (.ok ("sha256:" ++ AssetHash.ofBytes [1])) s₁ := by
  have hret := ref_apply_file filled none 0 hfile s
  rw [filled_file himage] at hret
  exact ⟨_, hret⟩

theorem filled_uploads (h : ∀ image ∈ images, hashOf image = none ∧ isAbsolute image = true) :
    uploads filled none images = copies [1] images := by
  rw [uploads, copies]
  induction images with
  | nil => rfl
  | cons image images ih =>
    obtain ⟨⟨hfile, himage⟩, hrest⟩ := List.forall_mem_cons.mp h
    rw [List.filterMap_cons, uploadOf_file hfile (filled_file himage), ih hrest, List.map_cons]

theorem filled_collected (h : ∀ image ∈ images, hashOf image = none ∧ isAbsolute image = true)
    (hc : Collected filled none 0 .empty images hash bytes) :
    hash = AssetHash.ofBytes [1] ∧ bytes = [1] := by
  obtain ⟨pre, image, post, rfl, -, hgives⟩ := hc
  obtain ⟨hfile, himage⟩ := h image (List.mem_append_right _ List.mem_cons_self)
  exact (brings_file hfile (filled_file himage)).mp hgives

theorem found_png (bytes : List UInt8) :
    (AssetStore.empty.stored 0 (copies bytes ["/a.png"])).getAsset (AssetHash.ofBytes bytes) =
      some bytes :=
  AssetStore.getAsset_putAsset (u := ⟨bytes, _, simple_extensionOf "/a.png"⟩) rfl rfl

theorem lost_tmp (bytes : List UInt8) :
    (AssetStore.empty.stored 0 (copies bytes ["/a.tmp", "/b.png"])).getAsset
      (AssetHash.ofBytes bytes) = none := by
  let u : Upload := ⟨bytes, extensionOf "/a.tmp", simple_extensionOf "/a.tmp"⟩
  let w : Upload := ⟨bytes, extensionOf "/b.png", simple_extensionOf "/b.png"⟩
  have hu : u.extension = some "tmp" := (by decide +kernel : extensionOf "/a.tmp" = some "tmp")
  have hw : w.extension = some "png" := (by decide +kernel : extensionOf "/b.png" = some "png")
  have htmp : w.blob ≠ tmpName w.blob := by
    intro heq
    have hchars := congrArg String.toList heq
    rw [w.tmpName_blob, Upload.blob, toList_blobName, toList_blobName, hw] at hchars
    exact absurd (List.append_cancel_left hchars) (by decide)
  have hhash : AssetHash.ofBytes bytes = AssetHash.ofBytes bytes := rfl
  exact AssetStore.getAsset_twins (u := u) (w := w) hhash hu htmp

/-- A file with an extension of its own is there when it is materialized again. -/
theorem materialization_iff_png : ∃ program' s', materializeTemplateAssets filled none 0 .empty
      (showing "/a.png") = .ok (.ok program', s') ∧
    Faithful filled none (showing "/a.png") program' s'.out ∧ Repeats filled program' s' := by
  have hfile : ∀ image ∈ ["/a.png"], hashOf image = none ∧ isAbsolute image = true := by
    decide +kernel
  obtain ⟨hhash, habsolute⟩ := hfile "/a.png" List.mem_cons_self
  obtain ⟨s', hret⟩ := filled_returns hhash habsolute (start .empty)
  have hrun : materializeTemplateAssets filled none 0 .empty (showing "/a.png") =
      .ok (.ok (showing ("sha256:" ++ AssetHash.ofBytes [1])), s') :=
    materialize_eq_ok.mpr ⟨.cons hret (.nil s'), rfl⟩
  refine ⟨_, s', hrun, (materialization_iff hrun).mpr fun hash bytes hcollected => ?_⟩
  rw [showing_images] at hcollected ⊢
  obtain ⟨rfl, rfl⟩ := filled_collected hfile hcollected
  rw [filled_uploads hfile]
  have hproper := AssetStore.proper_empty.stored 0 (copies [1] ["/a.png"])
  obtain ⟨path, hpath, -⟩ := (isDigest_ofBytes [1]).addressable
    (simple_extensionOf_proper hproper _) "/data" []
  refine ⟨fun u hu _ => ?_, (behind_iff _).mpr ⟨path, hpath, ?_⟩⟩
  · rw [List.mem_singleton.mp hu]
  · rw [found_digest hproper (isDigest_ofBytes [1]), found_png]

/-- A file whose extension is that of temporary files is gone when its bytes are stored again, and
its row stays. -/
theorem temporary_blob_lost : Dsl.Accepted Dsl.plainCrates (awaiting "/a.tmp" "/b.png") ∧
    ∃ program' s', materializeTemplateAssets filled none 0 .empty (awaiting "/a.tmp" "/b.png") =
      .ok (.ok program', s') ∧ ¬ Repeats filled program' s' := by
  have hfiles : ∀ image ∈ ["/a.tmp", "/b.png"],
      hashOf image = none ∧ isAbsolute image = true := by decide +kernel
  obtain ⟨⟨hfirst, hfirst'⟩, hrest⟩ := List.forall_mem_cons.mp hfiles
  obtain ⟨hsecond, hsecond'⟩ := hrest "/b.png" List.mem_cons_self
  obtain ⟨s₁, hret₁⟩ := filled_returns hfirst hfirst' (start .empty)
  obtain ⟨s', hret⟩ := filled_returns hsecond hsecond' s₁
  have hrun : materializeTemplateAssets filled none 0 .empty (awaiting "/a.tmp" "/b.png") =
      .ok (.ok (awaiting ("sha256:" ++ AssetHash.ofBytes [1]) ("sha256:" ++ AssetHash.ofBytes [1])),
        s') := materialize_eq_ok.mpr ⟨.cons hret₁ (.cons hret (.nil s')), rfl⟩
  refine ⟨awaiting_accepted (by decide +kernel), _, s', hrun, fun hrepeats => ?_⟩
  have hgathered := chain_gathered (materialize_eq_ok.mp hrun).1
  obtain ⟨b, hb⟩ := mem_bytes_iff.mp ((hgathered.referred (AssetHash.ofBytes [1])).mpr
    List.mem_cons_self)
  have hcollected := (hgathered.bytes _ b).mp hb
  have hbehind := hgathered.repeats_iff.mp hrepeats _ b hcollected
  have huploads : uploads filled none (awaiting "/a.tmp" "/b.png").images =
      copies [1] ["/a.tmp", "/b.png"] := filled_uploads hfiles
  rw [huploads] at hbehind
  obtain ⟨path, -, hfound⟩ := (behind_iff _).mp hbehind
  have hproper := AssetStore.proper_empty.stored 0 (copies [1] ["/a.tmp", "/b.png"])
  rw [found_digest hproper (isDigest_ofBytes [1]), lost_tmp] at hfound
  exact nomatch hfound

end Concrete

end Runs

end Opening

end Vcli

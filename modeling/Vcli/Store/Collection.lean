import Vcli.Store.Assets

/-! Garbage collection takes what no program needs and nothing else: reachability by row, by link
and by file stem agree, as long as a file name tells the hash it was made from. -/

namespace Vcli

def ProperName (name : String) : Prop :=
  ∃ hash e, IsDigest hash ∧ Simple e ∧ name = blobName hash e

def AssetOp.Proper : AssetOp → Prop
  | create name => ProperName name
  | rename _ target => ProperName target
  | insertRow hash row => IsDigest hash ∧ Simple row.extension
  | _ => True

namespace AssetStore

variable {a : AssetStore} {name hash : String}

structure Proper (a : AssetStore) : Prop where
  rows : ∀ hash row, a.rows.get hash = some row → IsDigest hash ∧ Simple row.extension
  files : ∀ name, (a.files.get name).isSome → ProperName name

theorem proper_empty : empty.Proper := ⟨nofun, nofun⟩

section Operations

theorem Proper.apply (h : a.Proper) {op : AssetOp} (hop : op.Proper) : (a.apply op).Proper := by
  cases op with
  | create name =>
    refine ⟨h.rows, fun n hn => ?_⟩
    rw [files_create] at hn
    split_ifs at hn with heq
    · rw [heq]
      exact hop
    · exact h.files n hn
  | append name byte =>
    refine ⟨h.rows, fun n hn => h.files n ?_⟩
    rw [files_append] at hn
    split_ifs at hn
    · exact Option.isSome_map.symm.trans hn
    · exact hn
  | rename source target =>
    cases hsource : a.files.get source with
    | none =>
      rw [rename_missing hsource]
      exact h
    | some bytes =>
      refine ⟨fun hash row hrow => h.rows hash row (rows_rename (a := a) ▸ hrow), fun n hn => ?_⟩
      rw [files_rename hsource] at hn
      split_ifs at hn with htarget
      · rw [htarget]
        exact hop
      · exact absurd hn Bool.false_ne_true
      · exact h.files n hn
  | insertRow hash row =>
    refine ⟨fun k r hk => ?_, h.files⟩
    rcases eq_some_of_insertRow hk with hold | ⟨rfl, rfl⟩
    · exact h.rows k r hold
    · exact hop
  | remove name =>
    refine ⟨h.rows, fun n hn => h.files n ?_⟩
    rw [files_remove] at hn
    split_ifs at hn
    · exact absurd hn Bool.false_ne_true
    · exact hn
  | deleteRows hashes =>
    refine ⟨fun k r hk => h.rows k r ?_, h.files⟩
    rw [rows_deleteRows] at hk
    split_ifs at hk
    exact hk

theorem Proper.run {ops : List AssetOp} (h : a.Proper) (hops : ∀ op ∈ ops, op.Proper) :
    (a.run ops).Proper := by
  induction ops generalizing a with
  | nil => exact h
  | cons op ops ih =>
    have hop := hops op List.mem_cons_self
    exact ih (h.apply hop) fun op' hop' => hops op' (List.mem_cons_of_mem op hop')

theorem putOps_proper (a : AssetStore) (bytes : List UInt8) {e : Option String} (he : Simple e)
    (nowMs : UnixMs) : ∀ op ∈ a.putOps bytes e nowMs, op.Proper := by
  have hdigest := isDigest_ofBytes bytes
  have htmp := tmpName_blobName hdigest he
  intro op hop
  rcases List.mem_append.mp hop with hop | hop
  · split_ifs at hop
    · exact absurd hop List.not_mem_nil
    · rcases List.mem_append.mp hop with hop | hop
      · rcases List.mem_cons.mp hop with rfl | hop
        · exact ⟨_, some "tmp", hdigest, simple_tmp, htmp⟩
        · obtain ⟨byte, -, rfl⟩ := List.mem_map.mp hop
          trivial
      · rw [List.mem_singleton.mp hop]
        exact ⟨_, e, hdigest, he, rfl⟩
  · rw [List.mem_singleton.mp hop]
    exact ⟨hdigest, he⟩

theorem Proper.putAsset (h : a.Proper) (bytes : List UInt8) {e : Option String} (he : Simple e)
    (nowMs : UnixMs) : (a.putAsset bytes e nowMs).2.Proper :=
  h.run (a.putOps_proper bytes he nowMs)

end Operations

end AssetStore

namespace Store

variable {s : Store AssetStore} {n hash : String}

structure Collectable (s : Store AssetStore) : Prop where
  assets : s.assets.Proper
  links : ∀ p hash, (p, hash) ∈ s.programAssets → (s.row p).isSome

section Passes

theorem mem_unreferenced {a : AssetStore} {linked : List String} :
    hash ∈ (a.unreferenced linked).map Prod.fst ↔ (a.rows.get hash).isSome ∧ hash ∉ linked := by
  constructor
  · intro hmem
    obtain ⟨e, he, rfl⟩ := List.mem_map.mp hmem
    obtain ⟨hrow, hnot⟩ := List.mem_filter.mp he
    exact ⟨Option.isSome_iff_exists.mpr ⟨e.2, Table.mem_rows_iff.mp hrow⟩, of_decide_eq_true hnot⟩
  · intro h
    obtain ⟨row, hrow⟩ := Option.isSome_iff_exists.mp h.1
    have hmem : (hash, row) ∈ a.unreferenced linked :=
      List.mem_filter.mpr ⟨Table.mem_rows_iff.mpr hrow, decide_eq_true h.2⟩
    exact List.mem_map_of_mem hmem

theorem rows_gcAssets (s : Store AssetStore) (hash : String) :
    s.gcAssets.2.assets.rows.get hash =
      if hash ∈ s.referencedAssetHashes then s.assets.rows.get hash else none := by
  show (s.assets.run (s.assets.gcAssetsOps s.referencedAssetHashes)).rows.get hash = _
  rw [AssetStore.gcAssetsOps, AssetStore.run_append]
  refine AssetStore.rows_deleteRows.trans ?_
  rw [AssetStore.rows_removes]
  by_cases hlinked : hash ∈ s.referencedAssetHashes
  · rw [if_neg fun hmem => (mem_unreferenced.mp hmem).2 hlinked, if_pos hlinked]
  · rw [if_neg hlinked]
    split_ifs with hmem
    · rfl
    · by_contra hsome
      exact hmem (mem_unreferenced.mpr ⟨Option.isSome_iff_ne_none.mpr hsome, hlinked⟩)

def unreferencedBlobs (s : Store AssetStore) : List String :=
  ((s.assets.unreferenced s.referencedAssetHashes).map fun e => blobName e.1 e.2.extension).filter
    s.assets.exists?

theorem files_gcAssets (s : Store AssetStore) (n : String) : s.gcAssets.2.assets.files.get n =
    if n ∈ s.unreferencedBlobs then none else s.assets.files.get n := by
  show (s.assets.run (s.assets.gcAssetsOps s.referencedAssetHashes)).files.get n = _
  rw [AssetStore.gcAssetsOps, AssetStore.run_append]
  exact AssetStore.files_removes _

theorem not_mem_unreferencedBlobs
    (h : ∀ hash row, s.assets.rows.get hash = some row → IsDigest hash) {e : Option String}
    (hdigest : IsDigest hash) (hlinked : hash ∈ s.referencedAssetHashes) :
    blobName hash e ∉ s.unreferencedBlobs := by
  intro hmem
  obtain ⟨x, hx, hname⟩ := List.mem_map.mp (List.mem_filter.mp hmem).1
  obtain ⟨hrow, hnot⟩ := List.mem_filter.mp hx
  -- a blob that goes belongs to a row that is not linked, and its name tells which
  have hother := h x.1 x.2 (Table.mem_rows_iff.mp hrow)
  rw [eq_of_blobName_eq hother hdigest hname] at hnot
  exact of_decide_eq_true hnot hlinked

theorem rows_gcOrphanBlobs (s : Store AssetStore) :
    s.gcOrphanBlobs.2.assets.rows = s.assets.rows := AssetStore.rows_removes _

theorem files_gcOrphanBlobs (s : Store AssetStore) (n : String) :
    s.gcOrphanBlobs.2.assets.files.get n =
      if s.assets.isOrphan n then none else s.assets.files.get n := by
  refine (AssetStore.files_removes _).trans ?_
  by_cases horphan : s.assets.isOrphan n
  · rw [if_pos horphan]
    split_ifs with hmem
    · rfl
    · by_contra hsome
      have hfile : n ∈ s.assets.files.rows.map Prod.fst :=
        Table.lookup_isSome_iff.mp (Option.isSome_iff_ne_none.mpr hsome)
      exact hmem (List.mem_filter.mpr ⟨hfile, horphan⟩)
  · rw [if_neg horphan, if_neg fun hmem => horphan (List.mem_filter.mp hmem).2]

theorem Collectable.gcPrograms (h : s.Collectable) (olderThan : UnixMs) :
    (s.gcPrograms olderThan).Collectable := by
  refine ⟨h.assets, fun p hash hmem => ?_⟩
  exact (List.mem_filter.mp hmem).2

theorem Collectable.onAssets (h : s.Collectable) {ops : List AssetOp}
    (hops : ∀ op ∈ ops, op.Proper) : (s.onAssets ops).Collectable :=
  ⟨h.assets.run hops, h.links⟩

theorem Collectable.gcAssets (h : s.Collectable) : s.gcAssets.2.Collectable := by
  apply h.onAssets
  intro op hop
  rcases List.mem_append.mp hop with hop | hop
  · obtain ⟨name, -, rfl⟩ := List.mem_map.mp hop
    trivial
  · rw [List.mem_singleton.mp hop]
    trivial

theorem Collectable.gcOrphanBlobs (h : s.Collectable) : s.gcOrphanBlobs.2.Collectable := by
  apply h.onAssets
  intro op hop
  obtain ⟨name, -, rfl⟩ := List.mem_map.mp hop
  trivial

theorem Collectable.gcAll (h : s.Collectable) (olderThan : UnixMs) :
    (s.gcAll olderThan).2.Collectable := (h.gcPrograms olderThan).gcAssets.gcOrphanBlobs

end Passes

section Exact

structure Exact (s : Store AssetStore) (cutoff : UnixMs) : Prop where
  programs : ∀ p, (s.gcAll cutoff).2.row p = (s.row p).filter fun row => !row.expired cutoff
  kept : ∀ p hash, ((s.gcAll cutoff).2.row p).isSome → (p, hash) ∈ s.programAssets →
    (s.assets.rows.get hash).isSome →
      (s.gcAll cutoff).2.assets.rows.get hash = s.assets.rows.get hash ∧
        (s.gcAll cutoff).2.assets.getAsset hash = s.assets.getAsset hash
  linked : ∀ hash, ((s.gcAll cutoff).2.assets.rows.get hash).isSome →
    ∃ p, ((s.gcAll cutoff).2.row p).isSome ∧ (p, hash) ∈ (s.gcAll cutoff).2.programAssets
  stems : ∀ name, ((s.gcAll cutoff).2.assets.files.get name).isSome →
    ((s.gcAll cutoff).2.assets.rows.get (fileStem name)).isSome

theorem Collectable.exact (h : s.Collectable) (cutoff : UnixMs) : s.Exact cutoff := by
  let swept := s.gcPrograms cutoff
  have hswept : swept.Collectable := h.gcPrograms cutoff
  have hrows : ∀ hash, (s.gcAll cutoff).2.assets.rows.get hash =
      if hash ∈ swept.referencedAssetHashes then s.assets.rows.get hash else none := by
    intro hash
    have horphan : (s.gcAll cutoff).2.assets.rows = swept.gcAssets.2.assets.rows :=
      rows_gcOrphanBlobs _
    rw [horphan, rows_gcAssets]
    rfl
  refine ⟨fun p => Table.get_deleteWhere _, fun p hash hp hlink hrow => ?_, fun hash hrow => ?_,
    fun name hname => ?_⟩
  · have hlinked : hash ∈ swept.referencedAssetHashes :=
      List.mem_map.mpr ⟨(p, hash), List.mem_filter.mpr ⟨hlink, hp⟩, rfl⟩
    have hsame := (hrows hash).trans (if_pos hlinked)
    obtain ⟨row, hget⟩ := Option.isSome_iff_exists.mp hrow
    obtain ⟨hdigest, hsimple⟩ := h.assets.rows hash row hget
    refine ⟨hsame, ?_⟩
    have hext : (s.gcAll cutoff).2.assets.extensionOf hash = s.assets.extensionOf hash :=
      congrArg (Option.bind · AssetRow.extension) hsame
    have hextension : s.assets.extensionOf hash = row.extension :=
      congrArg (Option.bind · AssetRow.extension) hget
    have hstem := fileStem_blobName hdigest hsimple
    have hkept : ¬ swept.gcAssets.2.assets.isOrphan (blobName hash row.extension) := by
      have hknown : (swept.gcAssets.2.assets.rows.get hash).isSome := by
        rw [rows_gcAssets, if_pos hlinked]
        exact hrow
      rw [AssetStore.isOrphan, hstem, hknown]
      exact Bool.false_ne_true
    rw [AssetStore.getAsset, AssetStore.getAsset, hext, hextension]
    refine (files_gcOrphanBlobs swept.gcAssets.2 _).trans ?_
    rw [if_neg hkept]
    have hdigests := fun k r hk => (hswept.assets.rows k r hk).1
    rw [files_gcAssets, if_neg (not_mem_unreferencedBlobs hdigests hdigest hlinked)]
    rfl
  · rw [hrows] at hrow
    split_ifs at hrow with hlinked
    · obtain ⟨⟨p, hash'⟩, hmem, rfl⟩ := List.mem_map.mp hlinked
      exact ⟨p, hswept.links p hash' hmem, hmem⟩
    · exact absurd hrow Bool.false_ne_true
  · have hfiles : (s.gcAll cutoff).2.assets.files.get name =
        if swept.gcAssets.2.assets.isOrphan name then none
        else swept.gcAssets.2.assets.files.get name := files_gcOrphanBlobs _ name
    rw [hfiles] at hname
    split_ifs at hname with horphan
    · exact absurd hname Bool.false_ne_true
    · obtain ⟨hash, e, hdigest, hsimple, rfl⟩ := hswept.gcAssets.assets.files name hname
      have hstem := fileStem_blobName hdigest hsimple
      rw [hstem]
      -- no digest ends in `tmp`, so the file was spared because its hash is known
      rw [AssetStore.isOrphan, hstem, Bool.not_eq_true, Bool.and_eq_false_iff] at horphan
      rcases horphan with hknown | htmp
      · have horphans : (s.gcAll cutoff).2.assets.rows = swept.gcAssets.2.assets.rows :=
          rows_gcOrphanBlobs _
        rw [horphans]
        simpa using hknown
      · exact absurd (by simpa using htmp) hdigest.not_tmp

end Exact

end Store

end Vcli

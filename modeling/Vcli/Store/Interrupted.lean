import Vcli.Store.Collection

/-! What is put into the asset store can be got from it, also after calls that were stopped between
two of their operations. The blob of a row has to be there, and no temporary file may pass for it. -/

namespace Vcli

inductive StoreOp
  | asset (op : AssetOp)
  | gcPrograms (olderThan : UnixMs)
  | link (pid : ProgramId) (hash : String)

inductive AssetCall
  | put (bytes : List UInt8) (extension : Option String) (nowMs : UnixMs)
  | link (pid : ProgramId) (hash : String)
  | gcAssets
  | gcOrphanBlobs (fails : String → Bool)
  | gcAll (olderThan : UnixMs) (fails : String → Bool)

structure Attempt where
  call : AssetCall
  stop : Option Nat

namespace Store

def applyOp (s : Store AssetStore) : StoreOp → Store AssetStore
  | .asset op => { s with assets := s.assets.apply op }
  | .gcPrograms olderThan => s.gcPrograms olderThan
  | .link pid hash => match s.linkProgramAsset pid hash with
    | .ok s' => s'
    | .error _ => s

/-- A file that cannot be removed is passed over by `gc_orphan_blobs`. -/
def orphanOps (a : AssetStore) (fails : String → Bool) : List AssetOp :=
  (((a.files.rows.map Prod.fst).filter a.isOrphan).filter fun name => !fails name).map .remove

def assetOps (s : Store AssetStore) : List AssetOp := s.assets.gcAssetsOps s.referencedAssetHashes

def opsOf (s : Store AssetStore) : AssetCall → List StoreOp
  | .put bytes extension nowMs => (s.assets.putOps bytes extension nowMs).map .asset
  | .link pid hash => [.link pid hash]
  | .gcAssets => s.assetOps.map .asset
  | .gcOrphanBlobs fails => (orphanOps s.assets fails).map .asset
  | .gcAll olderThan fails =>
    .gcPrograms olderThan :: (s.gcPrograms olderThan).assetOps.map .asset ++
      (orphanOps (s.gcPrograms olderThan).gcAssets.2.assets fails).map .asset

def perform (s : Store AssetStore) (t : Attempt) : Store AssetStore :=
  ((s.opsOf t.call).take (t.stop.getD (s.opsOf t.call).length)).foldl applyOp s

def performs (s : Store AssetStore) (ts : List Attempt) : Store AssetStore := ts.foldl perform s

end Store

/-- A name that no `atomic_write` writes to on its way. -/
def Lasting (e : Option String) : Prop :=
  ∀ ext ∈ e, '/' ∉ ext.toList ∧ ¬ ".tmp".toList <:+ '.' :: ext.toList

def Undotted (a : AssetStore) : Prop :=
  ∀ hash row, a.rows.get hash = some row → ∀ ext ∈ row.extension, '.' ∉ ext.toList

def Attempt.reaches (t : Attempt) (n : Nat) : Prop := ∀ stop ∈ t.stop, n ≤ stop

def Attempt.Puts (t : Attempt) (B : List UInt8 → Prop) : Prop :=
  ∀ bytes e nowMs, t.call = .put bytes e nowMs → B bytes

/-- What keeps a call from the defects: its name is no temporary one, rows go with their blobs,
and orphans are told from blobs. -/
def Attempt.Careful (t : Attempt) (s : Store AssetStore) : Prop :=
  match t.call with
  | .put _ extension _ => Lasting extension
  | .link _ _ => True
  | .gcAssets => t.stop = some 0 ∨ t.reaches s.assetOps.length
  | .gcOrphanBlobs _ => t.stop = some 0 ∨ Undotted s.assets
  | .gcAll olderThan _ =>
    let swept := s.gcPrograms olderThan
    t.stop = some 0 ∨ t.stop = some 1 ∨ t.reaches (swept.assetOps.length + 1) ∧
      (t.stop = some (swept.assetOps.length + 1) ∨ Undotted swept.gcAssets.2.assets)

section Names
variable {hash name : String} {e : Option String}

theorem not_suffix_blobName (h : IsDigest hash) (he : Lasting e) :
    ¬ ".tmp".toList <:+ (blobName hash e).toList := by
  intro hsuffix
  rw [toList_blobName] at hsuffix
  have hbare : ¬ ".tmp".toList <:+ hash.toList := by
    intro htmp
    exact h.no_dot (htmp.subset (by decide))
  cases e with
  | none =>
    rw [suffix, List.append_nil] at hsuffix
    exact hbare hsuffix
  | some ext =>
    rw [suffix] at hsuffix
    split_ifs at hsuffix
    · rw [List.append_nil] at hsuffix
      exact hbare hsuffix
    · have hlast : '.' :: ext.toList <:+ hash.toList ++ '.' :: ext.toList := List.suffix_append _ _
      rcases List.suffix_or_suffix_of_suffix hsuffix hlast with htmp | hext
      · exact (he ext rfl).2 htmp
      · -- a suffix of `.tmp` that starts with the dot is all of it
        obtain ⟨front, hfront⟩ := hext
        cases front with
        | nil =>
          rw [List.nil_append] at hfront
          exact (he ext rfl).2 (hfront ▸ List.suffix_refl _)
        | cons c front =>
          have htail : front ++ '.' :: ext.toList = ['t', 'm', 'p'] := List.tail_eq_of_cons_eq hfront
          have hdot : '.' ∈ ['t', 'm', 'p'] := htail ▸ List.mem_append_right _ List.mem_cons_self
          exact absurd hdot (by decide)

theorem tmpName_ne (h : IsDigest hash) (he : Lasting e) (name : String) :
    blobName hash e ≠ tmpName name := by
  have htmp : (tmpName name).toList = FileName.stem name.toList ++ ".tmp".toList :=
    String.toList_ofList
  intro heq
  apply not_suffix_blobName h he
  rw [heq, htmp]
  exact List.suffix_append _ _

end Names

namespace AssetStore

variable {B : List UInt8 → Prop} {a b : AssetStore} {hash name : String} {e : Option String}
  {bytes : List UInt8}

/-- Every row has its blob, and every blob that lasts holds bytes of its hash that were put. -/
structure Sound (B : List UInt8 → Prop) (a : AssetStore) : Prop where
  rows : ∀ hash row, a.rows.get hash = some row → IsDigest hash ∧ Lasting row.extension ∧
    (a.files.get (blobName hash row.extension)).isSome
  files : ∀ hash e bytes, IsDigest hash → Lasting e →
    a.files.get (blobName hash e) = some bytes → B bytes ∧ AssetHash.ofBytes bytes = hash

theorem sound_empty : Sound B empty := ⟨nofun, nofun⟩

/-- The stores differ in files that are no lasting blobs. -/
structure Alike (a b : AssetStore) : Prop where
  rows : b.rows = a.rows
  files : ∀ hash e, IsDigest hash → Lasting e →
    b.files.get (blobName hash e) = a.files.get (blobName hash e)

theorem Sound.alike (h : Sound B a) (hab : Alike a b) : Sound B b := by
  refine ⟨fun hash row hrow => ?_, fun hash e bytes hdigest he hget => ?_⟩
  · rw [hab.rows] at hrow
    obtain ⟨hdigest, he, hfile⟩ := h.rows hash row hrow
    rw [hab.files hash row.extension hdigest he]
    exact ⟨hdigest, he, hfile⟩
  · rw [hab.files hash e hdigest he] at hget
    exact h.files hash e bytes hdigest he hget

section Write

def Scratch (path : String) (op : AssetOp) : Prop :=
  op = .create (tmpName path) ∨ ∃ byte, op = .append (tmpName path) byte

theorem alike_scratch {path : String} {ops : List AssetOp} (hops : ∀ op ∈ ops, Scratch path op) :
    Alike a (a.run ops) := by
  induction ops generalizing a with
  | nil => exact ⟨rfl, fun _ _ _ _ => rfl⟩
  | cons op ops ih =>
    have hrest := ih (a := a.apply op) fun op' hop' => hops op' (List.mem_cons_of_mem op hop')
    have hfirst : Alike a (a.apply op) := by
      rcases hops op List.mem_cons_self with rfl | ⟨byte, rfl⟩
      · refine ⟨rfl, fun hash e hdigest he => ?_⟩
        rw [files_create, if_neg (tmpName_ne hdigest he path)]
      · refine ⟨rfl, fun hash e hdigest he => ?_⟩
        rw [files_append, if_neg (tmpName_ne hdigest he path)]
    refine ⟨hrest.rows.trans hfirst.rows, fun hash e hdigest he => ?_⟩
    exact (hrest.files hash e hdigest he).trans (hfirst.files hash e hdigest he)

theorem scratch_write {path : String} {bytes : List UInt8} :
    ∀ op ∈ AssetOp.create (tmpName path) :: bytes.map (.append (tmpName path)), Scratch path op := by
  intro op hop
  rcases List.mem_cons.mp hop with rfl | hop
  · exact .inl rfl
  · obtain ⟨byte, -, rfl⟩ := List.mem_map.mp hop
    exact .inr ⟨byte, rfl⟩

theorem Sound.insertRow (h : Sound B a) (row : AssetRow) (hdigest : IsDigest hash)
    (he : Lasting row.extension) (hfile : (a.files.get (blobName hash row.extension)).isSome) :
    Sound B (a.apply (.insertRow hash row)) := by
  refine ⟨fun k r hk => ?_, h.files⟩
  rcases eq_some_of_insertRow hk with hold | ⟨rfl, rfl⟩
  · exact h.rows k r hold
  · exact ⟨hdigest, he, hfile⟩

theorem Sound.rename (h : Sound B a) (hB : B bytes)
    (htmp : a.files.get (tmpName (blobName (AssetHash.ofBytes bytes) e)) = some bytes) :
    Sound B (a.apply (.rename (tmpName (blobName (AssetHash.ofBytes bytes) e))
      (blobName (AssetHash.ofBytes bytes) e))) := by
  have hput := isDigest_ofBytes bytes
  have hget : ∀ k f, IsDigest k → Lasting f →
      (a.apply (.rename (tmpName (blobName (AssetHash.ofBytes bytes) e))
        (blobName (AssetHash.ofBytes bytes) e))).files.get (blobName k f) =
      if blobName k f = blobName (AssetHash.ofBytes bytes) e then some bytes
        else a.files.get (blobName k f) := by
    intro k f hk hf
    rw [files_rename htmp, if_neg (tmpName_ne hk hf _)]
  refine ⟨fun k row hrow => ?_, fun k f c hk hf hc => ?_⟩
  · rw [rows_rename] at hrow
    obtain ⟨hk, hf, hfile⟩ := h.rows k row hrow
    refine ⟨hk, hf, ?_⟩
    rw [hget k row.extension hk hf]
    split_ifs
    · rfl
    · exact hfile
  · rw [hget k f hk hf] at hc
    split_ifs at hc with heq
    · rw [← Option.some.inj hc]
      exact ⟨hB, (eq_of_blobName_eq hk hput heq).symm⟩
    · exact h.files k f c hk hf hc

/-- `put_asset` may stop anywhere. -/
theorem Sound.put (h : Sound B a) (hB : B bytes) (he : Lasting e) (nowMs : UnixMs) (n : Nat) :
    Sound B (a.run ((a.putOps bytes e nowMs).take n)) := by
  let path := blobName (AssetHash.ofBytes bytes) e
  let row : AssetRow := ⟨if bytes.length < 2 ^ 63 then bytes.length else 2 ^ 63 - 1, e, nowMs⟩
  let scratch := AssetOp.create (tmpName path) :: bytes.map (.append (tmpName path))
  have hdigest := isDigest_ofBytes bytes
  by_cases hexists : a.exists? path
  · have hops : a.putOps bytes e nowMs = [.insertRow (AssetHash.ofBytes bytes) row] := by
      simp only [putOps]
      rw [if_pos hexists]
      rfl
    rw [hops]
    cases n with
    | zero => exact h
    | succ n =>
      rw [List.take_succ_cons, List.take_nil]
      exact h.insertRow row hdigest he hexists
  · have hops : a.putOps bytes e nowMs = scratch ++
        [.rename (tmpName path) path, .insertRow (AssetHash.ofBytes bytes) row] := by
      simp only [putOps]
      rw [if_neg hexists, atomicWrite, List.append_assoc]
      rfl
    have hwritten : (a.run scratch).files.get (tmpName path) = some bytes := by
      have hcreated : (a.apply (.create (tmpName path))).files.get (tmpName path) = some [] := by
        rw [files_create, if_pos rfl]
      show ((a.apply (.create (tmpName path))).run (bytes.map (.append (tmpName path)))).files.get
        (tmpName path) = some bytes
      rw [files_appends, if_pos rfl, hcreated]
      rfl
    have halike : Alike a (a.run scratch) := alike_scratch scratch_write
    have hrenamed := (h.alike halike).rename hB hwritten
    rw [hops, List.take_append, run_append]
    -- the call stops in the temporary file, before its rename, before its row or at its end
    by_cases hn : n ≤ scratch.length
    · rw [Nat.sub_eq_zero_of_le hn]
      exact h.alike (alike_scratch fun op hop => scratch_write op (List.mem_of_mem_take hop))
    · rw [List.take_of_length_le (by omega)]
      obtain ⟨k, hk⟩ : ∃ k, n - scratch.length = k + 1 := ⟨n - scratch.length - 1, by omega⟩
      rw [hk]
      cases k with
      | zero => exact hrenamed
      | succ k =>
        rw [List.take_succ_cons, List.take_succ_cons, List.take_nil]
        refine hrenamed.insertRow row hdigest he ?_
        show (Table.get _ path).isSome
        rw [files_rename hwritten, if_pos rfl]
        rfl

theorem rows_apply {op : AssetOp} (hop : ∀ hashes, op ≠ .deleteRows hashes)
    (h : (a.rows.get hash).isSome) : ((a.apply op).rows.get hash).isSome := by
  cases op with
  | rename source target =>
    rw [rows_rename]
    exact h
  | insertRow k row =>
    rw [rows_insertRow]
    split_ifs
    · rw [Option.isSome_or, h, Bool.true_or]
    · exact h
  | deleteRows hashes => exact absurd rfl (hop hashes)
  | create name | append name byte | remove name => exact h

theorem rows_run {ops : List AssetOp} (hops : ∀ op ∈ ops, ∀ hashes, op ≠ .deleteRows hashes)
    (h : (a.rows.get hash).isSome) : ((a.run ops).rows.get hash).isSome := by
  induction ops generalizing a with
  | nil => exact h
  | cons op ops ih =>
    have hfirst := rows_apply (hops op List.mem_cons_self) h
    exact ih (fun op' hop' => hops op' (List.mem_cons_of_mem op hop')) hfirst

theorem rows_put (nowMs : UnixMs) (n : Nat) (h : (a.rows.get hash).isSome) :
    ((a.run ((a.putOps bytes e nowMs).take n)).rows.get hash).isSome := by
  refine rows_run (fun op hop hashes => ?_) h
  rcases List.mem_append.mp (List.mem_of_mem_take hop) with hop | hop
  · split_ifs at hop
    · exact absurd hop List.not_mem_nil
    · rcases List.mem_append.mp hop with hop | hop
      · rcases scratch_write op hop with rfl | ⟨byte, rfl⟩ <;> exact fun hno => by cases hno
      · rw [List.mem_singleton.mp hop]
        exact fun hno => by cases hno
  · rw [List.mem_singleton.mp hop]
    exact fun hno => by cases hno

theorem rows_put_self (a : AssetStore) (bytes : List UInt8) (e : Option String) (nowMs : UnixMs) :
    ((a.run (a.putOps bytes e nowMs)).rows.get (AssetHash.ofBytes bytes)).isSome := by
  rw [putOps, run_append]
  show ((AssetStore.apply _ (.insertRow _ _)).rows.get _).isSome
  rw [rows_insertRow, if_pos rfl, Option.isSome_or]
  exact Bool.or_true _

end Write

section Collect
variable {s : Store AssetStore}

theorem Sound.gcAssets (h : Sound B s.assets) : Sound B s.gcAssets.2.assets := by
  have hdigests : ∀ hash row, s.assets.rows.get hash = some row → IsDigest hash :=
    fun hash row hrow => (h.rows hash row hrow).1
  refine ⟨fun hash row hrow => ?_, fun hash e bytes hdigest he hget => ?_⟩
  · rw [Store.rows_gcAssets] at hrow
    split_ifs at hrow with hlinked
    obtain ⟨hdigest, he, hfile⟩ := h.rows hash row hrow
    rw [Store.files_gcAssets, if_neg (Store.not_mem_unreferencedBlobs hdigests hdigest hlinked)]
    exact ⟨hdigest, he, hfile⟩
  · rw [Store.files_gcAssets] at hget
    split_ifs at hget
    exact h.files hash e bytes hdigest he hget

theorem Sound.removes (h : Sound B a) (hundotted : Undotted a) {names : List String}
    (hnames : ∀ name ∈ names, a.isOrphan name) : Sound B (a.run (names.map .remove)) := by
  refine ⟨fun hash row hrow => ?_, fun hash e bytes hdigest he hget => ?_⟩
  · rw [rows_removes] at hrow
    obtain ⟨hdigest, he, hfile⟩ := h.rows hash row hrow
    have hsimple : Simple row.extension :=
      fun ext hext => ⟨hundotted hash row hrow ext hext, (he ext hext).1⟩
    have hkept : blobName hash row.extension ∉ names := by
      intro hmem
      have horphan := hnames _ hmem
      rw [isOrphan, fileStem_blobName hdigest hsimple, hrow] at horphan
      exact absurd horphan Bool.false_ne_true
    rw [files_removes, if_neg hkept]
    exact ⟨hdigest, he, hfile⟩
  · rw [files_removes] at hget
    split_ifs at hget
    exact h.files hash e bytes hdigest he hget

end Collect

theorem Sound.getAsset (h : Sound B a)
    (hB : ∀ c, B c → AssetHash.ofBytes c = AssetHash.ofBytes bytes → c = bytes)
    (hrow : (a.rows.get (AssetHash.ofBytes bytes)).isSome) :
    a.getAsset (AssetHash.ofBytes bytes) = some bytes := by
  obtain ⟨row, hget⟩ := Option.isSome_iff_exists.mp hrow
  obtain ⟨hdigest, he, hfile⟩ := h.rows _ row hget
  obtain ⟨c, hc⟩ := Option.isSome_iff_exists.mp hfile
  obtain ⟨hBc, hhash⟩ := h.files _ _ c hdigest he hc
  have hext : a.extensionOf (AssetHash.ofBytes bytes) = row.extension :=
    congrArg (Option.bind · AssetRow.extension) hget
  rw [AssetStore.getAsset, hext, hc, hB c hBc hhash]

end AssetStore

namespace Store

variable {B : List UInt8 → Prop} {s : Store AssetStore}

theorem foldl_asset (ops : List AssetOp) (s : Store AssetStore) :
    (ops.map .asset).foldl applyOp s = { s with assets := s.assets.run ops } := by
  induction ops generalizing s with
  | nil => rfl
  | cons op ops ih => exact ih _

theorem perform_asset {t : Attempt} {ops : List AssetOp} (hops : s.opsOf t.call = ops.map .asset) :
    (s.perform t).assets = s.assets.run (ops.take (t.stop.getD ops.length)) := by
  rw [perform, hops, ← List.map_take, foldl_asset, List.length_map]

theorem take_of_reaches {α : Type} {t : Attempt} {l : List α} (h : t.reaches l.length) :
    l.take (t.stop.getD l.length) = l := by
  apply List.take_of_length_le
  cases hstop : t.stop with
  | none => exact Nat.le_refl _
  | some n => exact h n hstop

theorem assets_link (s : Store AssetStore) (pid : ProgramId) (hash : String) :
    (s.applyOp (.link pid hash)).assets = s.assets := by
  unfold applyOp linkProgramAsset
  dsimp only
  split_ifs <;> rfl

theorem sound_orphans (h : s.assets.Sound B) (hundotted : Undotted s.assets) (fails : String → Bool)
    (n : Nat) : (s.assets.run ((orphanOps s.assets fails).take n)).Sound B := by
  rw [orphanOps, ← List.map_take]
  apply h.removes hundotted
  intro name hname
  have hfiltered := (List.mem_filter.mp (List.mem_of_mem_take hname)).1
  exact (List.mem_filter.mp hfiltered).2

theorem perform_gcAll {olderThan : UnixMs} {fails : String → Bool} {stop : Option Nat} {k : Nat}
    (hstop : stop.getD (s.opsOf (.gcAll olderThan fails)).length =
      (s.gcPrograms olderThan).assetOps.length + 1 + k) :
    (s.perform ⟨.gcAll olderThan fails, stop⟩).assets =
      (s.gcPrograms olderThan).gcAssets.2.assets.run
        ((orphanOps (s.gcPrograms olderThan).gcAssets.2.assets fails).take k) := by
  have hlength : (StoreOp.gcPrograms olderThan ::
      (s.gcPrograms olderThan).assetOps.map StoreOp.asset).length =
        (s.gcPrograms olderThan).assetOps.length + 1 := by
    rw [List.length_cons, List.length_map]
  rw [perform, hstop, opsOf, List.take_append, List.take_of_length_le (by omega), hlength,
    Nat.add_sub_cancel_left, ← List.map_take, List.foldl_append, List.foldl_cons, foldl_asset,
    foldl_asset]
  rfl

theorem sound_gcAll (h : s.assets.Sound B) {olderThan : UnixMs} {fails : String → Bool}
    {stop : Option Nat} (ht : Attempt.Careful ⟨.gcAll olderThan fails, stop⟩ s) :
    (s.perform ⟨.gcAll olderThan fails, stop⟩).assets.Sound B := by
  have hswept : (s.gcPrograms olderThan).assets.Sound B := h
  have hcollected := hswept.gcAssets
  rcases ht with hnone | hprograms | ⟨hreach, hrest⟩
  · obtain rfl : stop = some 0 := hnone
    exact h
  · obtain rfl : stop = some 1 := hprograms
    exact h
  · obtain ⟨k, hk⟩ : ∃ k, stop.getD (s.opsOf (.gcAll olderThan fails)).length =
        (s.gcPrograms olderThan).assetOps.length + 1 + k := by
      apply Nat.exists_eq_add_of_le
      cases hstop : stop with
      | none =>
        show _ ≤ (_ ++ _ : List StoreOp).length
        rw [List.length_append, List.length_cons, List.length_map]
        exact Nat.le_add_right _ _
      | some n => exact hreach n hstop
    rw [perform_gcAll hk]
    rcases hrest with hstop | hundotted
    · obtain rfl : stop = some _ := hstop
      have hzero : k = 0 := by
        rw [Option.getD_some] at hk
        omega
      rw [hzero]
      exact hcollected
    · exact sound_orphans hcollected hundotted fails k

theorem sound_perform (h : s.assets.Sound B) {t : Attempt} (ht : t.Careful s) (hB : t.Puts B) :
    (s.perform t).assets.Sound B := by
  obtain ⟨call, stop⟩ := t
  cases call with
  | put bytes e nowMs =>
    rw [perform_asset rfl]
    exact h.put (hB bytes e nowMs rfl) ht nowMs _
  | link pid hash =>
    have hsame : (s.perform ⟨.link pid hash, stop⟩).assets = s.assets := by
      unfold perform
      cases stop.getD (s.opsOf (.link pid hash)).length with
      | zero => rfl
      | succ n =>
        rw [opsOf, List.take_succ_cons, List.take_nil]
        exact s.assets_link pid hash
    rw [hsame]
    exact h
  | gcAssets =>
    rw [perform_asset rfl]
    rcases ht with hnone | hall
    · rw [show stop = some 0 from hnone]
      exact h
    · rw [take_of_reaches hall]
      exact h.gcAssets
  | gcOrphanBlobs fails =>
    rw [perform_asset rfl]
    rcases ht with hnone | hundotted
    · rw [show stop = some 0 from hnone]
      exact h
    · exact sound_orphans h hundotted fails _
  | gcAll olderThan fails => exact sound_gcAll h ht

def CarefulRun (s : Store AssetStore) : List Attempt → Prop
  | [] => True
  | t :: ts => t.Careful s ∧ (s.perform t).CarefulRun ts

theorem sound_performs (h : s.assets.Sound B) {ts : List Attempt} (hts : s.CarefulRun ts)
    (hB : ∀ t ∈ ts, t.Puts B) : (s.performs ts).assets.Sound B := by
  induction ts generalizing s with
  | nil => exact h
  | cons t ts ih =>
    have hfirst := sound_perform h hts.1 (hB t List.mem_cons_self)
    exact ih hfirst hts.2 fun t' ht' => hB t' (List.mem_cons_of_mem t ht')

theorem rows_performs {hash : String} {ts : List Attempt}
    (hputs : ∀ t ∈ ts, ∃ bytes e nowMs, t.call = .put bytes e nowMs)
    (h : (s.assets.rows.get hash).isSome) : ((s.performs ts).assets.rows.get hash).isSome := by
  induction ts generalizing s with
  | nil => exact h
  | cons t ts ih =>
    obtain ⟨bytes, e, nowMs, hcall⟩ := hputs t List.mem_cons_self
    have hfirst : ((s.perform t).assets.rows.get hash).isSome := by
      rw [perform_asset (congrArg s.opsOf hcall)]
      exact AssetStore.rows_put nowMs _ h
    exact ih (fun t' ht' => hputs t' (List.mem_cons_of_mem t ht')) hfirst

def Distinct (ts : List Attempt) : Prop :=
  ∀ t ∈ ts, ∀ t' ∈ ts, ∀ bytes e nowMs bytes' e' nowMs', t.call = .put bytes e nowMs →
    t'.call = .put bytes' e' nowMs' → AssetHash.ofBytes bytes = AssetHash.ofBytes bytes' →
      bytes = bytes'

/-- In every careful run that starts without assets, what a put returned the hash of is got from
then on while nothing but puts follows. -/
theorem put_then_get (hs : s.assets = .empty) (before later : List Attempt) (bytes : List UInt8)
    (e : Option String) (nowMs : UnixMs)
    (hcareful : s.CarefulRun (before ++ ⟨.put bytes e nowMs, none⟩ :: later))
    (hlater : ∀ t ∈ later, ∃ bytes e nowMs, t.call = .put bytes e nowMs)
    (hdistinct : Distinct (before ++ ⟨.put bytes e nowMs, none⟩ :: later)) :
    (s.performs (before ++ ⟨.put bytes e nowMs, none⟩ :: later)).assets.getAsset
      (AssetHash.ofBytes bytes) = some bytes := by
  let ts := before ++ ⟨.put bytes e nowMs, none⟩ :: later
  let B : List UInt8 → Prop := fun c => ∃ t ∈ ts, ∃ e nowMs, t.call = .put c e nowMs
  have hmem : (⟨.put bytes e nowMs, none⟩ : Attempt) ∈ ts :=
    List.mem_append_right before List.mem_cons_self
  have hempty : s.assets.Sound B := by
    rw [hs]
    exact AssetStore.sound_empty
  have hsound : (s.performs ts).assets.Sound B :=
    sound_performs hempty hcareful fun t ht c e' now hcall => ⟨t, ht, e', now, hcall⟩
  have hB : ∀ c, B c → AssetHash.ofBytes c = AssetHash.ofBytes bytes → c = bytes := by
    rintro c ⟨t, ht, e', now, hcall⟩ hhash
    exact hdistinct t ht _ hmem c e' now bytes e nowMs hcall rfl hhash
  -- the put inserts the row, if there is none, and later puts leave it
  have hrow : ((s.performs ts).assets.rows.get (AssetHash.ofBytes bytes)).isSome := by
    have hput : (((s.performs before).perform ⟨.put bytes e nowMs, none⟩).assets.rows.get
        (AssetHash.ofBytes bytes)).isSome := by
      rw [perform_asset rfl, Option.getD_none, List.take_length]
      exact AssetStore.rows_put_self _ bytes e nowMs
    have hsplit : s.performs ts =
        ((s.performs before).perform ⟨.put bytes e nowMs, none⟩).performs later := List.foldl_append
    rw [hsplit]
    exact rows_performs hlater hput
  exact hsound.getAsset hB hrow

def retried : List Attempt :=
  [⟨.put [97, 98, 99] (some "png") 0, some 2⟩, ⟨.gcAssets, none⟩]

def pngTwice : List Attempt := [⟨.put [97, 98, 99] (some "png") 2, none⟩]

theorem put_then_get_retried :
    ((Store.fresh AssetStore.empty).performs
      (retried ++ ⟨.put [97, 98, 99] (some "jpg") 1, none⟩ :: pngTwice)).assets.getAsset
        (AssetHash.ofBytes [97, 98, 99]) = some [97, 98, 99] := by
  have hlasting : ∀ ext ∈ ["png", "jpg"], Lasting (some ext) := by
    intro ext hext ext' hsame
    obtain rfl := Option.some.inj hsame
    rcases List.mem_cons.mp hext with rfl | hext
    · decide
    · rw [List.mem_singleton.mp hext]
      decide
  have hpng : Lasting (some "png") := hlasting "png" (by decide)
  have hjpg : Lasting (some "jpg") := hlasting "jpg" (by decide)
  apply put_then_get rfl
  · exact ⟨hpng, .inr nofun, hjpg, hpng, trivial⟩
  · intro t ht
    rw [List.mem_singleton.mp ht]
    exact ⟨_, _, _, rfl⟩
  · have hbytes : ∀ t ∈ retried ++ ⟨.put [97, 98, 99] (some "jpg") 1, none⟩ :: pngTwice,
        ∀ bytes e nowMs, t.call = .put bytes e nowMs → bytes = [97, 98, 99] := by
      intro t ht bytes e nowMs hcall
      simp only [retried, pngTwice, List.cons_append, List.nil_append, List.mem_cons,
        List.not_mem_nil, or_false] at ht
      rcases ht with rfl | rfl | rfl | rfl <;> simp at hcall <;> exact hcall.1.symm
    intro t ht t' ht' b e now b' e' now' hb hb' _
    rw [hbytes t ht b e now hb, hbytes t' ht' b' e' now' hb']

/-- The temporary file of one put is the blob of another; a collection stops between a blob and
its row; the blob of a row is taken for an orphan. -/
theorem put_then_get_fails :
    ((Store.fresh AssetStore.empty).performs
      [⟨.put [97, 98, 99] (some "tmp") 0, none⟩,
        ⟨.put [97, 98, 99] (some "png") 0, none⟩]).assets.getAsset
          (AssetHash.ofBytes [97, 98, 99]) = none ∧
    ((Store.fresh AssetStore.empty).performs
      [⟨.put [97, 98, 99] (some "png") 0, none⟩, ⟨.gcAssets, some 1⟩,
        ⟨.put [97, 98, 99] (some "jpg") 0, none⟩]).assets.getAsset
          (AssetHash.ofBytes [97, 98, 99]) = none ∧
    ((Store.fresh AssetStore.empty).performs
      [⟨.put [97, 98, 99] (some "tar.gz") 0, none⟩, ⟨.gcOrphanBlobs fun _ => false, none⟩,
        ⟨.put [97, 98, 99] (some "png") 0, none⟩]).assets.getAsset
          (AssetHash.ofBytes [97, 98, 99]) = none := by
  decide +kernel

end Store

end Vcli

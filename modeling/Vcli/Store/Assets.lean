import Vcli.Core.Sha256
import Vcli.Lib.FileName
import Vcli.Store.Programs

/-! The asset store: blobs named by their digest and an extension, and the `assets` table. Each
call is a list of file and database operations, so that it can be stopped between any two. -/

namespace Vcli

structure AssetRow where
  byteLen : Int
  extension : Option String
  addedAt : UnixMs
deriving DecidableEq

/-- The table, and the files under `assets_root` by their names: the first four characters of a
name are those of its two directories. -/
structure AssetStore where
  rows : Table String AssetRow
  files : Table String (List UInt8)

def AssetHash.ofBytes (bytes : List UInt8) : String := Sha256.sha256Hex bytes

def blobName (hash : String) : Option String → String
  | some ext => if ext = "" then hash else hash ++ "." ++ ext
  | none => hash

def fileStem (name : String) : String := String.ofList (FileName.stem name.toList)

def tmpName (name : String) : String :=
  String.ofList (FileName.withExtension "tmp".toList name.toList)

inductive AssetOp
  | create (name : String)
  | append (name : String) (byte : UInt8)
  | rename (source target : String)
  | insertRow (hash : String) (row : AssetRow)
  | remove (name : String)
  | deleteRows (hashes : List String)

namespace AssetStore

def empty : AssetStore := ⟨.empty, .empty⟩

/-- One operation. A row that is there already stays as it is. -/
def apply (a : AssetStore) : AssetOp → AssetStore
  | .create name => { a with files := a.files.put name [] }
  | .append name byte => { a with files := a.files.update name (· ++ [byte]) }
  | .rename source target =>
    match a.files.get source with
    | some bytes => { a with files := (a.files.erase source).put target bytes }
    | none => a
  | .insertRow hash row => { a with rows := (a.rows.insert? hash row).getD a.rows }
  | .remove name => { a with files := a.files.erase name }
  | .deleteRows hashes => { a with rows := a.rows.deleteWhere fun hash _ => decide (hash ∈ hashes) }

def run (a : AssetStore) (ops : List AssetOp) : AssetStore := ops.foldl apply a

def exists? (a : AssetStore) (name : String) : Bool := (a.files.get name).isSome

def atomicWrite (path : String) (bytes : List UInt8) : List AssetOp :=
  .create (tmpName path) :: bytes.map (.append (tmpName path)) ++ [.rename (tmpName path) path]

def putOps (a : AssetStore) (bytes : List UInt8) (extension : Option String) (nowMs : UnixMs) :
    List AssetOp :=
  let hash := AssetHash.ofBytes bytes
  let path := blobName hash extension
  let byteLen : Int := if bytes.length < 2 ^ 63 then bytes.length else 2 ^ 63 - 1
  (if a.exists? path then [] else atomicWrite path bytes) ++
    [.insertRow hash ⟨byteLen, extension, nowMs⟩]

structure PutAssetOutcome where
  hash : String
  created : Bool
deriving DecidableEq

def putAsset (a : AssetStore) (bytes : List UInt8) (extension : Option String) (nowMs : UnixMs) :
    PutAssetOutcome × AssetStore :=
  let hash := AssetHash.ofBytes bytes
  (⟨hash, !a.exists? (blobName hash extension)⟩, a.run (a.putOps bytes extension nowMs))

def extensionOf (a : AssetStore) (hash : String) : Option String :=
  (a.rows.get hash).bind AssetRow.extension

/-- `get_asset` of a hash whose path stays inside the asset store. -/
def getAsset (a : AssetStore) (hash : String) : Option (List UInt8) :=
  a.files.get (blobName hash (a.extensionOf hash))

def unreferenced (a : AssetStore) (linked : List String) : List (String × AssetRow) :=
  a.rows.rows.filter fun e => decide (e.1 ∉ linked)

/-- What `gc_assets` does: the blobs go first, then the rows in one transaction. -/
def gcAssetsOps (a : AssetStore) (linked : List String) : List AssetOp :=
  (((a.unreferenced linked).map fun e => blobName e.1 e.2.extension).filter a.exists?).map .remove ++
    [.deleteRows ((a.unreferenced linked).map Prod.fst)]

/-- A file that `gc_orphan_blobs` takes for an orphan. -/
def isOrphan (a : AssetStore) (name : String) : Bool :=
  !(a.rows.get (fileStem name)).isSome && !"tmp".toList.isSuffixOf (fileStem name).toList

def gcOrphanOps (a : AssetStore) : List AssetOp :=
  ((a.files.rows.map Prod.fst).filter a.isOrphan).map .remove

end AssetStore

def countU32 (n : Nat) : Nat := if n < 2 ^ 32 then n else 0

structure GcReport where
  programsDeleted : Nat
  assetsDeleted : Nat
  blobsDeleted : Nat
  orphanBlobsDeleted : Nat
deriving DecidableEq

namespace Store

def referencedAssetHashes {α : Type} (s : Store α) : List String := s.programAssets.map Prod.snd

def onAssets (s : Store AssetStore) (ops : List AssetOp) : Store AssetStore :=
  { s with assets := s.assets.run ops }

def gcAssets (s : Store AssetStore) : (Nat × Nat) × Store AssetStore :=
  let unreferenced := s.assets.unreferenced s.referencedAssetHashes
  ((unreferenced.length,
      (unreferenced.filter fun e => s.assets.exists? (blobName e.1 e.2.extension)).length),
    s.onAssets (s.assets.gcAssetsOps s.referencedAssetHashes))

def gcOrphanBlobs (s : Store AssetStore) : Nat × Store AssetStore :=
  (s.assets.gcOrphanOps.length, s.onAssets s.assets.gcOrphanOps)

def gcAll (s : Store AssetStore) (olderThan : UnixMs) : GcReport × Store AssetStore :=
  let deleted := (s.programs.rows.filter fun e => e.2.expired olderThan).length
  let s := s.gcPrograms olderThan
  let assets := s.gcAssets
  let orphans := assets.2.gcOrphanBlobs
  (⟨countU32 deleted, assets.1.1, assets.1.2, orphans.1⟩, orphans.2)

end Store

namespace AssetStore

section Operations
variable {a : AssetStore} {name n hash h : String}

theorem run_append (a : AssetStore) (ops ops' : List AssetOp) :
    a.run (ops ++ ops') = (a.run ops).run ops' := List.foldl_append

theorem files_create : (a.apply (.create name)).files.get n =
    if n = name then some [] else a.files.get n := by
  split_ifs with hn
  · rw [hn]
    exact Table.get_put_self
  · exact Table.get_put_ne hn

theorem files_append {byte : UInt8} : (a.apply (.append name byte)).files.get n =
    if n = name then (a.files.get n).map (· ++ [byte]) else a.files.get n := by
  split_ifs with hn
  · rw [hn]
    exact Table.get_update_self _
  · exact Table.get_update_ne _ hn

theorem files_appends (bytes : List UInt8) : (a.run (bytes.map (.append name))).files.get n =
    if n = name then (a.files.get n).map (· ++ bytes) else a.files.get n := by
  induction bytes generalizing a with
  | nil =>
    split_ifs
    · simp only [List.append_nil, Option.map_id']
      rfl
    · rfl
  | cons byte bytes ih =>
    show ((a.apply (.append name byte)).run (bytes.map (.append name))).files.get n = _
    rw [ih, files_append]
    split_ifs
    · rw [Option.map_map]
      simp only [Function.comp_def, List.append_assoc, List.singleton_append]
    · rfl

theorem rename_missing {target : String} (hname : a.files.get name = none) :
    a.apply (.rename name target) = a := by
  simp only [apply, hname]

theorem files_rename {target : String} {bytes : List UInt8} (hname : a.files.get name = some bytes) :
    (a.apply (.rename name target)).files.get n =
      if n = target then some bytes else if n = name then none else a.files.get n := by
  simp only [apply, hname]
  split_ifs with htarget hsource
  · rw [htarget, Table.get_put_self]
  · rw [Table.get_put_ne htarget, hsource, Table.get_erase_self]
  · rw [Table.get_put_ne htarget, Table.get_erase_ne hsource]

theorem rows_rename {target : String} : (a.apply (.rename name target)).rows = a.rows := by
  cases hname : a.files.get name with
  | none => rw [rename_missing hname]
  | some bytes => simp only [apply, hname]

theorem files_remove : (a.apply (.remove name)).files.get n =
    if n = name then none else a.files.get n := by
  split_ifs with hn
  · rw [hn]
    exact Table.get_erase_self
  · exact Table.get_erase_ne hn

theorem rows_deleteRows {hashes : List String} : (a.apply (.deleteRows hashes)).rows.get h =
    if h ∈ hashes then none else a.rows.get h := by
  refine (Table.get_deleteWhere _).trans ?_
  cases a.rows.get h <;> by_cases hmem : h ∈ hashes <;> simp [hmem]

theorem rows_insertRow {row : AssetRow} : (a.apply (.insertRow hash row)).rows.get h =
    if h = hash then (a.rows.get h).or (some row) else a.rows.get h := by
  show ((a.rows.insert? hash row).getD a.rows).get h = _
  cases hins : a.rows.insert? hash row with
  | none =>
    have hsome : (a.rows.get hash).isSome := by
      by_contra hnone
      obtain ⟨t, ht, -⟩ := Table.insert?_some (r := row) (Option.not_isSome_iff_eq_none.mp hnone)
      exact nomatch hins.symm.trans ht
    obtain ⟨old, hold⟩ := Option.isSome_iff_exists.mp hsome
    rw [Option.getD_none]
    split_ifs with heq
    · rw [heq, hold, Option.some_or]
    · rfl
  | some t =>
    obtain ⟨hnone, hself, hne⟩ := Table.insert?_eq_some hins
    rw [Option.getD_some]
    split_ifs with heq
    · rw [heq, hself, hnone, Option.none_or]
    · exact hne h heq

theorem eq_some_of_insertRow {row r : AssetRow}
    (hr : (a.apply (.insertRow hash row)).rows.get h = some r) :
    a.rows.get h = some r ∨ h = hash ∧ row = r := by
  rw [rows_insertRow] at hr
  split_ifs at hr with heq
  · cases hold : a.rows.get h with
    | some old =>
      rw [hold, Option.some_or] at hr
      exact .inl hr
    | none =>
      rw [hold, Option.none_or] at hr
      exact .inr ⟨heq, Option.some.inj hr⟩
  · exact .inl hr

theorem files_removes (names : List String) : (a.run (names.map .remove)).files.get n =
    if n ∈ names then none else a.files.get n := by
  induction names generalizing a with
  | nil => rfl
  | cons m names ih =>
    show ((a.apply (.remove m)).run (names.map .remove)).files.get n = _
    rw [ih, files_remove]
    by_cases hn : n = m <;> by_cases hmem : n ∈ names <;> simp [hn, hmem]

theorem rows_removes (names : List String) : (a.run (names.map .remove)).rows = a.rows := by
  induction names generalizing a with
  | nil => rfl
  | cons m names ih => exact ih

end Operations

end AssetStore

section Names

structure IsDigest (hash : String) : Prop where
  length : hash.toList.length = 64
  hex : ∀ c ∈ hash.toList, c ∈ "0123456789abcdef".toList

theorem isDigest_ofBytes (bytes : List UInt8) : IsDigest (AssetHash.ofBytes bytes) :=
  ⟨Sha256.length_sha256Hex bytes, fun _ => Sha256.mem_sha256Hex⟩

variable {hash hash' : String} {e e' : Option String}

theorem IsDigest.no_dot (h : IsDigest hash) : '.' ∉ hash.toList := by
  intro hdot
  exact absurd (h.hex '.' hdot) (by decide)

theorem IsDigest.ne_nil (h : IsDigest hash) : hash.toList ≠ [] := by
  intro hnil
  have hlength := h.length
  rw [hnil] at hlength
  exact absurd hlength (by decide)

theorem IsDigest.not_tmp (h : IsDigest hash) : ¬ "tmp".toList.isSuffixOf hash.toList := by
  intro hsuffix
  have hmem : 'p' ∈ hash.toList := (List.isSuffixOf_iff_suffix.mp hsuffix).subset (by decide)
  exact absurd (h.hex 'p' hmem) (by decide)

def suffix : Option String → List Char
  | some ext => if ext = "" then [] else '.' :: ext.toList
  | none => []

theorem toList_blobName (hash : String) (e : Option String) :
    (blobName hash e).toList = hash.toList ++ suffix e := by
  cases e with
  | none => rw [blobName, suffix, List.append_nil]
  | some ext =>
    rw [blobName, suffix]
    split_ifs with hext
    · rw [List.append_nil]
    · rw [String.toList_append, String.toList_append, List.append_assoc]
      rfl

theorem takeWhile_blobName (h : IsDigest hash) (e : Option String) :
    (blobName hash e).toList.takeWhile (· ≠ '.') = hash.toList := by
  have hall : ∀ c ∈ hash.toList, decide (c ≠ '.') = true := by
    intro c hc
    exact decide_eq_true fun hdot => h.no_dot (hdot ▸ hc)
  have hstop : (suffix e).takeWhile (· ≠ '.') = [] := by
    cases e with
    | none => rfl
    | some ext =>
      rw [suffix]
      split_ifs <;> rfl
  rw [toList_blobName, List.takeWhile_append_of_pos hall, hstop, List.append_nil]

theorem eq_of_blobName_eq (h : IsDigest hash) (h' : IsDigest hash')
    (heq : blobName hash e = blobName hash' e') : hash = hash' := by
  have htake := takeWhile_blobName h e
  rw [heq, takeWhile_blobName h' e'] at htake
  exact String.toList_inj.mp htake.symm

/-- An extension as `put_asset` asks for it, without a dot; a separator would make directories. -/
def Simple (e : Option String) : Prop := ∀ ext ∈ e, '.' ∉ ext.toList ∧ '/' ∉ ext.toList

theorem fileStem_blobName (h : IsDigest hash) (he : Simple e) :
    fileStem (blobName hash e) = hash := by
  have hstem : FileName.stem (blobName hash e).toList = hash.toList := by
    rw [toList_blobName]
    cases e with
    | none => rw [suffix, List.append_nil, FileName.stem_of_no_dot h.no_dot]
    | some ext =>
      rw [suffix]
      split_ifs
      · rw [List.append_nil, FileName.stem_of_no_dot h.no_dot]
      · exact FileName.stem_append h.ne_nil (he ext rfl).1
  rw [fileStem, hstem, String.ofList_toList]

theorem tmpName_blobName (h : IsDigest hash) (he : Simple e) :
    tmpName (blobName hash e) = blobName hash (some "tmp") := by
  have hstem := congrArg String.toList (fileStem_blobName h he)
  rw [fileStem, String.toList_ofList] at hstem
  rw [tmpName, FileName.withExtension, hstem]
  apply String.toList_inj.mp
  rw [String.toList_ofList, toList_blobName]
  rfl

theorem simple_tmp : Simple (some "tmp") := by
  intro ext hext
  rw [← Option.some.inj hext]
  decide

end Names

end Vcli

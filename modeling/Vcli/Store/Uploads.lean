import Mathlib.Data.List.Induction
import Vcli.Lib.Slot
import Vcli.Store.Collection

/-! The asset store after files have been put into it one by one. A file that has the extension
`tmp` has the name that other blobs of its digest are first written to. -/

namespace Vcli

structure Upload where
  bytes : List UInt8
  extension : Option String
  simple : Simple extension

namespace Upload

def hash (u : Upload) : String := AssetHash.ofBytes u.bytes

def blob (u : Upload) : String := blobName u.hash u.extension

def Under (name : String) (u : Upload) (bytes : List UInt8) : Prop :=
  u.blob = name ∧ u.bytes = bytes

def row (nowMs : UnixMs) (u : Upload) : AssetRow :=
  ⟨if u.bytes.length < 2 ^ 63 then u.bytes.length else 2 ^ 63 - 1, u.extension, nowMs⟩

theorem isDigest_hash (u : Upload) : IsDigest u.hash := isDigest_ofBytes u.bytes

theorem tmpName_blob (u : Upload) : tmpName u.blob = blobName u.hash (some "tmp") :=
  tmpName_blobName u.isDigest_hash u.simple

theorem tmpName_ne {u w : Upload} (h : u.blob ≠ tmpName u.blob) : u.blob ≠ tmpName w.blob := by
  intro heq
  have hhash : u.hash = w.hash :=
    eq_of_blobName_eq u.isDigest_hash w.isDigest_hash (heq.trans w.tmpName_blob)
  rw [w.tmpName_blob, ← hhash, ← u.tmpName_blob] at heq
  exact h heq

end Upload

namespace AssetStore

variable {a : AssetStore} {nowMs : UnixMs} {us : List Upload} {u : Upload} {n h : String}
  {b : List UInt8}

def stored (a : AssetStore) (nowMs : UnixMs) (us : List Upload) : AssetStore :=
  us.foldl (fun a u => (a.putAsset u.bytes u.extension nowMs).2) a

section Put

theorem stored_append_one (us : List Upload) (u : Upload) : a.stored nowMs (us ++ [u]) =
    ((a.stored nowMs us).putAsset u.bytes u.extension nowMs).2 := List.foldl_append

theorem Proper.stored (h : a.Proper) (nowMs : UnixMs) (us : List Upload) :
    (a.stored nowMs us).Proper := by
  induction us using List.reverseRecOn with
  | nil => exact h
  | append_singleton us u ih =>
    rw [stored_append_one]
    exact ih.putAsset u.bytes u.simple nowMs

theorem putAsset_eq (a : AssetStore) (u : Upload) : (a.putAsset u.bytes u.extension nowMs).2 =
    (a.run (if a.exists? u.blob then [] else atomicWrite u.blob u.bytes)).apply
      (.insertRow u.hash (u.row nowMs)) := by
  rw [putAsset, putOps, run_append]
  rfl

theorem files_atomicWrite (name : String) (bytes : List UInt8) :
    (a.run (atomicWrite name bytes)).files.get n =
      if n = name then some bytes else if n = tmpName name then none else a.files.get n := by
  have hscratch : ∀ m,
      (a.run (.create (tmpName name) :: bytes.map (.append (tmpName name)))).files.get m =
        if m = tmpName name then some bytes else a.files.get m := by
    intro m
    show ((a.apply (.create (tmpName name))).run _).files.get m = _
    rw [files_appends, files_create]
    split_ifs <;> rfl
  rw [atomicWrite, run_append]
  have hwritten := hscratch (tmpName name)
  rw [if_pos rfl] at hwritten
  refine (files_rename hwritten).trans ?_
  rw [hscratch n]
  split_ifs <;> rfl

theorem rows_atomicWrite (name : String) (bytes : List UInt8) :
    (a.run (atomicWrite name bytes)).rows = a.rows := by
  have happends : ∀ (c : AssetStore) (m : String),
      (c.run (bytes.map (.append m))).rows = c.rows := by
    intro c m
    induction bytes generalizing c with
    | nil => rfl
    | cons byte bytes ih => exact ih _
  rw [atomicWrite, run_append]
  exact rows_rename.trans (happends _ _)

theorem files_putAsset (a : AssetStore) (u : Upload) :
    (a.putAsset u.bytes u.extension nowMs).2.files.get n =
      if (a.files.get u.blob).isSome then a.files.get n
      else if n = u.blob then some u.bytes
      else if n = tmpName u.blob then none else a.files.get n := by
  rw [putAsset_eq]
  show (a.run (if a.exists? u.blob then [] else atomicWrite u.blob u.bytes)).files.get n = _
  by_cases hexists : (a.files.get u.blob).isSome
  · rw [exists?, if_pos hexists, if_pos hexists]
    rfl
  · rw [exists?, if_neg hexists, if_neg hexists]
    exact files_atomicWrite u.blob u.bytes

theorem files_putAsset_there (h : (a.files.get u.blob).isSome) :
    (a.putAsset u.bytes u.extension nowMs).2.files.get n = a.files.get n := by
  rw [files_putAsset, if_pos h]

theorem files_putAsset_self (a : AssetStore) (u : Upload) :
    (a.putAsset u.bytes u.extension nowMs).2.files.get u.blob =
      (a.files.get u.blob).or (some u.bytes) := by
  rw [files_putAsset, if_pos rfl]
  cases a.files.get u.blob <;> rfl

theorem files_putAsset_other (hblob : u.blob ≠ n) (htmp : tmpName u.blob ≠ n) :
    (a.putAsset u.bytes u.extension nowMs).2.files.get n = a.files.get n := by
  rw [files_putAsset, if_neg hblob.symm, if_neg htmp.symm, ite_self]

theorem files_putAsset_tmp (hblob : u.blob ≠ n) (htmp : tmpName u.blob = n)
    (habsent : a.files.get u.blob = none) :
    (a.putAsset u.bytes u.extension nowMs).2.files.get n = none := by
  have hnot : ¬ (a.files.get u.blob).isSome := Option.not_isSome_iff_eq_none.mpr habsent
  rw [files_putAsset, if_neg hnot, if_neg hblob.symm, if_pos htmp.symm]

theorem rows_putAsset (a : AssetStore) (u : Upload) :
    (a.putAsset u.bytes u.extension nowMs).2.rows.get h =
      (a.rows.get h).or (if u.hash = h then some (u.row nowMs) else none) := by
  have hrows : (a.run (if a.exists? u.blob then [] else atomicWrite u.blob u.bytes)).rows =
      a.rows := by
    split_ifs
    · rfl
    · exact rows_atomicWrite _ _
  rw [putAsset_eq, rows_insertRow, hrows]
  by_cases hhash : u.hash = h
  · rw [if_pos hhash.symm, if_pos hhash]
  · rw [if_neg fun heq => hhash heq.symm, if_neg hhash, Option.or_none]

theorem rows_stored (us : List Upload) : (a.stored nowMs us).rows.get h =
    (a.rows.get h).or ((us.find? fun u => u.hash = h).map (Upload.row nowMs)) := by
  induction us using List.reverseRecOn with
  | nil => exact (Option.or_none).symm
  | append_singleton us u ih =>
    rw [stored_append_one, rows_putAsset, ih, Option.or_assoc, List.find?_append,
      List.find?_singleton]
    cases us.find? fun u => u.hash = h with
    | some w => rfl
    | none => by_cases hhash : u.hash = h <;> simp [hhash]

def extensionWith (a : AssetStore) (us : List Upload) (hash : String) : Option String :=
  match a.rows.get hash with
  | some row => row.extension
  | none => (us.find? fun u => u.hash = hash).bind Upload.extension

theorem extensionOf_stored (us : List Upload) :
    (a.stored nowMs us).extensionOf h = a.extensionWith us h := by
  rw [extensionOf, rows_stored, extensionWith]
  cases a.rows.get h with
  | some row => rfl
  | none => cases us.find? fun u => u.hash = h <;> rfl

end Put

section Names

def IsNew (a : AssetStore) (before : List Upload) (u : Upload) : Prop :=
  a.files.get u.blob = none ∧ ∀ w ∈ before, w.blob ≠ u.blob

def Displaces (a : AssetStore) (name : String) (before : List Upload) (u : Upload) : Prop :=
  u.blob ≠ name ∧ tmpName u.blob = name ∧ a.IsNew before u

/-- What stands under a name once files are put: what stood there or the first file of the name,
but only since the last time another blob was written under it. -/
def Holds (a : AssetStore) (us : List Upload) (name : String) (bytes : List UInt8) : Prop :=
  Slot.Stands (fun _ u => u.Under name) (a.Displaces name) (a.files.get name) us bytes

theorem isNew_iff (nowMs : UnixMs) (hu : u.blob ≠ tmpName u.blob) (us : List Upload) :
    a.IsNew us u ↔ (a.stored nowMs us).files.get u.blob = none := by
  induction us using List.reverseRecOn with
  | nil => exact and_iff_left nofun
  | append_singleton us w ih =>
    have hstep : a.IsNew (us ++ [w]) u ↔ a.IsNew us u ∧ w.blob ≠ u.blob := by
      simp only [IsNew, List.forall_mem_append, List.forall_mem_singleton, and_assoc]
    rw [hstep, ih, stored_append_one]
    by_cases hblob : w.blob = u.blob
    · rw [← hblob, files_putAsset_self]
      cases (a.stored nowMs us).files.get w.blob <;> simp
    · rw [files_putAsset_other hblob (Upload.tmpName_ne hu).symm]
      exact and_iff_left hblob

theorem files_law (a : AssetStore) (nowMs : UnixMs) (name : String) :
    Slot.Law (fun _ u => u.Under name) (a.Displaces name)
      fun us => (a.stored nowMs us).files.get name where
  cleared us u h := by
    obtain ⟨hblob, htmp, hnew⟩ := h
    rw [stored_append_one]
    exact files_putAsset_tmp hblob htmp ((isNew_iff nowMs (htmp ▸ hblob) us).mp hnew)
  kept us u h bytes := by
    rw [stored_append_one, Upload.Under]
    by_cases hblob : u.blob = name
    · subst hblob
      rw [files_putAsset_self]
      cases (a.stored nowMs us).files.get u.blob <;> simp
    · suffices hsame : ((a.stored nowMs us).putAsset u.bytes u.extension nowMs).2.files.get name =
          (a.stored nowMs us).files.get name by
        rw [hsame]
        simp only [hblob, false_and, and_false, or_false]
      by_cases htmp : tmpName u.blob = name
      · cases hthere : (a.stored nowMs us).files.get u.blob with
        | none => exact absurd ⟨hblob, htmp, (isNew_iff nowMs (htmp ▸ hblob) us).mpr hthere⟩ h
        | some old =>
          exact files_putAsset_there (Option.isSome_iff_exists.mpr ⟨old, hthere⟩)
      · exact files_putAsset_other hblob htmp

theorem files_stored (us : List Upload) :
    (a.stored nowMs us).files.get n = some b ↔ a.Holds us n b :=
  (files_law a nowMs n).eq_some_iff us

theorem getAsset_putAsset (hrow : a.rows.get u.hash = none) (hnew : a.files.get u.blob = none) :
    (a.putAsset u.bytes u.extension nowMs).2.getAsset u.hash = some u.bytes := by
  have hext : (a.putAsset u.bytes u.extension nowMs).2.extensionOf u.hash = u.extension := by
    rw [extensionOf, rows_putAsset, hrow, if_pos rfl]
    rfl
  rw [getAsset, hext]
  exact (files_putAsset_self a u).trans (by rw [hnew, Option.none_or])

/-- Where the row of a digest says that its blob has the temporary name, a new blob of the digest
takes that blob away. -/
theorem getAsset_displaced (hext : a.extensionOf u.hash = some "tmp")
    (hnew : a.files.get u.blob = none) (htmp : u.blob ≠ tmpName u.blob) :
    (a.putAsset u.bytes u.extension nowMs).2.getAsset u.hash = none := by
  obtain ⟨row, hrow, hrow'⟩ := Option.bind_eq_some_iff.mp hext
  have hstays : (a.putAsset u.bytes u.extension nowMs).2.extensionOf u.hash = some "tmp" := by
    rw [extensionOf, rows_putAsset, hrow, Option.some_or]
    exact hrow'
  rw [getAsset, hstays, ← u.tmpName_blob]
  exact files_putAsset_tmp htmp rfl hnew

theorem getAsset_twins {w : Upload} (hhash : w.hash = u.hash) (hu : u.extension = some "tmp")
    (hw : w.blob ≠ tmpName w.blob) : (empty.stored nowMs [u, w]).getAsset u.hash = none := by
  have hext : (empty.stored nowMs [u]).extensionOf w.hash = some "tmp" := by
    have hfind : ([u].find? fun x => x.hash = u.hash) = some u :=
      List.find?_cons_of_pos (decide_eq_true rfl)
    rw [extensionOf_stored, hhash, ← hu]
    show ([u].find? fun x => x.hash = u.hash).bind Upload.extension = u.extension
    rw [hfind, Option.bind_some]
  have hnew : (empty.stored nowMs [u]).files.get w.blob = none := by
    have hblob : u.blob = tmpName w.blob := by
      rw [w.tmpName_blob, hhash, Upload.blob, hu]
    have htmp : tmpName u.blob = tmpName w.blob := by
      rw [u.tmpName_blob, w.tmpName_blob, hhash]
    exact files_putAsset_other (hblob ▸ hw.symm) (htmp ▸ hw.symm)
  rw [← hhash]
  exact getAsset_displaced hext hnew hw

end Names

end AssetStore

end Vcli

import Vcli.Daemon.Handler
import Vcli.Lib.Fallible
import Vcli.Store.Collection

/-! The template images of a program are put into the asset store, and the program refers to them
by their hashes from then on. -/

namespace Vcli

/-- What is read from outside of the asset store: a file, and a reference whose path leaves the
store or for which there is no path. -/
structure Disk where
  read : String → Except String (List UInt8)
  elsewhere : String → Except Ipc.ErrorPayload (Option (List UInt8))

def staysInside (hash : String) : Bool :=
  hash.toList.all (fun c => decide (c.toNat < 128 ∧ c ≠ '/' ∧ c ≠ Char.ofNat 0)) &&
    decide (4 ≤ hash.toList.length) && decide (hash.toList.take 2 ≠ ['.', '.']) &&
    decide ((hash.toList.drop 2).take 2 ≠ ['.', '.'])

def joinPath (base path : String) : String :=
  if base.toList.getLast?.all (· = '/') then base ++ path else base ++ "/" ++ path

def isAbsolute (path : String) : Bool := decide (path.toList.head? = some '/')

def extensionOf (path : String) : Option String :=
  ((FileName.last path.toList).bind FileName.extension).map fun ext =>
    String.ofList (ext.map Char.toLower)

def MaterializedAssets.insert (out : MaterializedAssets) (hash : String) (bytes : List UInt8) :
    MaterializedAssets where
  hashes := if hash ∈ out.hashes then out.hashes else out.hashes ++ [hash]
  bytes := out.bytes.insertIfNew hash bytes

namespace AssetMaterializeError

def missingBaseDir (asset : String) : Ipc.ErrorPayload :=
  { code := .invalidProgram
    message := "relative template asset " ++ asset.quote ++ " requires submit base_dir" }

def io (path source : String) : Ipc.ErrorPayload :=
  { code := .invalidProgram, message := "read template asset " ++ path.quote ++ ": " ++ source }

def unknownAsset (hash : String) : Ipc.ErrorPayload :=
  { code := .invalidProgram, message := "template asset sha256:" ++ hash ++ " is not materialized" }

end AssetMaterializeError

abbrev Materializing := Fallible (AssetStore × MaterializedAssets) Ipc.ErrorPayload Empty

section Materialize
variable (disk : Disk) (baseDir : Option String) (nowMs : UnixMs)

def getMaterialized (hash : String) : Materializing (List UInt8) := do
  let (a, _) ← Fallible.get
  match if staysInside hash then .ok (a.getAsset hash) else disk.elsewhere hash with
  | .error e => Fallible.fail e
  | .ok none => Fallible.fail (AssetMaterializeError.unknownAsset hash)
  | .ok (some bytes) => pure bytes

def readTemplate (image : String) : Materializing (String × List UInt8) :=
  let resolved :=
    if isAbsolute image then some image else baseDir.map fun base => joinPath base image
  match resolved with
  | none => Fallible.fail (AssetMaterializeError.missingBaseDir image)
  | some path => match disk.read path with
    | .error source => Fallible.fail (AssetMaterializeError.io path source)
    | .ok bytes => pure (path, bytes)

def materializeImageRef (image : String) : Materializing String :=
  if "sha256:".toList.isPrefixOf image.toList then do
    let hash := String.ofList (image.toList.drop 7)
    let bytes ← getMaterialized disk hash
    Fallible.modify fun s => (s.1, s.2.insert hash bytes)
    return image
  else do
    let (path, bytes) ← readTemplate disk baseDir image
    let hash := AssetHash.ofBytes bytes
    Fallible.modify fun s =>
      ((s.1.putAsset bytes (extensionOf path) nowMs).2, s.2.insert hash bytes)
    return "sha256:" ++ hash

def materializePredicate : PredicateKind → Materializing PredicateKind
  | .template image confidence region throttleMs => do
    let image ← materializeImageRef disk baseDir nowMs image
    return .template image confidence region throttleMs
  | predicate => pure predicate

def materializeWatch (watch : Watch) : Materializing Watch :=
  match watch.when_ with
  | .inline predicate => do
    let predicate ← materializePredicate disk baseDir nowMs predicate
    return { watch with when_ := .inline predicate }
  | .byName _ => pure watch

/-- `materialize_template_assets`: the named predicates in their order, then those of watches. -/
def materializeProgram (program : Program) : Materializing Program := do
  let predicates ← Fallible.each (fun e => do
    let predicate ← materializePredicate disk baseDir nowMs e.2
    return (e.1, predicate)) program.predicates.toList
  let watches ← Fallible.each (materializeWatch disk baseDir nowMs) program.watches
  return { program with predicates := Std.ExtTreeMap.ofList predicates, watches := watches }

end Materialize

def materializeTemplateAssets (disk : Disk) (a : AssetStore) (program : Program)
    (baseDir : Option String) (nowMs : UnixMs) :
    Except Ipc.ErrorPayload (Program × MaterializedAssets) × AssetStore :=
  match materializeProgram disk baseDir nowMs program (a, ⟨∅, []⟩) with
  | .ok (r, s) => (r.map fun program => (program, s.2), s.1)

def Loader.daemon (disk : Disk) (fromStr : String → Except String Json)
    (validateValue : Json → Except Ipc.ErrorPayload Program)
    (canonical : Program → Except Ipc.ErrorPayload String) : Loader AssetStore where
  fromStr := fromStr
  validateValue := validateValue
  canonical := canonical
  materialize := materializeTemplateAssets disk
  collect a linked := (a.run (a.gcAssetsOps linked)).run (a.run (a.gcAssetsOps linked)).gcOrphanOps

section Proper

theorem eq_of_toLower_eq {c d : Char} (hd : d.toNat < 97) (h : c.toLower = d) : c = d := by
  unfold Char.toLower at h
  split_ifs at h with hupper
  · have hval := congrArg (fun c => c.val.toNat) h
    have hlow := UInt32.le_iff_toNat_le.mp hupper.1
    have hsum : (c.val + ('a'.val - 'A'.val)).toNat = c.val.toNat + 32 := by
      have hhigh := UInt32.le_iff_toNat_le.mp hupper.2
      have hz : 'Z'.val.toNat = 90 := rfl
      rw [UInt32.toNat_add]
      show (c.val.toNat + 32) % 2 ^ 32 = _
      omega
    have ha : 'A'.val.toNat = 65 := rfl
    have hd' : d.val.toNat < 97 := hd
    simp only at hval
    omega
  · exact h

theorem simple_extensionOf (path : String) : Simple (extensionOf path) := by
  intro ext hext
  obtain ⟨chars, hchars, rfl⟩ := Option.map_eq_some_iff.mp hext
  obtain ⟨name, hname, hextension⟩ := Option.bind_eq_some_iff.mp hchars
  rw [String.toList_ofList]
  constructor
  · intro hdot
    obtain ⟨c, hc, hlower⟩ := List.mem_map.mp hdot
    rw [eq_of_toLower_eq (by decide) hlower] at hc
    exact FileName.dot_not_mem_extension hextension hc
  · intro hslash
    obtain ⟨c, hc, hlower⟩ := List.mem_map.mp hslash
    rw [eq_of_toLower_eq (by decide) hlower] at hc
    exact FileName.slash_not_mem_last hname (FileName.mem_of_mem_extension hextension hc)

variable (disk : Disk) (baseDir : Option String) (nowMs : UnixMs)

def Stays (s : AssetStore × MaterializedAssets) : Prop := s.1.Proper

theorem readTemplate_proper (image : String) :
    Fallible.Keeps Stays (readTemplate disk baseDir image) := by
  unfold readTemplate
  dsimp only
  split
  · exact Fallible.keeps_fail _
  · split
    · exact Fallible.keeps_fail _
    · exact Fallible.keeps_pure _

theorem getMaterialized_proper (hash : String) :
    Fallible.Keeps Stays (getMaterialized disk hash) := by
  apply Fallible.keeps_bind Fallible.keeps_get
  rintro ⟨a, out⟩
  dsimp only
  split
  · exact Fallible.keeps_fail _
  · exact Fallible.keeps_fail _
  · exact Fallible.keeps_pure _

theorem materializeImageRef_proper (image : String) :
    Fallible.Keeps Stays (materializeImageRef disk baseDir nowMs image) := by
  unfold materializeImageRef
  split_ifs
  · apply Fallible.keeps_bind (getMaterialized_proper disk _)
    intro bytes
    have hinsert : ∀ s, Stays s → Stays (s.1, s.2.insert (String.ofList (image.toList.drop 7)) bytes) :=
      fun s hs => hs
    apply Fallible.keeps_bind (Fallible.keeps_modify hinsert)
    exact fun _ => Fallible.keeps_pure _
  · apply Fallible.keeps_bind (readTemplate_proper disk baseDir image)
    intro read
    have hput : ∀ s, Stays s → Stays ((s.1.putAsset read.2 (extensionOf read.1) nowMs).2,
        s.2.insert (AssetHash.ofBytes read.2) read.2) :=
      fun s hs => AssetStore.Proper.putAsset hs read.2 (simple_extensionOf read.1) nowMs
    apply Fallible.keeps_bind (Fallible.keeps_modify hput)
    exact fun _ => Fallible.keeps_pure _

theorem materializePredicate_proper (predicate : PredicateKind) :
    Fallible.Keeps Stays (materializePredicate disk baseDir nowMs predicate) := by
  cases predicate with
  | template image confidence region throttleMs =>
    apply Fallible.keeps_bind (materializeImageRef_proper disk baseDir nowMs image)
    exact fun _ => Fallible.keeps_pure _
  | _ => exact Fallible.keeps_pure _

theorem materializeWatch_proper (watch : Watch) :
    Fallible.Keeps Stays (materializeWatch disk baseDir nowMs watch) := by
  unfold materializeWatch
  split
  · apply Fallible.keeps_bind (materializePredicate_proper disk baseDir nowMs _)
    exact fun _ => Fallible.keeps_pure _
  · exact Fallible.keeps_pure _

theorem materializeProgram_proper (program : Program) :
    Fallible.Keeps Stays (materializeProgram disk baseDir nowMs program) := by
  apply Fallible.keeps_bind
  · apply Fallible.keeps_each
    intro e
    apply Fallible.keeps_bind (materializePredicate_proper disk baseDir nowMs e.2)
    exact fun _ => Fallible.keeps_pure _
  · intro predicates
    apply Fallible.keeps_bind
      (Fallible.keeps_each (materializeWatch_proper disk baseDir nowMs) program.watches)
    exact fun _ => Fallible.keeps_pure _

theorem materializeTemplateAssets_proper {a : AssetStore} (h : a.Proper) (program : Program) :
    (materializeTemplateAssets disk a program baseDir nowMs).2.Proper := by
  unfold materializeTemplateAssets
  cases hrun : materializeProgram disk baseDir nowMs program (a, ⟨∅, []⟩) with
  | error e => exact e.elim
  | ok out =>
    have hstart : Stays (a, ⟨∅, []⟩) := h
    exact (materializeProgram_proper disk baseDir nowMs program hstart hrun).1

end Proper

end Vcli

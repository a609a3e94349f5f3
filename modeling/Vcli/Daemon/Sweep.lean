import Vcli.Daemon.Materialize
import Vcli.Daemon.Persist

/-! Garbage collection in every state that the calls under the store lock lead to. -/

namespace Vcli

structure Host where
  disk : Disk
  fromStr : String → Except String Json
  validateValue : Json → Except Ipc.ErrorPayload Program
  canonical : Program → Except Ipc.ErrorPayload String

def Host.loader (w : Host) : Loader AssetStore :=
  .daemon w.disk w.fromStr w.validateValue w.canonical

inductive StoreCall
  | submit (w : Host) (pid : ProgramId) (program : Program) (baseDir : Option String)
      (submittedAt : UnixMs)
  | resume (w : Host) (pid : ProgramId) (fromStart : Bool) (nowMs : UnixMs)
  | putAsset (bytes : List UInt8) (extension : Option String) (nowMs : UnixMs)
  | gc (olderThan : UnixMs)
  | pump (ev : Event)

def StoreCall.Documented : StoreCall → Prop
  | putAsset _ extension _ => Simple extension
  | _ => True

namespace Store

def call (s : Store AssetStore) : StoreCall → Store AssetStore
  | .submit w pid program baseDir submittedAt =>
    (submitLocked w.loader s pid program baseDir submittedAt).2
  | .resume w pid fromStart nowMs => (resumeLocked w.loader s pid fromStart nowMs).2
  | .putAsset bytes extension nowMs =>
    { s with assets := (s.assets.putAsset bytes extension nowMs).2 }
  | .gc olderThan => (s.gcAll olderThan).2
  | .pump ev => pumpEvent s ev

def calls (s : Store AssetStore) (cs : List StoreCall) : Store AssetStore := cs.foldl call s

theorem gcLocked_eq (w : Host) (s : Store AssetStore) (nowMs : UnixMs) :
    gcLocked w.loader s nowMs = (s.gcAll (nowMs - retentionDays * 24 * 60 * 60 * 1000)).2 := rfl

section Steps
variable {s : Store AssetStore}

theorem Collectable.frame {t : Store AssetStore} (h : s.Collectable)
    (hassets : t.assets.Proper) (hlinks : t.programAssets = s.programAssets)
    (hrows : ∀ p, (s.row p).isSome → (t.row p).isSome) : t.Collectable :=
  ⟨hassets, fun p hash hmem => hrows p (h.links p hash (hlinks ▸ hmem))⟩

theorem linkAssets_assets (pid : ProgramId) (hashes : List String) (s : Store AssetStore) :
    (linkAssets pid hashes s).2.assets = s.assets := by
  obtain ⟨links, hframe⟩ := linkAssets_frame pid hashes s
  rw [hframe]

theorem mem_linkAssets {pid p : ProgramId} {hashes : List String} {hash : String}
    (hmem : (p, hash) ∈ (linkAssets pid hashes s).2.programAssets) :
    (p, hash) ∈ s.programAssets ∨ p = pid := by
  induction hashes generalizing s with
  | nil => exact .inl hmem
  | cons h hs ih =>
    unfold linkAssets Store.linkProgramAsset at hmem
    by_cases hrow : (s.row pid).isSome
    · rw [if_pos hrow] at hmem
      rcases ih hmem with hold | hpid
      · dsimp only at hold
        split_ifs at hold
        · exact .inl hold
        · rcases List.mem_append.mp hold with hold | hnew
          · exact .inl hold
          · exact .inr (congrArg Prod.fst (List.mem_singleton.mp hnew))
      · exact .inr hpid
    · rw [if_neg hrow] at hmem
      exact .inl hmem

theorem Collectable.linkAssets (h : s.Collectable) {pid : ProgramId} (hrow : (s.row pid).isSome)
    (hashes : List String) : (linkAssets pid hashes s).2.Collectable := by
  refine ⟨?_, fun p hash hmem => ?_⟩
  · rw [linkAssets_assets]
    exact h.assets
  · rw [linkAssets_row]
    rcases mem_linkAssets hmem with hold | rfl
    · exact h.links p hash hold
    · exact hrow

theorem Collectable.submitLocked (h : s.Collectable) (w : Host) (pid : ProgramId)
    (program : Program) (baseDir : Option String) (submittedAt : UnixMs) :
    (submitLocked w.loader s pid program baseDir submittedAt).2.Collectable := by
  have hproper : (w.loader.materialize s.assets program baseDir submittedAt).2.Proper :=
    materializeTemplateAssets_proper w.disk baseDir submittedAt h.assets program
  unfold Vcli.submitLocked
  generalize w.loader.materialize s.assets program baseDir submittedAt = out at hproper ⊢
  have hwritten : Store.Collectable { s with assets := out.2 } :=
    h.frame hproper rfl fun _ hrow => hrow
  dsimp only
  cases out.1 with
  | error e => exact hwritten
  | ok loaded =>
    dsimp only
    cases w.loader.canonical loaded.1 with
    | error e => exact hwritten
    | ok canonical =>
      dsimp only [Store.insertProgram]
      cases hins : s.programs.insert? pid
          (.ofNew ⟨pid, program.name, canonical, .pending, submittedAt, "\x7b\x7d"⟩) with
      | none => exact hwritten
      | some programs =>
        obtain ⟨-, hself, hne⟩ := Table.insert?_eq_some hins
        have hrow : (programs.get pid).isSome := by
          rw [hself]
          rfl
        have hinserted : Store.Collectable { s with assets := out.2, programs := programs } := by
          refine hwritten.frame hproper rfl fun p hp => ?_
          by_cases heq : p = pid
          · rw [heq]
            exact hrow
          · exact (congrArg Option.isSome (hne p heq)).trans hp
        exact hinserted.linkAssets hrow loaded.2.hashes

theorem loadSource_proper (w : Host) {a : AssetStore} (h : a.Proper) (source : String)
    (nowMs : UnixMs) : (loadSource w.loader a source nowMs).2.Proper := by
  unfold loadSource
  cases w.loader.fromStr source with
  | error e => exact h
  | ok value =>
    dsimp only
    cases w.loader.validateValue value with
    | error e => exact h
    | ok program =>
      have hproper : (w.loader.materialize a program none nowMs).2.Proper :=
        materializeTemplateAssets_proper w.disk none nowMs h program
      dsimp only
      generalize w.loader.materialize a program none nowMs = out at hproper ⊢
      obtain ⟨_ | loaded, b⟩ := out
      · exact hproper
      · exact hproper

theorem Collectable.resumeLocked (h : s.Collectable) (w : Host) (pid : ProgramId)
    (fromStart : Bool) (nowMs : UnixMs) :
    (resumeLocked w.loader s pid fromStart nowMs).2.Collectable := by
  by_cases hany : ∃ row, s.row pid = some row ∧ row.resumable = true
  · obtain ⟨row, hrow, hres⟩ := hany
    have heq := resumeLocked_resumable (L := w.loader) fromStart nowMs hrow hres
    dsimp only at heq
    rw [heq]
    refine h.frame (loadSource_proper w h.assets row.sourceJson nowMs) rfl fun p hp => ?_
    refine (congrArg Option.isSome (Table.get_mapRows _)).trans ?_
    exact Option.isSome_map.trans hp
  · obtain ⟨e, heq⟩ := resumeLocked_refused (L := w.loader) fromStart nowMs
      fun row hrow hres => hany ⟨row, hrow, hres⟩
    rw [heq]
    exact h

theorem Collectable.pumpEvent (h : s.Collectable) (ev : Event) : (pumpEvent s ev).Collectable := by
  have haside := aside_pumpEvent s ev
  have hassets : (Vcli.pumpEvent s ev).assets = s.assets := congrArg Prod.snd haside
  refine h.frame (hassets ▸ h.assets) (congrArg Prod.fst haside) fun p hp => ?_
  rw [row_pumpEvent]
  split_ifs
  · exact Option.isSome_map.trans hp
  · exact hp

theorem Collectable.call (h : s.Collectable) {c : StoreCall} (hc : c.Documented) :
    (s.call c).Collectable := by
  cases c with
  | submit w pid program baseDir submittedAt => exact h.submitLocked w pid program baseDir submittedAt
  | resume w pid fromStart nowMs => exact h.resumeLocked w pid fromStart nowMs
  | putAsset bytes extension nowMs =>
    exact h.frame (h.assets.putAsset bytes hc nowMs) rfl fun _ hp => hp
  | gc olderThan => exact h.gcAll olderThan
  | pump ev => exact h.pumpEvent ev

theorem Collectable.calls (h : s.Collectable) {cs : List StoreCall}
    (hcs : ∀ c ∈ cs, c.Documented) : (s.calls cs).Collectable := by
  induction cs generalizing s with
  | nil => exact h
  | cons c cs ih =>
    have hc := hcs c List.mem_cons_self
    exact ih (h.call hc) fun c' hc' => hcs c' (List.mem_cons_of_mem c hc')

theorem collectable_fresh : (Store.fresh AssetStore.empty).Collectable :=
  ⟨AssetStore.proper_empty, nofun⟩

/-- In every state that documented calls lead to from an empty directory, a garbage collection is
exact. -/
theorem gc_exact (cs : List StoreCall) (hcs : ∀ c ∈ cs, c.Documented) (cutoff : UnixMs) :
    ((Store.fresh AssetStore.empty).calls cs).Exact cutoff :=
  (collectable_fresh.calls hcs).exact cutoff

def emptyHost : Host where
  disk := ⟨fun _ => .error "not found", fun _ => .ok none⟩
  fromStr _ := .ok .null
  validateValue _ := .ok (Program.blank "demo")
  canonical program := .ok program.name

def watching : Program :=
  { Program.blank "demo" with
    watches := [⟨.inline (.template ("sha256:" ++ AssetHash.ofBytes [97, 98, 99]) ⟨0#64⟩
      (.absolute ⟨0, 0, 1, 1⟩) 0), [], 0, .oneShot⟩] }

def storedAs (extension : String) : List StoreCall :=
  [.putAsset [97, 98, 99] (some extension) 0, .submit emptyHost ⟨1⟩ watching none 0]

def expiring : List StoreCall :=
  storedAs "png" ++ [.putAsset [100] (some "png") 0,
    .submit emptyHost ⟨2⟩ (Program.blank "done") none 0, .pump ⟨5, .programCompleted ⟨2⟩ none⟩]

theorem gc_exact_expiring :
    let s := (Store.fresh AssetStore.empty).calls expiring
    s.Exact 10 ∧ ((s.row ⟨2⟩).isSome = true ∧ ((s.gcAll 10).2.row ⟨2⟩).isSome = false) ∧
      ((s.assets.getAsset (AssetHash.ofBytes [100])) = some [100] ∧
        (s.gcAll 10).2.assets.getAsset (AssetHash.ofBytes [100]) = none) ∧
      ((s.gcAll 10).2.row ⟨1⟩).isSome = true := by
  refine ⟨gc_exact expiring ?_ 10, by decide +kernel⟩
  have hpng : Simple (some "png") := by
    intro ext hext
    rw [← Option.some.inj hext]
    decide
  simp [expiring, storedAs, StoreCall.Documented, hpng]

/-- The stem of a name with two dots is no hash, so that the blob of a live program is taken for an
orphan. -/
theorem gc_loses_dotted :
    ¬ ((Store.fresh AssetStore.empty).calls (storedAs "tar.gz")).Exact 0 := by
  intro h
  have hlost : let s := (Store.fresh AssetStore.empty).calls (storedAs "tar.gz")
      ((s.gcAll 0).2.row ⟨1⟩).isSome = true ∧
        (⟨1⟩, AssetHash.ofBytes [97, 98, 99]) ∈ s.programAssets ∧
        (s.assets.rows.get (AssetHash.ofBytes [97, 98, 99])).isSome = true ∧
        (s.gcAll 0).2.assets.getAsset (AssetHash.ofBytes [97, 98, 99]) ≠
          s.assets.getAsset (AssetHash.ofBytes [97, 98, 99]) := by
    decide +kernel
  obtain ⟨hrow, hlink, hhas, hne⟩ := hlost
  exact hne (h.kept ⟨1⟩ _ hrow hlink hhas).2

end Steps

end Store

end Vcli

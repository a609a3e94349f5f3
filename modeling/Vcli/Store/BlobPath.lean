import Vcli.Lib.Pathname
import Vcli.Store.Assets

/-! The path of a blob. The hash is cut at bytes, not at characters, and its pieces are joined to
the root as they are. -/

namespace Vcli

inductive PathPanic
  | tooShort (bytes : Nat)
  | notCharBoundary (byte : Nat)
deriving DecidableEq, Repr

def splitAtByte : Nat → List Char → Option (List Char × List Char)
  | 0, text => some ([], text)
  | _ + 1, [] => none
  | n + 1, c :: text =>
    if c.utf8Size ≤ n + 1 then
      (splitAtByte (n + 1 - c.utf8Size) text).map fun r => (c :: r.1, r.2)
    else none

def byteLength (text : List Char) : Nat := (text.map Char.utf8Size).sum

def assetsRoot (dataRoot : String) : List Char :=
  Pathname.join (Pathname.join dataRoot.toList "assets".toList) "sha256".toList

def assetBlobPath (dataRoot hexHash : String) (extension : Option String) :
    Except PathPanic (List Char) :=
  if byteLength hexHash.toList < 4 then .error (.tooShort (byteLength hexHash.toList))
  else match splitAtByte 2 hexHash.toList with
    | none => .error (.notCharBoundary 2)
    | some (xx, rest) => match splitAtByte 2 rest with
      | none => .error (.notCharBoundary 4)
      | some (yy, _) =>
        .ok (Pathname.join (Pathname.join (Pathname.join (assetsRoot dataRoot) xx) yy)
          (blobName hexHash extension).toList)

def Addressable (dataRoot : String) (cwd : Pathname.Place) (hexHash : String)
    (extension : Option String) : Prop :=
  ∃ path, assetBlobPath dataRoot hexHash extension = .ok path ∧
    Pathname.Under cwd (assetsRoot dataRoot) path

section Digests
variable {hash : String} {extension : Option String}

theorem plain_of_alphanum {name : List Char} (hne : name ≠ [])
    (h : ∀ c ∈ name, c ≠ '/' ∧ c ≠ '.') : Pathname.Plain name where
  ne_nil := hne
  ne_dot he := (h '.' (by rw [he]; decide)).2 rfl
  ne_dots he := (h '.' (by rw [he]; decide)).2 rfl
  slash hs := (h '/' hs).1 rfl

theorem splitAtByte_ascii {a b : Char} {rest : List Char} (ha : a.utf8Size = 1)
    (hb : b.utf8Size = 1) : splitAtByte 2 (a :: b :: rest) = some ([a, b], rest) := by
  simp [splitAtByte, ha, hb]

theorem utf8Size_hex : ∀ c ∈ "0123456789abcdef".toList, c.utf8Size = 1 ∧ c ≠ '/' ∧ c ≠ '.' := by
  simp [Char.utf8Size]

theorem slash_not_mem_suffix (h : Simple extension) : '/' ∉ suffix extension := by
  cases extension with
  | none => exact List.not_mem_nil
  | some ext =>
    rw [suffix]
    split_ifs
    · exact List.not_mem_nil
    · rw [List.mem_cons, not_or]
      exact ⟨by decide, (h ext rfl).2⟩

theorem IsDigest.plain_blobName (h : IsDigest hash) (hext : Simple extension) :
    Pathname.Plain (blobName hash extension).toList := by
  have hfirst : ∀ c rest, (blobName hash extension).toList = c :: rest → c ≠ '.' := by
    intro c rest hname hdot
    rw [toList_blobName] at hname
    cases hchars : hash.toList with
    | nil => exact h.ne_nil hchars
    | cons d tail =>
      rw [hchars] at hname
      refine h.no_dot ?_
      rw [hchars, ← hdot, ← (List.cons.inj hname).1]
      exact List.mem_cons_self
  refine ⟨?_, fun he => hfirst _ _ he rfl, fun he => hfirst _ _ he rfl, ?_⟩
  · rw [toList_blobName]
    exact List.append_ne_nil_of_left_ne_nil h.ne_nil _
  · rw [toList_blobName, List.mem_append, not_or]
    exact ⟨fun hslash => (utf8Size_hex '/' (h.hex '/' hslash)).2.1 rfl, slash_not_mem_suffix hext⟩

/-- The path of a digest: two directories of two digits each, and the blob in them. -/
theorem IsDigest.addressable (h : IsDigest hash) (hext : Simple extension) (dataRoot : String)
    (cwd : Pathname.Place) : Addressable dataRoot cwd hash extension := by
  have hlength := h.length
  have hplain := h.plain_blobName hext
  have hsize := fun c hc => utf8Size_hex c (h.hex c hc)
  have hlong : ¬ byteLength hash.toList < 4 := by
    have hsum : byteLength hash.toList = 64 := by
      rw [byteLength, List.map_congr_left fun c hc => (hsize c hc).1, List.map_const',
        List.sum_replicate_nat, hlength]
    omega
  match hchars : hash.toList with
  | [] | [_] | [_, _] | [_, _, _] => rw [hchars] at hlength; exact nomatch hlength
  | a :: b :: c :: d :: rest =>
    rw [hchars] at hsize
    have ha := hsize a (by simp)
    have hb := hsize b (by simp)
    have hc := hsize c (by simp)
    have hd := hsize d (by simp)
    have hpair : ∀ {x y : Char}, (x.utf8Size = 1 ∧ x ≠ '/' ∧ x ≠ '.') →
        (y.utf8Size = 1 ∧ y ≠ '/' ∧ y ≠ '.') → Pathname.Plain [x, y] := by
      intro x y hx hy
      refine plain_of_alphanum (List.cons_ne_nil _ _) ?_
      intro z hz
      rcases List.mem_cons.mp hz with rfl | hz
      · exact hx.2
      · rw [List.mem_singleton.mp hz]
        exact hy.2
    refine ⟨Pathname.join (Pathname.join (Pathname.join (assetsRoot dataRoot) [a, b]) [c, d])
      (blobName hash extension).toList, ?_, ?_⟩
    · rw [assetBlobPath, if_neg hlong, hchars, splitAtByte_ascii ha.1 hb.1]
      dsimp only
      rw [splitAtByte_ascii hc.1 hd.1]
    · rw [Pathname.Under, hplain.locate_join, (hpair hc hd).locate_join,
        (hpair ha hb).locate_join, List.append_assoc, List.append_assoc]
      exact List.prefix_append _ _

end Digests

end Vcli

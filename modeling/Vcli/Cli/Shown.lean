import Vcli.Cli.Pieces

/-! A timestamp that was shown is read back. -/

namespace Vcli.Cli

open Gregorian Decimal

theorem paddedInt_natCast (width n : Nat) : paddedInt width n = padded width n := by
  rw [paddedInt, if_neg (Int.not_lt.mpr (Int.natCast_nonneg n)), Int.natAbs_natCast]

def shownPieces (y m d h mi sec ms : Nat) : Pieces where
  year := padded 4 y
  month := padded 2 m
  day := padded 2 d
  afterDay := []
  hour := padded 2 h
  minute := padded 2 mi
  second := padded 2 sec
  afterSecond := []
  fraction := some (padded 3 ms)

theorem shownPieces_spell {y m d h mi sec ms : Nat} (hy : y ≤ maxI32) (hm : m ≤ maxU32)
    (hd : d ≤ maxU32) (hh : h ≤ maxU32) (hmi : mi ≤ maxU32) (hsec : sec ≤ maxU32)
    (hms : ms ≤ maxU32) : (shownPieces y m d h mi sec ms).Spell y m d h mi sec ms where
  year := ⟨spells_padded 4 y, hy⟩
  month := ⟨spells_padded 2 m, hm⟩
  day := ⟨spells_padded 2 d, hd⟩
  hour := ⟨spells_padded 2 h, hh⟩
  minute := ⟨spells_padded 2 mi, hmi⟩
  second := ⟨spells_padded 2 sec, hsec⟩
  millis := ⟨spells_padded 3 ms, hms⟩
  afterDay := ⟨.inl rfl, List.not_mem_nil⟩
  afterSecond := ⟨.inl rfl, List.not_mem_nil⟩

theorem format_parse (build : Build) {ms : Int} (hlow : -62167219200000 ≤ ms) (hhigh : ms < 2 ^ 63) :
    ∃ text, formatUnixMs build ms = .ok text ∧
      parseRfc3339Utc build text = .ok (some ms) := by
  obtain ⟨y, m, d, hcivil, hy, ⟨hm, hd⟩, hday⟩ :=
    @civilFromDays_eq build (ms / 1000 / 86400) (by omega) (by omega)
  obtain ⟨sec, hsec⟩ : ∃ sec, sec = (ms / 1000 % 86400).toNat := ⟨_, rfl⟩
  obtain ⟨sub, hsub⟩ : ∃ sub, sub = (ms % 1000).toNat := ⟨_, rfl⟩
  have hlength := monthLength_le y m
  refine ⟨String.ofList (shownPieces y m d (sec / 3600) (sec % 3600 / 60) (sec % 60) sub).text,
    ?_, ?_⟩
  · rw [formatUnixMs, hcivil, ← hsec, ← hsub]
    simp [bind, Except.bind, pure, Except.pure, Pieces.text, Pieces.date, Pieces.time,
      Pieces.fractionText, shownPieces, paddedInt_natCast]
  · have hspell : (shownPieces y m d (sec / 3600) (sec % 3600 / 60) (sec % 60) sub).Spell y m d
        (sec / 3600) (sec % 3600 / 60) (sec % 60) sub := by
      have hi32 : maxI32 ≤ maxU32 := by decide
      have hu32 : maxU32 = 4294967295 := rfl
      apply shownPieces_spell hy <;> omega
    apply parseRfc3339Utc_eq_some.mpr
    have hwhole : millisOf y m d (sec / 3600) (sec % 3600 / 60) (sec % 60) sub = ms := by
      unfold millisOf
      omega
    refine ⟨_, _, _, _, _, _, _, _, String.toList_ofList, hspell, ⟨hm, hd.1, by omega⟩, ?_, ?_⟩
    · rw [hwhole, wrapI64_of_fits (by omega) hhigh]
    · rw [hwhole]
      exact fun _ => hhigh

/-- Over the whole range of the year zero and after, what is shown is read back to the
millisecond, and the two calendar algorithms undo each other and give dates that exist. -/
theorem format_parse_inverse (build : Build) :
    (∀ ms : Int, -62167219200000 ≤ ms → ms < 2 ^ 63 →
      ∃ text, formatUnixMs build ms = .ok text ∧ parseRfc3339Utc build text = .ok (some ms)) ∧
    ∀ z : Int, -719528 ≤ z → z ≤ 2 ^ 63 / 86400000 →
      ∃ y m d : Nat, civilFromDays build z = .ok (y, m, d) ∧
        daysFromCivil build y m d = .ok (some z) ∧
        (1 ≤ m ∧ m ≤ 12) ∧ 1 ≤ d ∧ d ≤ monthLength y m := by
  refine ⟨fun ms hlow hhigh => format_parse build hlow hhigh, fun z hlow hhigh => ?_⟩
  obtain ⟨y, m, d, hcivil, hy, ⟨hm, hd⟩, hday⟩ := @civilFromDays_eq build z hlow hhigh
  have hlength := monthLength_le y m
  refine ⟨y, m, d, hcivil, ?_, hm, hd⟩
  rw [daysFromCivil_eq hy hm ⟨hd.1, hd.2.trans hlength⟩, hday, Int.add_sub_cancel]

/-- The leap day of the year 2000, and a day before 1970. -/
theorem leap_day_inverse :
    (∃ text, formatUnixMs .release 951782400123 = .ok text ∧
      parseRfc3339Utc .release text = .ok (some 951782400123)) ∧
    ∃ y m d : Nat, civilFromDays .release (-25509) = .ok (y, m, d) ∧
      daysFromCivil .release y m d = .ok (some (-25509)) ∧
        (1 ≤ m ∧ m ≤ 12) ∧ 1 ≤ d ∧ d ≤ monthLength y m :=
  ⟨(format_parse_inverse .release).1 951782400123 (by decide) (by decide),
    (format_parse_inverse .release).2 (-25509) (by decide) (by decide)⟩

end Vcli.Cli

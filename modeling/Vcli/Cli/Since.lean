import Vcli.Cli.Pieces

/-! The timestamps that `--since` understands. -/

namespace Vcli.Cli

open Gregorian Decimal

/-- A timestamp `YYYY-MM-DDThh:mm:ss`, with a fraction of the second unless that is empty, in UTC. -/
structure Timestamp where
  year : Nat
  month : Nat
  day : Nat
  hour : Nat
  minute : Nat
  second : Nat
  fraction : List Char

namespace Timestamp

structure Valid (t : Timestamp) : Prop where
  year : t.year ≤ 9999
  date : IsDate t.year t.month t.day
  hour : t.hour ≤ 23
  minute : t.minute ≤ 59
  second : t.second ≤ 59
  fraction : Digits t.fraction

def text (t : Timestamp) : List Char :=
  padded 4 t.year ++ '-' :: padded 2 t.month ++ '-' :: padded 2 t.day ++ 'T' :: padded 2 t.hour ++
    ':' :: padded 2 t.minute ++ ':' :: padded 2 t.second ++
      (if t.fraction = [] then [] else '.' :: t.fraction) ++ ['Z']

def wholeMillis (t : Timestamp) : Int :=
  ((dayNumber t.year t.month t.day : Int) - dayNumber 1970 1 1) * 86400000 + t.hour * 3600000 +
    t.minute * 60000 + t.second * 1000

def fractionMillis (t : Timestamp) : Nat := value t.fraction * 1000 / 10 ^ t.fraction.length

def instant (t : Timestamp) : Int := t.wholeMillis + t.fractionMillis

def Plain (t : Timestamp) : Prop :=
  t.fraction = [] ∨ t.fraction.length = 3 ∨ value t.fraction = 0

theorem plain_iff (t : Timestamp) : t.Plain ↔ t.fractionMillis = value t.fraction := by
  unfold Plain fractionMillis
  have hnil : t.fraction = [] → value t.fraction = 0 := by
    intro h
    rw [h]
    rfl
  rw [← List.length_eq_zero_iff] at hnil ⊢
  generalize value t.fraction = v at hnil ⊢
  generalize t.fraction.length = n at hnil ⊢
  match n with
  | 0 | 1 | 2 | 3 => omega
  | n + 4 =>
    have hpow : 10 ^ 4 ≤ 10 ^ (n + 4) := Nat.pow_le_pow_right (by decide) (by omega)
    rcases Nat.eq_zero_or_pos v with rfl | hv
    · simp
    · have hless : v * 1000 / 10 ^ (n + 4) < v := by
        apply Nat.div_lt_of_lt_mul
        calc v * 1000 < v * 10 ^ 4 := by omega
          _ ≤ v * 10 ^ (n + 4) := Nat.mul_le_mul_left v hpow
          _ = 10 ^ (n + 4) * v := Nat.mul_comm ..
      omega

end Timestamp

/-- `s` is the text of a timestamp, and `ms` the instant it denotes. -/
def Denotes (s : String) (ms : Int) : Prop :=
  ∃ t : Timestamp, t.Valid ∧ s.toList = t.text ∧ ms = t.instant

/-- The parser finds numerals for all fields, with the month and the day in their ranges for some
month of some year; a debug build does not overflow. -/
def Accepted (build : Build) (s : String) : Prop :=
  ∃ p y m d h mi sec ms, s.toList = Pieces.text p ∧ p.Spell y m d h mi sec ms ∧
    ((1 ≤ m ∧ m ≤ 12) ∧ 1 ≤ d ∧ d ≤ 31) ∧
    (build = .debug → millisOf y m d h mi sec ms < 2 ^ 63)

def Faithful (s : String) : Prop :=
  ∃ t : Timestamp, t.Valid ∧ s.toList = t.text ∧ t.Plain

variable {build : Build}

theorem accepted_iff {s : String} :
    Accepted build s ↔ ∃ ms, parseRfc3339Utc build s = .ok (some ms) := by
  simp only [parseRfc3339Utc_eq_some]
  constructor
  · rintro ⟨p, y, m, d, h, mi, sec, ms, hs, hp, hrange, hfits⟩
    exact ⟨_, p, y, m, d, h, mi, sec, ms, hs, hp, hrange, rfl, hfits⟩
  · rintro ⟨_, p, y, m, d, h, mi, sec, ms, hs, hp, hrange, rfl, hfits⟩
    exact ⟨p, y, m, d, h, mi, sec, ms, hs, hp, hrange, hfits⟩

def Timestamp.pieces (t : Timestamp) : Pieces where
  year := padded 4 t.year
  month := padded 2 t.month
  day := padded 2 t.day
  afterDay := []
  hour := padded 2 t.hour
  minute := padded 2 t.minute
  second := padded 2 t.second
  afterSecond := []
  fraction := if t.fraction = [] then none else some t.fraction

theorem Timestamp.text_pieces (t : Timestamp) : t.pieces.text = t.text := by
  unfold Timestamp.text
  split
  · next hnil =>
    simp [Pieces.text, Pieces.date, Pieces.time, Timestamp.pieces, hnil, Pieces.fractionText]
  · next hne =>
    simp [Pieces.text, Pieces.date, Pieces.time, Timestamp.pieces, hne, Pieces.fractionText]

theorem spells_zero : Spells ['0'] 0 :=
  Spells.of_digits (List.cons_ne_nil _ _) (digits_replicate_zero 1)

theorem Timestamp.pieces_spell {t : Timestamp} (ht : t.Valid) {fraction : Option (List Char)}
    {ms : Nat} (hms : Spells (fraction.getD ['0']) ms ∧ ms ≤ maxU32) :
    { t.pieces with fraction := fraction }.Spell t.year t.month t.day t.hour t.minute t.second ms := by
  obtain ⟨hyear, ⟨hmonth, hday⟩, hhour, hminute, hsecond, -⟩ := ht
  have hlength := monthLength_le t.year t.month
  have hi32 : maxI32 = 2147483647 := rfl
  have hu32 : maxU32 = 4294967295 := rfl
  exact {
    year := ⟨spells_padded 4 t.year, by omega⟩
    month := ⟨spells_padded 2 t.month, by omega⟩
    day := ⟨spells_padded 2 t.day, by omega⟩
    hour := ⟨spells_padded 2 t.hour, by omega⟩
    minute := ⟨spells_padded 2 t.minute, by omega⟩
    second := ⟨spells_padded 2 t.second, by omega⟩
    millis := hms
    afterDay := ⟨.inl rfl, List.not_mem_nil⟩
    afterSecond := ⟨.inl rfl, List.not_mem_nil⟩ }

theorem dayNumber_epoch : dayNumber 1970 1 1 = 719528 := by
  have hyear := daysBeforeYear_eq 1970
  have hmonth : daysBeforeMonth 1970 1 = 0 := rfl
  unfold dayNumber
  omega

theorem Timestamp.Valid.wholeMillis_mem {t : Timestamp} (ht : t.Valid) :
    -2 ^ 62 ≤ t.wholeMillis ∧ t.wholeMillis < 2 ^ 62 := by
  obtain ⟨hyear, ⟨hmonth, hday⟩, hhour, hminute, hsecond, -⟩ := ht
  have hlength := monthLength_le t.year t.month
  have hdays : dayNumber t.year t.month t.day ≤ 10000000 := by
    have hyears := daysBeforeYear_eq t.year
    have hmonths := daysBeforeMonth_eq (y := t.year) hmonth
    have hleap : (if IsLeap t.year then 60 else 59) ≤ 60 := by split <;> decide
    unfold dayNumber
    split at hmonths <;> omega
  unfold wholeMillis
  rw [dayNumber_epoch]
  omega

theorem parse_timestamp {s : String} {t : Timestamp} {ms : Int} (ht : t.Valid)
    (hs : s.toList = t.text) (hparse : parseRfc3339Utc build s = .ok (some ms)) :
    ms = t.wholeMillis + value t.fraction := by
  have hbare := @Timestamp.pieces_spell t ht none 0 ⟨spells_zero, Nat.zero_le _⟩
  rw [← t.text_pieces] at hs
  obtain ⟨p, y, m, d, h, mi, sec, ms', hs', hp, -, rfl, -⟩ :=
    parseRfc3339Utc_eq_some.mp hparse
  have hread := readFields_eq_some.mpr ⟨p, y, m, d, h, mi, sec, ms', hs', hp, rfl⟩
  -- the digits are few enough, as there is a result
  have hfraction := fraction_of_readFields hread hs hbare.notMem_date hbare.notMem_time
  have hvalue : value t.fraction = ms' := by
    by_cases hnil : t.fraction = []
    · have hzero : t.pieces.fraction.getD ['0'] = ['0'] := by simp [Timestamp.pieces, hnil]
      rw [hzero] at hfraction
      rw [hnil]
      exact hfraction.1.value_eq (digits_replicate_zero 1)
    · have hsome : t.pieces.fraction.getD ['0'] = t.fraction := by simp [Timestamp.pieces, hnil]
      rw [hsome] at hfraction
      exact hfraction.1.value_eq ht.fraction
  have hexact := Timestamp.pieces_spell ht hfraction
  have hsame : millisOf y m d h mi sec ms' =
      millisOf t.year t.month t.day t.hour t.minute t.second ms' := by
    have hfields := readFields_eq_some.mpr ⟨_, _, _, _, _, _, _, _, hs, hexact, rfl⟩
    rw [hread] at hfields
    simp only [Option.some.injEq, Fields.mk.injEq, Int.natCast_inj] at hfields
    obtain ⟨rfl, rfl, rfl, rfl, rfl, rfl, -⟩ := hfields
    rfl
  have hmillis : millisOf t.year t.month t.day t.hour t.minute t.second ms' =
      t.wholeMillis + value t.fraction := by
    rw [hvalue, millisOf, Timestamp.wholeMillis, dayNumber_epoch]
    rfl
  have hrange := ht.wholeMillis_mem
  have hshort : value t.fraction ≤ 4294967295 := hvalue ▸ hfraction.2
  rw [hsame, hmillis, wrapI64_of_fits (by omega) (by omega)]

/-- What the parser accepts is the instant of a timestamp exactly if it is such a one, with a
fraction of three digits or zero, or without one. -/
theorem since_understands_iff (build : Build) (s : String) :
    (∀ ms, parseRfc3339Utc build s = .ok (some ms) → Denotes s ms) ↔
      (Accepted build s → Faithful s) := by
  constructor
  · intro h haccepted
    obtain ⟨ms, hparse⟩ := accepted_iff.mp haccepted
    obtain ⟨t, ht, hs, hinstant⟩ := h ms hparse
    have hread := parse_timestamp ht hs hparse
    refine ⟨t, ht, hs, t.plain_iff.mpr ?_⟩
    unfold Timestamp.instant at hinstant
    omega
  · intro h ms hparse
    obtain ⟨t, ht, hs, hplain⟩ := h (accepted_iff.mpr ⟨ms, hparse⟩)
    refine ⟨t, ht, hs, ?_⟩
    rw [parse_timestamp ht hs hparse, Timestamp.instant, t.plain_iff.mp hplain]

theorem Timestamp.length_text {t : Timestamp} (ht : t.Valid) :
    t.text.length = 20 + if t.fraction = [] then 0 else t.fraction.length + 1 := by
  obtain ⟨hyear, ⟨hmonth, hday⟩, hhour, hminute, hsecond, -⟩ := ht
  have hlength := monthLength_le t.year t.month
  have hy : (padded 4 t.year).length = 4 := length_padded (by decide) (by omega)
  have hm : (padded 2 t.month).length = 2 := length_padded (by decide) (by omega)
  have hd : (padded 2 t.day).length = 2 := length_padded (by decide) (by omega)
  have hh : (padded 2 t.hour).length = 2 := length_padded (by decide) (by omega)
  have hmi : (padded 2 t.minute).length = 2 := length_padded (by decide) (by omega)
  have hsec : (padded 2 t.second).length = 2 := length_padded (by decide) (by omega)
  unfold text
  simp only [List.length_append, List.length_cons, List.length_nil, hy, hm, hd, hh, hmi, hsec]
  split
  · rfl
  · simp only [List.length_cons]
    omega

/-- Half a second is read as five milliseconds, a date without its zeros is taken for a timestamp,
and so is a year so late that a release build wraps. -/
theorem half_second_misread :
    (parseRfc3339Utc .release "1970-01-01T00:00:00.5Z" = .ok (some 5) ∧
      ¬ Denotes "1970-01-01T00:00:00.5Z" 5) ∧
    parseRfc3339Utc .release "1970-1-1T00:00:00Z" = .ok (some 0) ∧ ¬ Denotes "1970-1-1T00:00:00Z" 0 ∧
    parseRfc3339Utc .release "300000000-01-01T00:00:00Z" = .ok (some (-8979720640928751616)) ∧
      ¬ Denotes "300000000-01-01T00:00:00Z" (-8979720640928751616) := by
  have hread : parseRfc3339Utc .release "1970-01-01T00:00:00.5Z" = .ok (some 5) := by decide +kernel
  refine ⟨⟨hread, ?_⟩, by decide +kernel, ?_, by decide +kernel, ?_⟩
  -- only whole seconds and milliseconds in three digits are read as they are meant
  · rintro ⟨t, ht, hs, hinstant⟩
    have hmillis := parse_timestamp ht hs hread
    have hlen : t.text.length = 22 := by
      rw [← hs]
      rfl
    rw [Timestamp.length_text ht] at hlen
    have hplain : t.Plain := t.plain_iff.mpr (by unfold Timestamp.instant at hinstant; omega)
    have hwhole : (1000 : Int) ∣ t.wholeMillis := by
      unfold Timestamp.wholeMillis
      omega
    rcases hplain with hnil | hthree | hzero
    · simp [hnil] at hlen
    · have hne : t.fraction ≠ [] := by
        intro hnil
        simp [hnil] at hthree
      rw [if_neg hne] at hlen
      omega
    · omega
  · rintro ⟨t, ht, hs, -⟩
    have hlen : t.text.length = 18 := by
      rw [← hs]
      rfl
    rw [Timestamp.length_text ht] at hlen
    omega
  · rintro ⟨t, ht, hs, hinstant⟩
    have hrange := ht.wholeMillis_mem
    unfold Timestamp.instant at hinstant
    omega

end Vcli.Cli

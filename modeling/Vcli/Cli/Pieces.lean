import Vcli.Cli.Calendar
import Vcli.Lib.Fallible

/-! What the parser of timestamps takes a text apart into, and the number it makes of the
pieces. -/

namespace Vcli.Cli

open Gregorian Decimal

section Splitting
variable {sep : Char} {s a b c : List Char}

theorem splitOn_cases (sep : Char) (s : List Char) :
    (sep ∉ s ∧ s.splitOn sep = [s]) ∨
      ∃ a b, s = a ++ sep :: b ∧ sep ∉ a ∧ s.splitOn sep = a :: b.splitOn sep := by
  by_cases hsep : sep ∈ s
  · obtain ⟨a, b, rfl, ha⟩ := List.eq_append_cons_of_mem hsep
    exact .inr ⟨a, b, rfl, ha, List.splitOn_append_cons_self_of_not_mem ha b⟩
  · exact .inl ⟨hsep, List.splitOn_eq_singleton hsep⟩

def Ignored (sep : Char) (rest : List Char) : Prop := rest = [] ∨ ∃ r, rest = sep :: r

theorem splitOn_three_iff :
    ((s.splitOn sep)[0]? = some a ∧ (s.splitOn sep)[1]? = some b ∧
      (s.splitOn sep)[2]? = some c) ↔
    ∃ rest, s = a ++ sep :: (b ++ sep :: (c ++ rest)) ∧ Ignored sep rest ∧
      sep ∉ a ∧ sep ∉ b ∧ sep ∉ c := by
  constructor
  · rintro ⟨ha, hb, hc⟩
    rcases splitOn_cases sep s with ⟨-, hs⟩ | ⟨a', s', rfl, hsep, hs⟩
    · simp [hs] at hb
    · rw [hs] at ha hb hc
      obtain rfl := Option.some.inj ha
      simp only [List.getElem?_cons_succ] at hb hc
      rcases splitOn_cases sep s' with ⟨-, hs'⟩ | ⟨b', s'', rfl, hsep', hs'⟩
      · simp [hs'] at hc
      · rw [hs'] at hb hc
        obtain rfl := Option.some.inj hb
        simp only [List.getElem?_cons_succ] at hc
        rcases splitOn_cases sep s'' with ⟨hlast, hs''⟩ | ⟨c', r, rfl, hsep'', hs''⟩
        · rw [hs''] at hc
          obtain rfl := Option.some.inj hc
          exact ⟨[], by rw [List.append_nil], .inl rfl, hsep, hsep', hlast⟩
        · rw [hs''] at hc
          obtain rfl := Option.some.inj hc
          exact ⟨sep :: r, rfl, .inr ⟨r, rfl⟩, hsep, hsep', hsep''⟩
  · rintro ⟨rest, rfl, hrest, ha, hb, hc⟩
    rw [List.splitOn_append_cons_self_of_not_mem ha, List.splitOn_append_cons_self_of_not_mem hb]
    rcases hrest with rfl | ⟨r, rfl⟩
    · rw [List.append_nil, List.splitOn_eq_singleton hc]
      exact ⟨rfl, rfl, rfl⟩
    · rw [List.splitOn_append_cons_self_of_not_mem hc]
      exact ⟨rfl, rfl, rfl⟩

end Splitting

structure Pieces where
  year : List Char
  month : List Char
  day : List Char
  afterDay : List Char
  hour : List Char
  minute : List Char
  second : List Char
  afterSecond : List Char
  fraction : Option (List Char)

namespace Pieces

def fractionText : Option (List Char) → List Char
  | none => []
  | some f => '.' :: f

def date (p : Pieces) : List Char :=
  p.year ++ '-' :: (p.month ++ '-' :: (p.day ++ p.afterDay))

def time (p : Pieces) : List Char :=
  p.hour ++ ':' :: (p.minute ++ ':' :: (p.second ++ p.afterSecond))

def text (p : Pieces) : List Char :=
  p.date ++ 'T' :: (p.time ++ fractionText p.fraction) ++ ['Z']

/-- The pieces are numerals of the numbers, within the types of the parser, and what it ignores
does not hide a separator from it. -/
structure Spell (p : Pieces) (y m d h mi sec ms : Nat) : Prop where
  year : Spells p.year y ∧ y ≤ maxI32
  month : Spells p.month m ∧ m ≤ maxU32
  day : Spells p.day d ∧ d ≤ maxU32
  hour : Spells p.hour h ∧ h ≤ maxU32
  minute : Spells p.minute mi ∧ mi ≤ maxU32
  second : Spells p.second sec ∧ sec ≤ maxU32
  millis : Spells (p.fraction.getD ['0']) ms ∧ ms ≤ maxU32
  afterDay : Ignored '-' p.afterDay ∧ 'T' ∉ p.afterDay
  afterSecond : Ignored ':' p.afterSecond ∧ '.' ∉ p.afterSecond

end Pieces

theorem notMem_of_spells {s : List Char} {n : Nat} {c : Char} (h : Spells s n)
    (hc : c ≠ '+' ∧ c.isDigit = false) : c ∉ s := by
  intro hmem
  rcases h.mem hmem with hplus | hdigit
  · exact hc.1 hplus
  · exact Bool.false_ne_true (hc.2.symm.trans hdigit)

theorem parseSigned_eq_some {s : List Char} {i : Int} (hs : '-' ∉ s) :
    parseSigned maxI32 s = some i ↔ ∃ y : Nat, (Spells s y ∧ y ≤ maxI32) ∧ (y : Int) = i := by
  rw [parseSigned_of_not_mem hs, Option.map_eq_some_iff]
  simp only [parseUnsigned_eq_some]

theorem fraction_cases (t : List Char) :
    ∃ time fraction, t = time ++ Pieces.fractionText fraction ∧ '.' ∉ time ∧
      (Expr.splitOnce '.' t).getD (t, ['0']) = (time, fraction.getD ['0']) := by
  by_cases hpoint : '.' ∈ t
  · obtain ⟨time, f, rfl, htime⟩ := List.eq_append_cons_of_mem hpoint
    refine ⟨time, some f, rfl, htime, ?_⟩
    rw [Expr.splitOnce_append htime]
    rfl
  · refine ⟨t, none, (List.append_nil t).symm, hpoint, ?_⟩
    rw [Expr.splitOnce_eq_none hpoint]
    rfl

theorem split_fraction {time : List Char} (htime : '.' ∉ time) (fraction : Option (List Char)) :
    (Expr.splitOnce '.' (time ++ Pieces.fractionText fraction)).getD
      (time ++ Pieces.fractionText fraction, ['0']) = (time, fraction.getD ['0']) := by
  cases fraction with
  | none =>
    rw [Pieces.fractionText, List.append_nil, Expr.splitOnce_eq_none htime]
    rfl
  | some f =>
    rw [Pieces.fractionText, Expr.splitOnce_append htime]
    rfl

theorem Pieces.Spell.notMem_date {p : Pieces} {y m d h mi sec ms : Nat}
    (hp : p.Spell y m d h mi sec ms) : 'T' ∉ p.date := by
  have hy := notMem_of_spells hp.year.1 (c := 'T') (by decide)
  have hm := notMem_of_spells hp.month.1 (c := 'T') (by decide)
  have hd := notMem_of_spells hp.day.1 (c := 'T') (by decide)
  have hrest := hp.afterDay.2
  simp [Pieces.date, hy, hm, hd, hrest]

theorem Pieces.Spell.notMem_time {p : Pieces} {y m d h mi sec ms : Nat}
    (hp : p.Spell y m d h mi sec ms) : '.' ∉ p.time := by
  have hh := notMem_of_spells hp.hour.1 (c := '.') (by decide)
  have hmi := notMem_of_spells hp.minute.1 (c := '.') (by decide)
  have hsec := notMem_of_spells hp.second.1 (c := '.') (by decide)
  have hrest := hp.afterSecond.2
  simp [Pieces.time, hh, hmi, hsec, hrest]

theorem spell_of_readFields {s : String} {f : Fields} (hread : readFields s = some f) :
    ∃ p y m d h mi sec ms, s.toList = Pieces.text p ∧ p.Spell y m d h mi sec ms ∧
      f = ⟨y, m, d, h, mi, sec, ms⟩ := by
  simp only [readFields, Option.bind_eq_bind, Option.bind_eq_some_iff, parseUnsigned_eq_some,
    Option.pure_def, Option.some.injEq] at hread
  obtain ⟨_, hguard, ⟨date, t⟩, hsplit, y, hy, year, hyear, m, hm, month, hmonth, d, hd, day, hday,
    h, hh, hour, hhour, mi, hmi, minute, hminute, sec, hsec, second, hsecond, millis, hmillis, rfl⟩ :=
    hread
  have hlast : s.toList.getLast? = some 'Z' := by
    by_contra hnot
    simp [guard, hnot] at hguard
  obtain ⟨hcore, hdate⟩ := Expr.splitOnce_eq_some.mp hsplit
  obtain ⟨time, fraction, rfl, htime, hfraction⟩ := fraction_cases t
  rw [hfraction] at hh hmi hsec hmillis
  obtain ⟨afterDay, rfl, hafter, hdash, -, -⟩ := splitOn_three_iff.mp ⟨hy, hm, hd⟩
  obtain ⟨afterSecond, rfl, hafter', -, -, -⟩ := splitOn_three_iff.mp ⟨hh, hmi, hsec⟩
  obtain ⟨n, hn, rfl⟩ := (parseSigned_eq_some hdash).mp hyear
  refine ⟨⟨y, m, d, afterDay, h, mi, sec, afterSecond, fraction⟩, n, month, day, hour, minute,
    second, millis, ?_, ⟨hn, hmonth, hday, hhour, hminute, hsecond, hmillis, ⟨hafter, ?_⟩,
      hafter', ?_⟩, rfl⟩
  · rw [Pieces.text, Pieces.date, Pieces.time, ← hcore]
    exact (List.dropLast_append_getLast? 'Z' hlast).symm
  · intro hmem
    apply hdate
    simp [hmem]
  · intro hmem
    apply htime
    simp [hmem]

theorem readFields_of_spell {s : String} {p : Pieces} {y m d h mi sec ms : Nat}
    (hs : s.toList = p.text) (hp : p.Spell y m d h mi sec ms) :
    readFields s = some ⟨y, m, d, h, mi, sec, ms⟩ := by
  simp only [readFields, Option.bind_eq_bind, Option.bind_eq_some_iff, parseUnsigned_eq_some,
    Option.pure_def, Option.some.injEq]
  have hdash := notMem_of_spells hp.year.1 (c := '-') (by decide)
  obtain ⟨hy, hm, hd⟩ := splitOn_three_iff.mpr ⟨p.afterDay, rfl, hp.afterDay.1, hdash,
    notMem_of_spells hp.month.1 (by decide), notMem_of_spells hp.day.1 (by decide)⟩
  obtain ⟨hh, hmi, hsec⟩ := splitOn_three_iff.mpr ⟨p.afterSecond, rfl, hp.afterSecond.1,
    notMem_of_spells hp.hour.1 (by decide), notMem_of_spells hp.minute.1 (by decide),
    notMem_of_spells hp.second.1 (by decide)⟩
  have hlast : s.toList.getLast? = some 'Z' := by rw [hs, Pieces.text, List.getLast?_concat]
  have hcore : s.toList.dropLast = p.date ++ 'T' :: (p.time ++ Pieces.fractionText p.fraction) := by
    rw [hs, Pieces.text, List.dropLast_concat]
  rw [hcore]
  refine ⟨(), by simp [guard, hlast], _, Expr.splitOnce_append hp.notMem_date, p.year, hy, y,
    (parseSigned_eq_some hdash).mpr ⟨y, hp.year, rfl⟩, p.month, hm, m, hp.month, p.day, hd, d,
    hp.day, ?_⟩
  rw [split_fraction hp.notMem_time]
  exact ⟨p.hour, hh, h, hp.hour, p.minute, hmi, mi, hp.minute, p.second, hsec, sec, hp.second, ms,
    hp.millis, rfl⟩

theorem readFields_eq_some {s : String} {f : Fields} : readFields s = some f ↔
    ∃ p y m d h mi sec ms, s.toList = Pieces.text p ∧ p.Spell y m d h mi sec ms ∧
      f = ⟨y, m, d, h, mi, sec, ms⟩ := by
  constructor
  · exact spell_of_readFields
  · rintro ⟨p, y, m, d, h, mi, sec, ms, hs, hp, rfl⟩
    exact readFields_of_spell hs hp

theorem fraction_of_readFields {s : String} {f : Fields} {p : Pieces}
    (hread : readFields s = some f) (hs : s.toList = p.text) (hdate : 'T' ∉ p.date)
    (htime : '.' ∉ p.time) : Spells (p.fraction.getD ['0']) f.millis ∧ f.millis ≤ maxU32 := by
  simp only [readFields, Option.bind_eq_bind, Option.bind_eq_some_iff, parseUnsigned_eq_some,
    Option.pure_def, Option.some.injEq] at hread
  rw [hs, Pieces.text, List.dropLast_concat, Expr.splitOnce_append hdate] at hread
  obtain ⟨_, -, _, hsplit, _, -, _, -, _, -, _, -, _, -, _, -, _, -, _, -, _, -, _, -, _, -, _, -,
    _, hmillis, rfl⟩ := hread
  obtain rfl := Option.some.inj hsplit
  rwa [split_fraction htime] at hmillis

def millisOf (y m d h mi sec ms : Nat) : Int :=
  ((dayNumber y m d : Int) - 719528) * 86400000 + h * 3600000 + mi * 60000 + sec * 1000 + ms

variable {build : Build}

theorem arithI64_debug {n t : Int} :
    arithI64 .debug n = .ok t ↔ (-2 ^ 63 ≤ n ∧ n < 2 ^ 63) ∧ n = t := by
  simp only [arithI64]
  split
  · next hfits => rw [Except.ok.injEq, and_iff_right hfits]
  · next hout => exact iff_of_false (by simp) fun h => hout h.1

theorem arithI64_release (n : Int) : arithI64 .release n = .ok (wrapI64 n) := rfl

/-- Only the first product and the sums can overflow, and upwards only. -/
theorem sum_eq_some {days t : Int} {h mi sec ms : Nat} (hdays : -719528 ≤ days) :
    let sum := days * 86400000 + h * 3600000 + mi * 60000 + sec * 1000 + ms
    (do
      let sum ← arithI64 build (days * 86400000)
      let sum ← arithI64 build (sum + h * 3600000)
      let sum ← arithI64 build (sum + mi * 60000)
      let sum ← arithI64 build (sum + sec * 1000)
      let sum ← arithI64 build (sum + ms)
      return some sum : Checked (Option Int)) = .ok (some t) ↔
      t = wrapI64 sum ∧ (build = .debug → sum < 2 ^ 63) := by
  intro sum
  cases build with
  | debug =>
    simp only [Fallible.bind_eq_ok, arithI64_debug, pure, Except.pure, Except.ok.injEq,
      Option.some.injEq, true_imp_iff]
    constructor
    · rintro ⟨_, ⟨-, rfl⟩, _, ⟨-, rfl⟩, _, ⟨-, rfl⟩, _, ⟨-, rfl⟩, _, ⟨⟨hlow, hfits⟩, rfl⟩, rfl⟩
      exact ⟨(wrapI64_of_fits hlow hfits).symm, hfits⟩
    · rintro ⟨rfl, hfits⟩
      have hwhole : wrapI64 sum = sum := wrapI64_of_fits (by omega) hfits
      exact ⟨_, ⟨⟨by omega, by omega⟩, rfl⟩, _, ⟨⟨by omega, by omega⟩, rfl⟩,
        _, ⟨⟨by omega, by omega⟩, rfl⟩, _, ⟨⟨by omega, by omega⟩, rfl⟩,
        _, ⟨⟨by omega, hfits⟩, rfl⟩, hwhole.symm⟩
  | release =>
    -- one wrap at the end is as good as one after every operation
    simp only [arithI64_release, bind, Except.bind, pure, Except.pure, Except.ok.injEq,
      Option.some.injEq, wrapI64_add]
    constructor
    · intro ht
      exact ⟨ht.symm, by simp⟩
    · intro ht
      exact ht.1.symm

theorem parseRfc3339Utc_eq_some {s : String} {t : Int} :
    parseRfc3339Utc build s = .ok (some t) ↔
    ∃ p y m d h mi sec ms, s.toList = Pieces.text p ∧ p.Spell y m d h mi sec ms ∧
      ((1 ≤ m ∧ m ≤ 12) ∧ 1 ≤ d ∧ d ≤ 31) ∧ t = wrapI64 (millisOf y m d h mi sec ms) ∧
        (build = .debug → millisOf y m d h mi sec ms < 2 ^ 63) := by
  have hdays : ∀ y m d, -719528 ≤ (dayNumber y m d : Int) - 719528 := by
    intro y m d
    omega
  unfold parseRfc3339Utc millisOf
  constructor
  · intro hparse
    split at hparse
    · cases hparse
    · next f hread =>
      obtain ⟨p, y, m, d, h, mi, sec, ms, hs, hp, rfl⟩ := readFields_eq_some.mp hread
      dsimp only at hparse
      by_cases hrange : (1 ≤ m ∧ m ≤ 12) ∧ 1 ≤ d ∧ d ≤ 31
      · rw [daysFromCivil_eq hp.year.2 hrange.1 hrange.2] at hparse
        exact ⟨p, y, m, d, h, mi, sec, ms, hs, hp, hrange, (sum_eq_some (hdays y m d)).mp hparse⟩
      · rw [daysFromCivil_none hrange] at hparse
        cases hparse
  · rintro ⟨p, y, m, d, h, mi, sec, ms, hs, hp, hrange, hsum⟩
    rw [readFields_eq_some.mpr ⟨p, y, m, d, h, mi, sec, ms, hs, hp, rfl⟩]
    dsimp only
    rw [daysFromCivil_eq hp.year.2 hrange.1 hrange.2]
    exact (sum_eq_some (hdays y m d)).mpr hsum

end Vcli.Cli

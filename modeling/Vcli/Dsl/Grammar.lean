import Vcli.Dsl.Accepted

/-! The grammar of expressions, and the parser against it:
`Expression := '$' Name '.' 'match' '.' Accessor`, `Name := [A-Za-z_][A-Za-z0-9_]*`. -/

namespace Vcli.Dsl

def NameStart (c : Char) : Prop := 'A' ≤ c ∧ c ≤ 'Z' ∨ 'a' ≤ c ∧ c ≤ 'z' ∨ c = '_'

def NamePart (c : Char) : Prop := NameStart c ∨ '0' ≤ c ∧ c ≤ '9'

inductive IsName : List Char → Prop
  | intro {c : Char} {cs : List Char} (hc : NameStart c) (hcs : ∀ d ∈ cs, NamePart d) :
    IsName (c :: cs)

def Expression.print (e : Expression) : String := "$" ++ e.name ++ ".match." ++ e.accessor.text

inductive Derives : String → Expression → Prop
  | intro {name : String} (accessor : Accessor) (hname : IsName name.toList) :
    Derives ("$" ++ name ++ ".match." ++ accessor.text) ⟨name, accessor⟩

theorem nameStart_iff (c : Char) : (c = '_' || c.isAlpha) = true ↔ NameStart c := by
  have hle : ∀ a b : Char, a.val ≤ b.val ↔ a ≤ b := fun _ _ => Iff.rfl
  have halpha : c.isAlpha = (decide (c.val ≥ 'A'.val ∧ c.val ≤ 'Z'.val) ||
    (c.val ≥ 'a'.val && c.val ≤ 'z'.val)) := rfl
  simp only [halpha, NameStart, Bool.or_eq_true, Bool.and_eq_true, decide_eq_true_iff, ge_iff_le,
    hle]
  rw [or_comm, or_assoc]

theorem namePart_iff (c : Char) : (c = '_' || c.isAlphanum) = true ↔ NamePart c := by
  have hle : ∀ a b : Char, a.val ≤ b.val ↔ a ≤ b := fun _ _ => Iff.rfl
  rw [NamePart, ← nameStart_iff]
  simp only [Char.isAlphanum, Char.isDigit, Bool.or_eq_true, Bool.and_eq_true,
    decide_eq_true_iff, ge_iff_le, hle, or_assoc]

theorem isValidName_iff (name : List Char) : isValidName name = true ↔ IsName name := by
  constructor
  · intro h
    cases name with
    | nil => exact nomatch h
    | cons c cs =>
      rw [isValidName, Bool.and_eq_true, List.all_eq_true] at h
      have hc : NameStart c := (nameStart_iff c).mp h.1
      have hcs : ∀ d ∈ cs, NamePart d := fun d hd => (namePart_iff d).mp (h.2 d hd)
      exact .intro hc hcs
  · rintro ⟨hc, hcs⟩
    rw [isValidName, Bool.and_eq_true, List.all_eq_true]
    exact ⟨(nameStart_iff _).mpr hc, fun d hd => (namePart_iff d).mpr (hcs d hd)⟩

theorem Expression.toList_print (e : Expression) : e.print.toList = e.text := by
  simp [Expression.print, Expression.text, List.intercalate, List.intersperse]

theorem derives_iff {s : String} {e : Expression} :
    Derives s e ↔ IsName e.name.toList ∧ s = e.print := by
  constructor
  · rintro ⟨accessor, hname⟩
    exact ⟨hname, rfl⟩
  · rintro ⟨hname, rfl⟩
    exact .intro e.accessor hname

theorem Expression.parse_iff_derives {s : String} {at_ : JsonPath} {e : Expression} :
    Expression.parse s at_ = .ok e ↔ Derives s e := by
  rw [Expression.parse_eq_ok, isValidName_iff, derives_iff, ← Expression.toList_print,
    String.toList_inj]

/-- The parser accepts its grammar and nothing else, and printing undoes it on both sides. -/
theorem parse_print_inverse (at_ : JsonPath) :
    (∀ s e, Expression.parse s at_ = .ok e ↔
      ∃ name accessor, s = "$" ++ name ++ ".match." ++ Accessor.text accessor ∧
        IsName name.toList ∧ e = ⟨name, accessor⟩) ∧
    (∀ s, (Expression.parse s at_).map Expression.print = .ok s ↔
      ∃ e, Expression.parse s at_ = .ok e) ∧
    ∀ e, Expression.parse e.print at_ = .ok e ↔ IsName e.name.toList := by
  refine ⟨?_, ?_, ?_⟩
  · intro s e
    rw [Expression.parse_iff_derives]
    constructor
    · rintro ⟨accessor, hname⟩
      exact ⟨_, accessor, rfl, hname, rfl⟩
    · rintro ⟨name, accessor, rfl, hname, rfl⟩
      exact .intro accessor hname
  · intro s
    constructor
    · intro h
      cases hparse : Expression.parse s at_ with
      | ok e => exact ⟨e, rfl⟩
      | error err => simp [hparse, Except.map] at h
    · rintro ⟨e, hparse⟩
      have hprint : s = e.print := (derives_iff.mp (Expression.parse_iff_derives.mp hparse)).2
      rw [hparse, Except.map, ← hprint]
  · intro e
    rw [Expression.parse_iff_derives, derives_iff]
    exact and_iff_left rfl

end Vcli.Dsl

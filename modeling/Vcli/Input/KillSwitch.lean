import Vcli.Input.Sink

/-! The kill switch, engaged at some moment of a call of the input sink. The calls read the switch
when they start, and a drag before each of its moves. -/

namespace Vcli

open Procedure Sink CgEvents CgTyping CGEventInputSink

abbrev History := List (Deed Effect)

def CGEventType.begunBy : CGEventType → Option CGEventType
  | leftMouseUp => some leftMouseDown
  | rightMouseUp => some rightMouseDown
  | otherMouseUp => some otherMouseDown
  | _ => none

def CGEvent.isRelease : CGEvent → Bool
  | mouse type .. => type.begunBy.isSome
  | keyboard _ down .. => !down

def CGEvent.isDrag : CGEvent → Bool
  | mouse type .. => type ∈ [.leftMouseDragged, .rightMouseDragged, .otherMouseDragged]
  | keyboard .. => false

def CGEvent.Releases : CGEvent → CGEvent → Prop
  | mouse type _ button _ _, mouse type' _ button' _ _ =>
    type.begunBy = some type' ∧ button = button'
  | keyboard keycode down _ string, keyboard keycode' down' _ string' =>
    down = false ∧ down' = true ∧ keycode = keycode' ∧ string = string'
  | _, _ => False

def Posted (h : History) (e : CGEvent) : Prop := .acted (.post e) ∈ h

def OnlyReleases (k : Nat) (h : History) : Prop :=
  ∀ i e, h[i]? = some (.acted (.post e)) → k ≤ i → ∃ d, Posted (h.take i) d ∧ e.Releases d

section Histories

def JustLooked (h : History) : Prop :=
  ∃ b earlier, h = earlier ++ [.asked b, .attempted true, .attempted true]

structure Orderly (h : History) (d : Deed Effect) : Prop where
  matched : ∀ e, d = .acted (.post e) → e.isRelease = true → ∃ p, Posted h p ∧ e.Releases p
  looked : ∀ e, d = .acted (.post e) → e.isDrag = true → JustLooked h

def Clear (h : History) : Prop := .asked true ∉ h

structure Unwound (after : History) : Prop where
  gentle : ∀ e, Posted after e → e.isRelease = true ∨ e.isDrag = true
  late : .attempted false ∉ after → ∃ e, Posted after e ∧ e.isRelease = false
  unread : ∀ b, .asked b ∉ after

end Histories

section Steps
variable {α : Type} {I : History → Deed Effect → Prop} {Q : Except Stop α → History → Prop}
  {h : History}

end Steps

section Parts
variable {α β : Type} {p q : List CGEvent} {e : CGEvent} {h : History}

theorem Clear.snoc (hc : Clear h) {d : Deed Effect} (hd : d ≠ .asked true) : Clear (h ++ [d]) := by
  intro hmem
  rcases List.mem_append.mp hmem with hold | hnew
  · exact hc hold
  · exact hd (List.mem_singleton.mp hnew).symm

theorem Posted.mono {h' : History} (he : Posted h e) (hpre : h <+: h') : Posted h' e :=
  hpre.subset he

theorem isRelease_of_releases {d : CGEvent} (he : e.Releases d) : e.isRelease = true := by
  cases e with
  | mouse type at_ button flags clickState =>
    cases d with
    | mouse => exact Option.isSome_iff_exists.mpr ⟨_, he.1⟩
    | keyboard => exact he.elim
  | keyboard keycode down flags string =>
    cases d with
    | mouse => exact he.elim
    | keyboard => rw [CGEvent.isRelease, he.1]; rfl

end Parts

section Calls
variable {p : List CGEvent} {h h' : History}

theorem buttonTypes_begunBy (button : Button) :
    (buttonTypes button).2.2.begunBy = some (buttonTypes button).2.1 ∧
      (buttonTypes button).2.1.begunBy = none := by
  cases button <;> exact ⟨rfl, rfl⟩

theorem Unwound.snoc {after : History} (h : Unwound after) {d : Deed Effect}
    (hd : ∀ b, d ≠ .asked b)
    (hpost : ∀ e, d = .acted (.post e) → e.isRelease = true ∨ e.isDrag = true) :
    Unwound (after ++ [d]) where
  gentle := by
    intro e he
    rcases List.mem_append.mp he with hold | hnew
    · exact h.gentle e hold
    · exact hpost e (List.mem_singleton.mp hnew).symm
  late := by
    intro hok
    obtain ⟨e, he, hlate⟩ := h.late fun hmem => hok (List.mem_append_left _ hmem)
    exact ⟨e, List.mem_append_left _ he, hlate⟩
  unread := by
    intro b hb
    rcases List.mem_append.mp hb with hold | hnew
    · exact h.unread b hold
    · exact hd b (List.mem_singleton.mp hnew).symm

theorem Unwound.attempted {after : History} (h : Unwound after) (b : Bool) :
    Unwound (after ++ [.attempted b]) :=
  h.snoc (fun _ heq => nomatch heq) fun _ heq => nomatch heq

/-- A press of the button is in the history. -/
def Held (button : Button) (h : History) : Prop :=
  ∃ start, Posted h (.mouse (buttonTypes button).2.1 start (buttonTypes button).1 none none)

section BailOut
variable {current : Point} {button : Button} {before after : History}

end BailOut

section Drag
variable {build : Build} {button : Button}

end Drag

end Calls

section Moments
variable {h : History} {k : Nat}

theorem OnlyReleases.late (ho : OnlyReleases k h) {i : Nat} {e : CGEvent}
    (hi : h[i]? = some (.acted (.post e))) (hk : k ≤ i) : e.isRelease = true := by
  obtain ⟨d, -, hreleases⟩ := ho i e hi hk
  exact isRelease_of_releases hreleases

end Moments

section Calls
variable (build : Build) (accessibility : PermissionStatus) (c : SinkCall) (k : Nat)

variable {build : Build} {accessibility : PermissionStatus} {c : SinkCall} {k : Nat}

end Calls

end Vcli

import Mathlib.Data.List.Basic

/-! Pointers into a tree. As text, a pointer has a slash before each of its tokens; a slash of a
token is written `~1` and a tilde `~0`. The tree is only known by its children. -/

namespace Pointer

def escape : Char → List Char
  | '~' => ['~', '0']
  | '/' => ['~', '1']
  | c => [c]

def write (tokens : List (List Char)) : List Char :=
  tokens.flatMap fun t => '/' :: t.flatMap escape

def unescape : List Char → Option (List Char)
  | [] => some []
  | '~' :: '0' :: cs => (unescape cs).map ('~' :: ·)
  | '~' :: '1' :: cs => (unescape cs).map ('/' :: ·)
  | '~' :: _ => none
  | c :: cs => (unescape cs).map (c :: ·)

def read : List Char → Option (List (List Char))
  | [] => some []
  | '/' :: cs => (cs.splitOn '/').mapM unescape
  | _ => none

section Text
variable {tokens : List (List Char)}

theorem slash_not_mem_escape (c : Char) : '/' ∉ escape c := by
  unfold escape
  split
  · decide
  · decide
  · rename_i hslash
    exact fun h => hslash (List.mem_singleton.mp h).symm

theorem unescape_escape (t : List Char) : unescape (t.flatMap escape) = some t := by
  induction t with
  | nil => rfl
  | cons c t ih =>
    rw [List.flatMap_cons]
    by_cases htilde : c = '~'
    · rw [htilde]
      change (unescape (t.flatMap escape)).map ('~' :: ·) = _
      rw [ih, Option.map_some]
    by_cases hslash : c = '/'
    · rw [hslash]
      change (unescape (t.flatMap escape)).map ('/' :: ·) = _
      rw [ih, Option.map_some]
    · have hplain : escape c = [c] := by
        unfold escape
        split
        · exact absurd rfl htilde
        · exact absurd rfl hslash
        · rfl
      have hread : unescape (c :: t.flatMap escape) =
          (unescape (t.flatMap escape)).map (c :: ·) := by
        rw [unescape]
        · exact fun _ h _ => htilde h
        · exact fun _ h _ => htilde h
        · exact htilde
      rw [hplain, List.singleton_append, hread, ih, Option.map_some]

theorem write_cons (t : List Char) :
    write (t :: tokens) = '/' :: ['/'].intercalate ((t :: tokens).map (·.flatMap escape)) := by
  induction tokens generalizing t with
  | nil => simp [write]
  | cons u tokens ih =>
    have hrest : write (t :: u :: tokens) = '/' :: (t.flatMap escape ++ write (u :: tokens)) := by
      simp [write]
    rw [hrest, ih, List.map_cons, List.map_cons, List.map_cons, List.intercalate_cons_cons,
      List.append_assoc]
    rfl

theorem read_write (tokens : List (List Char)) : read (write tokens) = some tokens := by
  cases tokens with
  | nil => rfl
  | cons t tokens =>
    have hsplit : (['/'].intercalate ((t :: tokens).map (·.flatMap escape))).splitOn '/' =
        (t :: tokens).map (·.flatMap escape) := by
      refine List.splitOn_intercalate '/' (fun u hu => ?_) (List.cons_ne_nil _ _)
      obtain ⟨t', -, rfl⟩ := List.mem_map.mp hu
      rw [List.mem_flatMap]
      rintro ⟨c, -, hc⟩
      exact slash_not_mem_escape c hc
    rw [write_cons, read, hsplit]
    generalize t :: tokens = ts
    induction ts with
    | nil => rfl
    | cons t ts ih => rw [List.map_cons, List.mapM_cons, unescape_escape, ih]; rfl

end Text

section Tree
variable {V : Type} (child : V → List Char → Option V)

def follow (v : V) (tokens : List (List Char)) : Option V := tokens.foldlM child v

def resolve (v : V) (text : List Char) : Option V := (read text).bind (follow child v)

theorem follow_append (v : V) (tokens more : List (List Char)) :
    follow child v (tokens ++ more) = (follow child v tokens).bind fun w => follow child w more :=
  List.foldlM_append

theorem follow_one (v : V) (t : List Char) : follow child v [t] = child v t := by
  cases h : child v t with
  | none => simp [follow, h]
  | some w => simp [follow, h]

theorem resolve_write (v : V) (tokens : List (List Char)) :
    resolve child v (write tokens) = follow child v tokens := by
  rw [resolve, read_write, Option.bind_some]

end Tree

end Pointer

import Diorama.Text.Blank

/-! Words: maximal runs of a class of characters, and the search for a name that stands as a whole
word. -/

namespace Diorama.Text

/-- The maximal runs of characters in the class `p`, in order. -/
def runs (p : Char → Bool) : List Char → List (List Char)
  | [] => []
  | c :: rest =>
    if p c then
      match rest, runs p rest with
      | d :: _, run :: more => if p d then (c :: run) :: more else [c] :: run :: more
      | _, more => [c] :: more
    else runs p rest

def words (s : List Char) : List (List Char) := runs isWordChar s

/-- Searches for `name` without word characters beside it, from a place that `previous` stands
before.  After an occurrence with a word character beside it the search goes on behind that
occurrence. -/
def mentionsFrom (name : List Char) (previous : Option Char) (s : List Char) : Bool :=
  match s with
  | [] => false
  | c :: rest =>
    if name.isPrefixOf (c :: rest) && !name.isEmpty then
      let after := (c :: rest).drop name.length
      (!previous.any isWordChar && !after.head?.any isWordChar) ||
        mentionsFrom name name.getLast? after
    else mentionsFrom name (some c) rest
termination_by s.length
decreasing_by
  · rename_i h
    have := List.length_pos_iff.2 (show name ≠ [] by rintro rfl; simp at h)
    simp only [List.length_drop, List.length_cons]
    omega
  · simp

/-- Whether `code` holds `name` as a whole identifier. -/
def mentions (code name : List Char) : Bool :=
  !name.isEmpty && mentionsFrom name none code

end Diorama.Text

/-! The lines of a text, and the two sides of a mark in it. -/

namespace Diorama.Text

/-- The lines of a text.  A newline ends a line, and takes one carriage return before it along; a
last line without a newline is kept as it is, and nothing follows a last newline. -/
def lines : List Char → List (List Char)
  | [] => []
  | '\r' :: '\n' :: rest => [] :: lines rest
  | '\n' :: rest => [] :: lines rest
  | c :: rest =>
    match lines rest with
    | [] => [[c]]
    | line :: more => (c :: line) :: more

def unlines (ls : List (List Char)) : List Char := List.intercalate ['\n'] ls

/-- What stands before and after the first occurrence of `mark`. -/
def cut? (mark : List Char) : List Char → Option (List Char × List Char)
  | [] => if mark.isEmpty then some ([], []) else none
  | c :: rest =>
    if mark.isPrefixOf (c :: rest) then some ([], (c :: rest).drop mark.length)
    else (cut? mark rest).map fun (before, after) => (c :: before, after)

/-- A cut loses the mark and nothing else. -/
theorem eq_append_of_cut? {mark s before after : List Char}
    (h : cut? mark s = some (before, after)) : s = before ++ mark ++ after := by
  induction s generalizing before with
  | nil =>
    simp only [cut?] at h
    split at h
    · simp_all
    · simp at h
  | cons c rest ih =>
    simp only [cut?] at h
    split at h
    · next hm =>
      obtain ⟨t, ht⟩ := List.isPrefixOf_iff_prefix.1 hm
      simp only [Option.some.injEq, Prod.mk.injEq] at h
      obtain ⟨rfl, rfl⟩ := h
      simp [← ht]
    · obtain ⟨⟨b, a⟩, hcut, hba⟩ := Option.map_eq_some_iff.1 h
      simp only [Prod.mk.injEq] at hba
      obtain ⟨rfl, rfl⟩ := hba
      rw [ih hcut]
      simp

/-- Whether `mark` occurs in the text. -/
def contains (mark s : List Char) : Bool := (cut? mark s).isSome

/-- The text before the first occurrence of `mark`, or all of it. -/
def before (mark s : List Char) : List Char :=
  match cut? mark s with
  | some (front, _) => front
  | none => s

end Diorama.Text

import Diorama.Text.Lines
import Diorama.Text.Numeral

/-! Comments and annotations in a shader file.  A comment runs from `//` to the end of its line.
An annotation is `@name(contents)`, or `@attribute=NAME` before a vertex input.  Reading looks for
annotations on a line; stripping removes those that a shading language does not know. -/

namespace Diorama.Shader

open Text

def attributeMark : List Char := "@attribute=".toList

def tagMark : List Char := "@tag(".toList

/-- The text without its comments, and without a newline at its end. -/
def stripComments (s : List Char) : List Char :=
  unlines ((lines s).map (before "//".toList))

/-- The contents of the first `@name(` on a line, up to the next closing parenthesis, and the text
behind that parenthesis. -/
def annotation? (name : String) (line : List Char) : Option (List Char × List Char) := do
  let (_, rest) ← cut? ('@' :: name.toList ++ ['(']) line
  cut? [')'] rest

/-- The number in the first `@name(` on a line, blanks around it allowed, and the text behind. -/
def numberAnnotation? (name : String) (line : List Char) : Option (UInt32 × List Char) := do
  let (contents, rest) ← annotation? name line
  return (← word32? (trim contents), rest)

/-- The text behind the next closing parenthesis, which is empty where there is none. -/
def afterParen : List Char → List Char
  | [] => []
  | c :: rest => if c = ')' then rest else afterParen rest

theorem length_afterParen_le (s : List Char) : (afterParen s).length ≤ s.length := by
  induction s with
  | nil => exact Nat.le_refl _
  | cons c rest ih =>
    simp only [afterParen]
    split
    · simp
    · exact Nat.le_succ_of_le ih

/-- Whether the name at the front has a blank of several bytes behind it. -/
def isNameBeforeWideBlank (s : List Char) : Bool :=
  (s.dropWhile isWordChar).head?.any fun c => isBlank c && c.utf8Size != 1

/-- The text behind the name at the front and behind one blank after the name. -/
def afterName (s : List Char) : List Char :=
  match s.dropWhile isWordChar with
  | [] => []
  | c :: rest => if isBlank c then rest else c :: rest

theorem length_afterName_le (s : List Char) : (afterName s).length ≤ s.length := by
  have h := (List.dropWhile_sublist isWordChar : (s.dropWhile isWordChar).Sublist s).length_le
  unfold afterName
  split
  · simp
  · next c rest hs =>
    rw [hs] at h
    split
    · exact Nat.le_of_succ_le h
    · exact h

/-- Removes from left to right each `@tag(` up to its closing parenthesis, and each `@attribute=`
with the name behind it and one blank behind the name.  There is no result where that blank takes
several bytes. -/
def withoutAnnotations? (s : List Char) : Option (List Char) :=
  match s with
  | [] => some []
  | c :: rest =>
    if tagMark.isPrefixOf (c :: rest) then withoutAnnotations? (afterParen rest)
    else if attributeMark.isPrefixOf (c :: rest) then
      let behind := rest.drop (attributeMark.length - 1)
      if isNameBeforeWideBlank behind then none else withoutAnnotations? (afterName behind)
    else (withoutAnnotations? rest).map (c :: ·)
termination_by s.length
decreasing_by
  · have := length_afterParen_le rest
    simp only [List.length_cons]
    omega
  · have := length_afterName_le (rest.drop (attributeMark.length - 1))
    simp only [List.length_cons, List.length_drop] at *
    omega
  · simp

/-- Newlines, carriage returns, tabs, backspaces and form feeds become spaces. -/
def flattenControl (c : Char) : Char :=
  if c = '\n' ∨ c = '\r' ∨ c = '\t' ∨ c = '\x08' ∨ c = '\x0c' then ' ' else c

/-- The text that is left to be read as a document: no annotations, no control characters. -/
def stripAnnotations? (s : List Char) : Option (List Char) :=
  (withoutAnnotations? s).map (·.map flattenControl)

end Diorama.Shader

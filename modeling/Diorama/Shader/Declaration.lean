import Diorama.Text.Word
import Diorama.Shader.Annotation

/-! The two kinds of declaration line in a shader: `Declaration`, a bound resource, and
`VertexInput`, an attribute of a vertex, with the format in which its type is stored. -/

namespace Diorama.Shader

open Text

/-- A resource declared on a `@group` line. -/
structure Declaration where
  group : UInt32
  binding : UInt32
  /-- The word that opens the variable, such as `var<uniform>`. -/
  qualifier : String
  name : String
  datatype : String
  tag : Option String
deriving DecidableEq, Repr

/-- The characters that a variable's part of a line is made of. -/
def isVariableChar (c : Char) : Bool := isTypeChar c || isBlank c || c == ':'

/-- Reads `@tag(t) @group(g) @binding(b) var<q> name: type;`, the tag optional and blank tags
ignored.  The variable is looked for behind both numbers: from the first `var` on, as far as its
characters go, the first three words are qualifier, name and type. -/
def Declaration.ofLine? (line : List Char) : Option Declaration := do
  let (group, afterGroup) ← numberAnnotation? "group" line
  let (binding, afterBinding) ← numberAnnotation? "binding" line
  let tag := (annotation? "tag" line).bind fun (contents, _) =>
    if (trim contents).isEmpty then none else some (String.ofList (trim contents))
  let rest := if afterGroup.length ≤ afterBinding.length then afterGroup else afterBinding
  let (_, behindVar) ← cut? "var".toList rest
  match runs isTypeChar (("var".toList ++ behindVar).takeWhile isVariableChar) with
  | qualifier :: name :: datatype :: _ =>
    some ⟨group, binding, String.ofList qualifier, String.ofList name, String.ofList datatype, tag⟩
  | _ => none

/-- An attribute of a vertex, declared on an `@attribute=` line. -/
structure VertexInput where
  semantic : String
  location : UInt32
  datatype : String
deriving DecidableEq, Repr

/-- Reads `@location(n) @attribute=SEMANTIC name: type,`. -/
def VertexInput.ofLine? (line : List Char) : Option VertexInput := do
  let (location, _) ← numberAnnotation? "location" line
  let (_, afterMark) ← cut? attributeMark line
  let semantic := afterMark.takeWhile isWordChar
  guard (!semantic.isEmpty)
  let (_, afterColon) ← cut? [':'] (afterMark.dropWhile isWordChar)
  let datatype := (trimStart afterColon).takeWhile isTypeChar
  guard (!datatype.isEmpty)
  return ⟨String.ofList semantic, location, String.ofList datatype⟩

inductive VertexFormat where
  | float32
  | float32x2
  | float32x3
  | float32x4
  | float16x2
  | float16x4
deriving DecidableEq, Repr

namespace VertexFormat

/-- The format of a vertex input's type, in its long or its short spelling. -/
def ofType? : String → Option VertexFormat
  | "f32" => some float32
  | "vec2<f32>" | "vec2f" => some float32x2
  | "vec3<f32>" | "vec3f" => some float32x3
  | "vec4<f32>" | "vec4f" => some float32x4
  | "vec2<f16>" | "vec2h" => some float16x2
  | "vec4<f16>" | "vec4h" => some float16x4
  | _ => none

def size : VertexFormat → Nat
  | float32 => 4
  | float32x2 => 8
  | float32x3 => 12
  | float32x4 => 16
  | float16x2 => 4
  | float16x4 => 8

/-- A component takes four bytes in a vector of floats, and two in one of half floats.  There is no
format for three half floats. -/
theorem size_vec : (∀ n ∈ [2, 3, 4], (ofType? s!"vec{n}<f32>").map size = some (4 * n) ∧
      ofType? s!"vec{n}f" = ofType? s!"vec{n}<f32>") ∧
    (∀ n ∈ [2, 4], (ofType? s!"vec{n}<f16>").map size = some (2 * n)) ∧
      ∀ n ∈ [2, 3, 4], ofType? s!"vec{n}h" = ofType? s!"vec{n}<f16>" := by
  decide

end VertexFormat

end Diorama.Shader

import Diorama.Json.Record

/-! The document that a shader file holds once its comments and annotations are gone. -/

namespace Diorama.Shader

structure StageSource where
  entry : String
  code : String
deriving DecidableEq, Repr

structure Document where
  name : String
  vertex : Option StageSource
  fragment : Option StageSource
  /-- Logical names of groups, with the indices under which they are declared. -/
  groupNames : List (String × UInt32)
  /-- The tags that some entry has to carry. -/
  requires : List String
deriving DecidableEq, Repr

open Json

def StageSource.ofJson? (json : Json) : Option StageSource := do
  let r ← Record.ofJson? ["entry", "code"] json
  return ⟨← r.required? "entry" string?, ← r.required? "code" string?⟩

def Document.ofJson? (json : Json) : Option Document := do
  let r ← Record.ofJson? ["name", "vertex", "fragment", "bind_groups", "requires"] json
  let name ← r.withDefault? "name" "shader" string?
  let vertex ← r.optional? "vertex" StageSource.ofJson?
  let fragment ← r.optional? "fragment" StageSource.ofJson?
  let groupNames ← r.withDefault? "bind_groups" [] (map? word32?)
  let requires ← r.withDefault? "requires" [] (list? string?)
  return ⟨name, vertex, fragment, groupNames, requires⟩

def Document.ofText? (text : List Char) : Option Document := do
  Document.ofJson? (← Json.ofBytes? (text.flatMap String.utf8EncodeChar))

end Diorama.Shader

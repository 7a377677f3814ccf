import Diorama.Shader.Binding

/-! Why a shader is refused, or its resources cannot be bound. -/

namespace Diorama

inductive Shader.Stage where
  | vertex
  | fragment
deriving DecidableEq, Repr

def Shader.Stage.text : Shader.Stage → String
  | vertex => "vertex"
  | fragment => "fragment"

open Shader in
/-- The causes of failure, each with what its message needs. -/
inductive ShaderError where
  /-- What is left without comments and annotations is no shader document. -/
  | json
  | missingStage (shader : String) (stage : Stage)
  | missingTags (shader : String) (tags : List String)
  | unsupportedBinding (name datatype : String)
  | unsupportedAttribute (semantic datatype : String)
  | conflictingBinding (group binding : UInt32) (first second : String)
  | tooManyGroups (shader : String) (index limit : UInt32)
  | unknownGroup (shader : String) (index : UInt32)
  | missingResource (group name : String)
  | resourceMismatch (group name : String) (expected found : BindingKind)
deriving DecidableEq, Repr

def ShaderError.message : ShaderError → String
  | json => "shader document is not valid JSON after preprocessing"
  | missingStage shader stage => s!"shader `{shader}` has no {stage.text} stage"
  | missingTags shader tags =>
    s!"shader `{shader}` is missing required tags: " ++ ", ".intercalate tags
  | unsupportedBinding name datatype => s!"binding `{name}` has unsupported type `{datatype}`"
  | unsupportedAttribute semantic datatype =>
    s!"attribute {semantic} has unsupported type `{datatype}`"
  | conflictingBinding group binding first second =>
    s!"group {group} binding {binding} is declared as both `{first}` and `{second}`"
  | tooManyGroups shader index limit =>
    s!"shader `{shader}` uses group {index} but the device allows {limit} bind groups"
  | unknownGroup shader index => s!"shader `{shader}` has no group {index}"
  | missingResource group name => s!"no resource named `{name}` for `{group}`"
  | resourceMismatch group name expected found =>
    s!"resource `{name}` for `{group}` is a {found.text}, expected a {expected.text}"

/-- The text for a word that is no tag. -/
def Shader.unknownTagMessage (text : String) : String := s!"unknown tag `{text}`"

end Diorama

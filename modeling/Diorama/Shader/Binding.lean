/-! What a shader's bindings hold, and the roles that tags give them. -/

namespace Diorama.Shader

inductive BindingKind where
  | uniform
  | texture
  | sampler
deriving DecidableEq, Repr

/-- The shape that a declaration's qualifier and type ask for.  A texture or sampler type decides
first; without either, the uniform address space or a four by four matrix makes a uniform
buffer. -/
def BindingKind.classify? (qualifier datatype : String) : Option BindingKind :=
  if "texture_2d".toList.isPrefixOf datatype.toList then some .texture
  else if datatype == "sampler" then some .sampler
  else if qualifier == "var<uniform>" || "mat4x4".toList.isPrefixOf datatype.toList then
    some .uniform
  else none

def BindingKind.text : BindingKind → String
  | uniform => "uniform buffer"
  | texture => "texture"
  | sampler => "sampler"

/-- The roles of resources that the library fills itself. -/
inductive Tag where
  | localToWorld
  | inverseTransposeLocalToWorld
  | inverseLocalToWorld
  | albedoTexture
  | albedoSampler
  | perspectiveProjection
  | view
  | inverseView
deriving DecidableEq, Repr

namespace Tag

/-- The tags that a mesh instance fills, in the order in which they are looked up. -/
def object : List Tag :=
  [localToWorld, inverseTransposeLocalToWorld, inverseLocalToWorld, albedoTexture, albedoSampler]

/-- The tags that a camera fills, in the order in which they are looked up. -/
def camera : List Tag := [perspectiveProjection, view, inverseView]

def text : Tag → String
  | localToWorld => "local_to_world_matrix"
  | inverseTransposeLocalToWorld => "inverse_transpose_local_to_world_matrix"
  | inverseLocalToWorld => "inverse_local_to_world_matrix"
  | albedoTexture => "albedo_texture"
  | albedoSampler => "albedo_sampler"
  | perspectiveProjection => "perspective_projection_matrix"
  | view => "view_matrix"
  | inverseView => "inverse_view_matrix"

def kind : Tag → BindingKind
  | albedoTexture => .texture
  | albedoSampler => .sampler
  | _ => .uniform

/-- The tag that is written `text`. -/
def ofText? (text : String) : Option Tag :=
  (object ++ camera).find? fun tag => tag.text == text

theorem mem_object_append_camera (tag : Tag) : tag ∈ object ++ camera := by
  cases tag <;> decide

end Tag

end Diorama.Shader

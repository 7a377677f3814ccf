/-! The scene document: what a glTF file says of nodes, meshes, buffers, textures and images.
References between its parts are indices into its lists. -/

namespace Diorama.Gltf

inductive ComponentType where
  | i8
  | u8
  | i16
  | u16
  | u32
  | f32
deriving DecidableEq, Repr

namespace ComponentType

/-- All of them, in the order of their codes. -/
def all : List ComponentType := [i8, u8, i16, u16, u32, f32]

def code : ComponentType → Nat
  | i8 => 5120
  | u8 => 5121
  | i16 => 5122
  | u16 => 5123
  | u32 => 5125
  | f32 => 5126

def name : ComponentType → String
  | i8 => "I8"
  | u8 => "U8"
  | i16 => "I16"
  | u16 => "U16"
  | u32 => "U32"
  | f32 => "F32"

def size : ComponentType → Nat
  | i8 | u8 => 1
  | i16 | u16 => 2
  | u32 | f32 => 4

end ComponentType

inductive ElementType where
  | scalar
  | vec2
  | vec3
  | vec4
  | mat2
  | mat3
  | mat4
deriving DecidableEq, Repr

namespace ElementType

def all : List ElementType := [scalar, vec2, vec3, vec4, mat2, mat3, mat4]

def name : ElementType → String
  | scalar => "Scalar"
  | vec2 => "Vec2"
  | vec3 => "Vec3"
  | vec4 => "Vec4"
  | mat2 => "Mat2"
  | mat3 => "Mat3"
  | mat4 => "Mat4"

def word : ElementType → String
  | scalar => "SCALAR"
  | vec2 => "VEC2"
  | vec3 => "VEC3"
  | vec4 => "VEC4"
  | mat2 => "MAT2"
  | mat3 => "MAT3"
  | mat4 => "MAT4"

/-- The components of an element. -/
def arity : ElementType → Nat
  | scalar => 1
  | vec2 => 2
  | vec3 => 3
  | vec4 | mat2 => 4
  | mat3 => 9
  | mat4 => 16

/-- A vector has as many components as its word says, and a matrix the square of that. -/
theorem arity_eq (element : ElementType) : element.word = "SCALAR" ∧ element.arity = 1 ∨
    ∃ n, element.word = s!"VEC{n}" ∧ element.arity = n ∨
      element.word = s!"MAT{n}" ∧ element.arity = n * n := by
  cases element with
  | scalar => exact .inl ⟨rfl, rfl⟩
  | vec2 | mat2 => exact .inr ⟨2, by decide⟩
  | vec3 | mat3 => exact .inr ⟨3, by decide⟩
  | vec4 | mat4 => exact .inr ⟨4, by decide⟩

theorem arity_pos (element : ElementType) : 0 < element.arity := by
  cases element <;> decide

end ElementType

/-- What an attribute of a vertex means.  All but the first three come in numbered sets. -/
inductive Semantic where
  | positions
  | normals
  | tangents
  | colors (set : UInt32)
  | texCoords (set : UInt32)
  | joints (set : UInt32)
  | weights (set : UInt32)
deriving DecidableEq, Repr

namespace Semantic

def name : Semantic → String
  | positions => "POSITION"
  | normals => "NORMAL"
  | tangents => "TANGENT"
  | colors set => s!"COLOR_{set}"
  | texCoords set => s!"TEXCOORD_{set}"
  | joints set => s!"JOINTS_{set}"
  | weights set => s!"WEIGHTS_{set}"

/-- Where a semantic stands in the order: by its meaning, then by its set. -/
def rank : Semantic → Nat × UInt32
  | positions => (0, 0)
  | normals => (1, 0)
  | tangents => (2, 0)
  | colors set => (3, set)
  | texCoords set => (4, set)
  | joints set => (5, set)
  | weights set => (6, set)

/-- The order in which the attributes of a primitive are gone through. -/
def le (a b : Semantic) : Bool :=
  a.rank.1 < b.rank.1 || (a.rank.1 == b.rank.1 && a.rank.2 ≤ b.rank.2)

end Semantic

/-- A scene: its top-level nodes. -/
structure Scene where
  nodes : List Nat
deriving DecidableEq, Repr

/-- A node, with its place relative to its parent given as a matrix or by parts. -/
structure Node where
  name : Option String
  translation : Option (List Float32)
  rotation : Option (List Float32)
  scale : Option (List Float32)
  matrix : Option (List Float32)
  mesh : Option Nat
  children : List Nat

/-- A drawable part of a mesh, with the accessors of its attributes in the order of semantics. -/
structure Primitive where
  attributes : List (Semantic × Nat)
  indices : Option Nat
  material : Option Nat
deriving DecidableEq, Repr

structure Mesh where
  name : Option String
  primitives : List Primitive
deriving DecidableEq, Repr

structure BufferView where
  buffer : Nat
  byteOffset : Option UInt64
  byteLength : UInt64
  byteStride : Option UInt64
deriving DecidableEq, Repr

/-- A list of elements in a view.  A component or element type is missing where the document gives
an unknown one. -/
structure Accessor where
  bufferView : Option Nat
  byteOffset : Option UInt64
  count : UInt64
  componentType : Option ComponentType
  elementType : Option ElementType
deriving DecidableEq, Repr

/-- A material, as far as its base colour goes. -/
structure Material where
  baseColorTexture : Option Nat
deriving DecidableEq, Repr

structure Image where
  name : Option String
  bufferView : Option Nat
  mimeType : Option String
deriving DecidableEq, Repr

structure Texture where
  source : Nat
  sampler : Option Nat
deriving DecidableEq, Repr

inductive WrappingMode where
  | clampToEdge
  | mirrorRepeat
  | repeating
deriving DecidableEq, Repr

def WrappingMode.name : WrappingMode → String
  | clampToEdge => "ClampToEdge"
  | mirrorRepeat => "MirrorRepeat"
  | repeating => "Repeat"

inductive FilterMode where
  | nearest
  | linear
deriving DecidableEq, Repr

/-- How a shrunk texture is read: the filter inside a level and, where levels are used, the filter
between them. -/
structure MinFilter where
  filter : FilterMode
  mipmap : Option FilterMode
deriving DecidableEq, Repr

/-- A sampler.  Unknown filters are missing. -/
structure Sampler where
  magFilter : Option FilterMode
  minFilter : Option MinFilter
  wrapS : WrappingMode
  wrapT : WrappingMode
deriving DecidableEq, Repr

structure Document where
  scene : Option Nat
  scenes : List Scene
  nodes : List Node
  meshes : List Mesh
  accessors : List Accessor
  bufferViews : List BufferView
  materials : List Material
  textures : List Texture
  images : List Image
  samplers : List Sampler

end Diorama.Gltf

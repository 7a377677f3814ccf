import Diorama.Gltf.Types
import Diorama.Json.Record
import Diorama.Text.Numeral

/-! Reading of scene documents from JSON.  Parts of a document that nothing here uses are checked
for their form only. -/

namespace Diorama.Gltf

open Json

/-- An object without known fields. -/
def anyRecord? (json : Json) : Option Unit := do
  let _ ← Record.ofJson? [] json

/-- An object whose only known field may hold nothing. -/
def extras? (json : Json) : Option Unit := do
  let r ← Record.ofJson? ["_allow_unknown_fields"] json
  r.withDefault? "_allow_unknown_fields" () null?

/-- Reads a record with the fields `names`.  Each record may also hold `extensions` and
`extras`. -/
def record? (names : List String) (json : Json) : Option Record := do
  let r ← Record.ofJson? names json
  let _ ← r.withDefault? "extensions" none (nullable? anyRecord?)
  let _ ← r.withDefault? "extras" () extras?
  return r

def code? : Json → Option Nat := low32?

def index? : Json → Option Nat := low32?

namespace Semantic

def ofName? (name : String) : Option Semantic :=
  if name = "POSITION" then some positions
  else if name = "NORMAL" then some normals
  else if name = "TANGENT" then some tangents
  else
    [("COLOR_", colors), ("TEXCOORD_", texCoords), ("JOINTS_", joints),
      ("WEIGHTS_", weights)].findSome? fun (start, make) =>
        if start.toList.isPrefixOf name.toList then
          make <$> Text.word32? (name.toList.drop start.length)
        else none

end Semantic

def ComponentType.ofCode? (code : Nat) : Option ComponentType :=
  ComponentType.all.find? fun t => t.code == code

def ElementType.ofWord? (word : String) : Option ElementType :=
  ElementType.all.find? fun t => t.word == word

def FilterMode.ofCode? : Nat → Option FilterMode
  | 9728 => some .nearest
  | 9729 => some .linear
  | _ => none

def MinFilter.ofCode? : Nat → Option MinFilter
  | 9728 => some ⟨.nearest, none⟩
  | 9729 => some ⟨.linear, none⟩
  | 9984 => some ⟨.nearest, some .nearest⟩
  | 9985 => some ⟨.linear, some .nearest⟩
  | 9986 => some ⟨.nearest, some .linear⟩
  | 9987 => some ⟨.linear, some .linear⟩
  | _ => none

/-- An unknown mode repeats the texture. -/
def WrappingMode.ofCode : Nat → WrappingMode
  | 33071 => .clampToEdge
  | 33648 => .mirrorRepeat
  | _ => .repeating

def Scene.ofJson? (json : Json) : Option Scene := do
  let r ← record? ["extensions", "extras", "name", "nodes"] json
  let _ ← r.optional? "name" string?
  return ⟨← r.required? "nodes" (list? index?)⟩

def Node.ofJson? (json : Json) : Option Node := do
  let r ← record? ["camera", "children", "extensions", "extras", "matrix", "mesh", "name",
    "rotation", "scale", "translation", "skin", "weights"] json
  let _ ← r.optional? "camera" index?
  let children ← r.optional? "children" (list? index?)
  let matrix ← r.optional? "matrix" (vector? 16 float32?)
  let mesh ← r.optional? "mesh" index?
  let name ← r.optional? "name" string?
  let rotation ← r.optional? "rotation" (vector? 4 float32?)
  let scale ← r.optional? "scale" (vector? 3 float32?)
  let translation ← r.optional? "translation" (vector? 3 float32?)
  let _ ← r.optional? "skin" index?
  let _ ← r.optional? "weights" (list? float32?)
  return ⟨name, translation, rotation, scale, matrix, mesh, children.getD []⟩

def checkMorphTarget (json : Json) : Option Unit := do
  let r ← Record.ofJson? ["POSITION", "NORMAL", "TANGENT"] json
  let _ ← r.optional? "POSITION" index?
  let _ ← r.optional? "NORMAL" index?
  let _ ← r.optional? "TANGENT" index?

/-- The attributes of a primitive.  Names that are no semantic are left out, and of two names for
one semantic the last counts. -/
def attributes? (json : Json) : Option (List (Semantic × Nat)) := do
  let named ← (← json.members?).mapM fun (name, value) => do return (name, ← index? value)
  let valid := named.filterMap fun (name, index) => (Semantic.ofName? name).map (·, index)
  return (lastValues valid).mergeSort fun a b => a.1.le b.1

def Primitive.ofJson? (json : Json) : Option Primitive := do
  let r ← record? ["attributes", "extensions", "extras", "indices", "material", "mode",
    "targets"] json
  let attributes ← r.required? "attributes" attributes?
  let indices ← r.optional? "indices" index?
  let material ← r.optional? "material" index?
  let _ ← r.withDefault? "mode" 4 code?
  let _ ← r.optional? "targets" (list? checkMorphTarget)
  return ⟨attributes, indices, material⟩

def Mesh.ofJson? (json : Json) : Option Mesh := do
  let r ← record? ["extensions", "extras", "name", "primitives", "weights"] json
  let name ← r.optional? "name" string?
  let primitives ← r.required? "primitives" (list? Primitive.ofJson?)
  let _ ← r.optional? "weights" (list? float32?)
  return ⟨name, primitives⟩

def checkBuffer (json : Json) : Option Unit := do
  let r ← record? ["byteLength", "name", "uri", "extensions", "extras"] json
  let _ ← r.withDefault? "byteLength" 0 word64?
  let _ ← r.optional? "name" string?
  let _ ← r.optional? "uri" string?

def BufferView.ofJson? (json : Json) : Option BufferView := do
  let r ← record? ["buffer", "byteLength", "byteOffset", "byteStride", "name", "target",
    "extensions", "extras"] json
  let buffer ← r.required? "buffer" index?
  let byteLength ← r.required? "byteLength" word64?
  let byteOffset ← r.optional? "byteOffset" word64?
  let byteStride ← r.optional? "byteStride" word64?
  let _ ← r.optional? "name" string?
  let _ ← r.optional? "target" code?
  return ⟨buffer, byteOffset, byteLength, byteStride⟩

def checkSparseIndices (json : Json) : Option Unit := do
  let r ← record? ["bufferView", "byteOffset", "componentType", "extensions", "extras"] json
  let _ ← r.required? "bufferView" index?
  let _ ← r.withDefault? "byteOffset" 0 word64?
  let _ ← r.required? "componentType" code?

def checkSparseValues (json : Json) : Option Unit := do
  let r ← record? ["bufferView", "byteOffset", "extensions", "extras"] json
  let _ ← r.required? "bufferView" index?
  let _ ← r.withDefault? "byteOffset" 0 word64?

def checkSparse (json : Json) : Option Unit := do
  let r ← record? ["count", "indices", "values", "extensions", "extras"] json
  let _ ← r.required? "count" word64?
  let _ ← r.required? "indices" checkSparseIndices
  let _ ← r.required? "values" checkSparseValues

/-- How deep the containers of a document lie at most, as far as their contents are looked at. -/
def maxDepth : Nat := 127

/-- The bounds of an accessor may hold anything, at the depth that is left inside the document, its
list of accessors and the accessor. -/
def bound? (json : Json) : Option Unit :=
  if json.isPlain (maxDepth - 3) then some () else none

def Accessor.ofJson? (json : Json) : Option Accessor := do
  let r ← record? ["bufferView", "byteOffset", "count", "componentType", "extensions", "extras",
    "type", "min", "max", "name", "normalized", "sparse"] json
  let bufferView ← r.optional? "bufferView" index?
  let byteOffset ← r.optional? "byteOffset" word64?
  let count ← r.required? "count" word64?
  let component ← r.required? "componentType" code?
  let element ← r.required? "type" string?
  let _ ← r.optional? "min" bound?
  let _ ← r.optional? "max" bound?
  let _ ← r.optional? "name" string?
  let _ ← r.withDefault? "normalized" false bool?
  let _ ← r.withDefault? "sparse" none (nullable? checkSparse)
  return ⟨bufferView, byteOffset, count, ComponentType.ofCode? component,
    ElementType.ofWord? element⟩

/-- A reference to a texture, with the factors that it has beside it. -/
def textureInfo? (factors : List String) (json : Json) : Option Nat := do
  let r ← record? (["index"] ++ factors ++ ["texCoord", "extensions", "extras"]) json
  let index ← r.required? "index" index?
  let _ ← r.withDefault? "texCoord" 0 word32?
  for factor in factors do
    let _ ← r.withDefault? factor 1 float32?
  return index

def baseColor? (json : Json) : Option (Option Nat) := do
  let r ← Record.relaxed <$> record? ["baseColorFactor", "baseColorTexture", "metallicFactor",
    "roughnessFactor", "metallicRoughnessTexture", "extensions", "extras"] json
  let _ ← r.withDefault? "baseColorFactor" [] (vector? 4 float32?)
  let base ← r.optional? "baseColorTexture" (textureInfo? [])
  let _ ← r.withDefault? "metallicFactor" 1 float32?
  let _ ← r.withDefault? "roughnessFactor" 1 float32?
  let _ ← r.optional? "metallicRoughnessTexture" (textureInfo? [])
  return base

def Material.ofJson? (json : Json) : Option Material := do
  let r ← Record.relaxed <$> record? ["alphaCutoff", "alphaMode", "doubleSided", "name",
    "pbrMetallicRoughness", "normalTexture", "occlusionTexture", "emissiveTexture",
    "emissiveFactor", "extensions", "extras"] json
  let _ ← r.optional? "alphaCutoff" float32?
  let _ ← r.withDefault? "alphaMode" "OPAQUE" string?
  let _ ← r.withDefault? "doubleSided" false bool?
  let _ ← r.optional? "name" string?
  let base ← r.withDefault? "pbrMetallicRoughness" none baseColor?
  let _ ← r.optional? "normalTexture" (textureInfo? ["scale"])
  let _ ← r.optional? "occlusionTexture" (textureInfo? ["strength"])
  let _ ← r.optional? "emissiveTexture" (textureInfo? [])
  let _ ← r.withDefault? "emissiveFactor" [] (vector? 3 float32?)
  return ⟨base⟩

def Image.ofJson? (json : Json) : Option Image := do
  let r ← record? ["bufferView", "mimeType", "name", "uri", "extensions", "extras"] json
  let bufferView ← r.optional? "bufferView" index?
  let mimeType ← r.optional? "mimeType" string?
  let name ← r.optional? "name" string?
  let _ ← r.optional? "uri" string?
  return ⟨name, bufferView, mimeType⟩

def Texture.ofJson? (json : Json) : Option Texture := do
  let r ← record? ["name", "sampler", "source", "extensions", "extras"] json
  let _ ← r.optional? "name" string?
  let sampler ← r.optional? "sampler" index?
  return ⟨← r.withDefault? "source" 4294967295 index?, sampler⟩

def Sampler.ofJson? (json : Json) : Option Sampler := do
  let r ← Record.relaxed <$> record? ["magFilter", "minFilter", "name", "wrapS", "wrapT",
    "extensions", "extras"] json
  let mag ← r.optional? "magFilter" code?
  let min ← r.optional? "minFilter" code?
  let _ ← r.optional? "name" string?
  let wrapS ← r.withDefault? "wrapS" 10497 code?
  let wrapT ← r.withDefault? "wrapT" 10497 code?
  return ⟨mag.bind FilterMode.ofCode?, min.bind MinFilter.ofCode?, WrappingMode.ofCode wrapS,
    WrappingMode.ofCode wrapT⟩

def checkAsset (json : Json) : Option Unit := do
  let r ← record? ["copyright", "extensions", "extras", "generator", "minVersion",
    "version"] json
  let _ ← r.optional? "copyright" string?
  let _ ← r.optional? "generator" string?
  let _ ← r.optional? "minVersion" string?
  let _ ← r.required? "version" string?

def checkPerspective (json : Json) : Option Unit := do
  let r ← record? ["aspectRatio", "yfov", "zfar", "znear", "extensions", "extras"] json
  let _ ← r.optional? "aspectRatio" float32?
  let _ ← r.required? "yfov" float32?
  let _ ← r.optional? "zfar" float32?
  let _ ← r.required? "znear" float32?

def checkOrthographic (json : Json) : Option Unit := do
  let r ← record? ["xmag", "ymag", "zfar", "znear", "extensions", "extras"] json
  let _ ← r.required? "xmag" float32?
  let _ ← r.required? "ymag" float32?
  let _ ← r.required? "zfar" float32?
  let _ ← r.required? "znear" float32?

def checkCamera (json : Json) : Option Unit := do
  let r ← record? ["name", "orthographic", "perspective", "type", "extensions", "extras"] json
  let _ ← r.optional? "name" string?
  let _ ← r.optional? "orthographic" checkOrthographic
  let _ ← r.optional? "perspective" checkPerspective
  let _ ← r.required? "type" string?

def checkTarget (json : Json) : Option Unit := do
  let r ← record? ["extensions", "extras", "node", "path"] json
  let _ ← r.required? "node" index?
  let _ ← r.required? "path" string?

def checkChannel (json : Json) : Option Unit := do
  let r ← record? ["sampler", "target", "extensions", "extras"] json
  let _ ← r.required? "sampler" index?
  let _ ← r.required? "target" checkTarget

def checkAnimationSampler (json : Json) : Option Unit := do
  let r ← record? ["extensions", "extras", "input", "interpolation", "output"] json
  let _ ← r.required? "input" index?
  let _ ← r.withDefault? "interpolation" "LINEAR" string?
  let _ ← r.required? "output" index?

def checkAnimation (json : Json) : Option Unit := do
  let r ← record? ["extensions", "extras", "channels", "name", "samplers"] json
  let _ ← r.required? "channels" (list? checkChannel)
  let _ ← r.optional? "name" string?
  let _ ← r.required? "samplers" (list? checkAnimationSampler)

def checkSkin (json : Json) : Option Unit := do
  let r ← record? ["extensions", "extras", "inverseBindMatrices", "joints", "name",
    "skeleton"] json
  let _ ← r.optional? "inverseBindMatrices" index?
  let _ ← r.required? "joints" (list? index?)
  let _ ← r.optional? "name" string?
  let _ ← r.optional? "skeleton" index?

def Document.ofJson? (json : Json) : Option Document := do
  let r ← record? ["accessors", "animations", "asset", "buffers", "bufferViews", "scene",
    "extensions", "extras", "extensionsUsed", "extensionsRequired", "cameras", "images",
    "materials", "meshes", "nodes", "samplers", "scenes", "skins", "textures"] json
  let accessors ← r.withDefault? "accessors" [] (list? Accessor.ofJson?)
  let _ ← r.withDefault? "animations" [] (list? checkAnimation)
  let _ ← r.required? "asset" checkAsset
  let _ ← r.withDefault? "buffers" [] (list? checkBuffer)
  let bufferViews ← r.withDefault? "bufferViews" [] (list? BufferView.ofJson?)
  let scene ← r.optional? "scene" index?
  let _ ← r.withDefault? "extensionsUsed" [] (list? string?)
  let _ ← r.withDefault? "extensionsRequired" [] (list? string?)
  let _ ← r.withDefault? "cameras" [] (list? checkCamera)
  let images ← r.withDefault? "images" [] (list? Image.ofJson?)
  let materials ← r.withDefault? "materials" [] (list? Material.ofJson?)
  let meshes ← r.withDefault? "meshes" [] (list? Mesh.ofJson?)
  let nodes ← r.withDefault? "nodes" [] (list? Node.ofJson?)
  let samplers ← r.withDefault? "samplers" [] (list? Sampler.ofJson?)
  let scenes ← r.withDefault? "scenes" [] (list? Scene.ofJson?)
  let _ ← r.withDefault? "skins" [] (list? checkSkin)
  let textures ← r.withDefault? "textures" [] (list? Texture.ofJson?)
  return ⟨scene, scenes, nodes, meshes, accessors, bufferViews, materials, textures, images,
    samplers⟩

def Document.ofBytes? (bytes : List UInt8) : Option Document := do
  Document.ofJson? (← Json.ofBytes? bytes)

end Diorama.Gltf

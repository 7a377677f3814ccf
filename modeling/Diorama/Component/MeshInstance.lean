import Diorama.Component.Binding
import Diorama.Frame.World
import Diorama.Scene.Resources

/-! Mesh instances: a mesh drawn with a shader, and the resources that the shader wants for it.
Resources are set by tag; baking binds the object group to them, and any later change of a resource
undoes that. -/

namespace Diorama

open Shader

structure MeshInstance where
  mesh : Uid
  shader : Compiled
  slots : List TagSlot
  objectGroup : UInt32
  resources : ResourceMap
  /-- The object group as it was last baked, unless a resource changed since. -/
  baked : Option BindGroup

namespace MeshInstance

def warnStray (shader : String) (objectGroup : UInt32) : List TagSlot → Logged Unit
  | [] => pure ()
  | slot :: rest => do
    Logged.warnIf (slot.group ≠ objectGroup)
      (.strayTag slot.tag.text shader slot.group objectGroup)
    warnStray shader objectGroup rest

/-- An instance without resources. -/
def new (mesh : Uid) (shader : Compiled) : Logged MeshInstance := do
  let slots ← tagSlots shader.source Tag.object
  let group := Shader.objectGroup shader.source slots
  warnStray shader.source.name group slots
  return ⟨mesh, shader, slots, group, {}, none⟩

def slot? (i : MeshInstance) (tag : Tag) : Option TagSlot := slotOf? i.slots tag

/-- Whether the shader declares a tag. -/
def accepts (i : MeshInstance) (tag : Tag) : Bool := (i.slot? tag).isSome

def isBaked (i : MeshInstance) : Bool := i.baked.isSome

/-- Sets the resource of a tag that the shader declares, which has to have the tag's shape, and
says whether the shader does. -/
def set (i : MeshInstance) (tag : Tag) (resource : Resource) :
    Except RenderError (Bool × MeshInstance) :=
  match i.slot? tag with
  | none => .ok (false, i)
  | some slot =>
    if resource.kind = tag.kind then
      .ok (true, { i with resources := i.resources.set slot.name resource, baked := none })
    else
      .error (.shader (.resourceMismatch (groupLabel i.shader.source.name slot.group) slot.name
        tag.kind resource.kind))

/-- Sets the resources of several tags, those that the shader does not declare left out, as far as
the first that cannot be had.  What was set before it stays set. -/
def setAll (i : MeshInstance) :
    List (Tag × Except RenderError Resource) → Except RenderError Unit × MeshInstance
  | [] => (.ok (), i)
  | (tag, resource) :: rest =>
    if i.accepts tag then
      match resource.bind (i.set tag) with
      | .error e => (.error e, i)
      | .ok (_, i) => setAll i rest
    else setAll i rest

def frameBuffer (frame : WorldFrame) (choose : Uniforms → Handle) :
    Except RenderError Resource :=
  match frame.buffers with
  | some u => .ok (.buffer (choose u))
  | none => .error (.resource (.notReady "transform frame buffers"))

/-- Sets the three matrices of an object to the buffers of its frame. -/
def setFrame (i : MeshInstance) (frame : WorldFrame) : Except RenderError Unit × MeshInstance :=
  i.setAll [(.localToWorld, frameBuffer frame (·.first)),
    (.inverseLocalToWorld, frameBuffer frame (·.second)),
    (.inverseTransposeLocalToWorld, frameBuffer frame (·.third))]

/-- Sets the base colour to a texture of the scene with its sampler. -/
def setAlbedo (i : MeshInstance) (scene : SceneResources) (texture : Nat) :
    Except RenderError Unit × MeshInstance :=
  i.setAll [(.albedoTexture,
      ((scene.textureView texture).map fun t => .texture t.handle).mapError .resource),
    (.albedoSampler, ((scene.sampler texture).map .sampler).mapError .resource)]

def bake (i : MeshInstance) : Except RenderError MeshInstance :=
  match bindGroup i.shader i.objectGroup i.resources with
  | .error e => .error (.shader e)
  | .ok group => .ok { i with baked := some group }

/-- The buffers of a mesh for the attributes of a shader, by the place of the attribute. -/
def vertexBindings (attributes : List AttributeSlot) (mesh : Mesh) : List (Nat × Handle) :=
  attributes.zipIdx.filterMap fun (input, slot) =>
    (mesh.vertexBuffer? input.semantic).map fun buffer => (slot, buffer)

/-- Draws the instance: it has to be baked, and its mesh has to be there with its indices
stored. -/
def draw (i : MeshInstance) (meshes : Registry Mesh) : Except RenderError Unit :=
  match i.baked with
  | none => .error (.notBaked i.mesh)
  | some _ =>
    match meshes.get? i.mesh with
    | none => .error (.resource (.unknownUid i.mesh))
    | some mesh =>
      match mesh.indexBuffer? with
      | none => .error (.resource (.notReady s!"index buffer of mesh {mesh.name}"))
      | some _ => .ok ()

end MeshInstance

end Diorama

import Diorama.Component.Binding
import Diorama.Frame.View
import Diorama.Linear.Projection

/-! Cameras: the parameters of a projection, and the view frame that the projection is baked
into. -/

namespace Diorama

inductive Projection where
  | perspective (fov : Float32)
  /-- From -1 to 1 vertically, and in proportion horizontally. -/
  | orthographic

/-- Whether two projections are equal, as their floats are. -/
def Projection.same : Projection → Projection → Bool
  | perspective a, perspective b => a == b
  | orthographic, orthographic => true
  | _, _ => false

structure Camera where
  projection : Projection
  /-- The width of the picture by its height. -/
  aspect : Float32
  near : Float32
  far : Float32
  /-- Whether the parameters have changed since they were last baked. -/
  stale : Bool
  frame : ViewFrame

namespace Camera

/-- A camera of the given parameters, still to be baked. -/
def new (projection : Projection) (aspect near far : Float32) : Camera :=
  ⟨projection, aspect, near, far, true, .default⟩

def default : Camera := new (.perspective 1.5707964) 1.77 0.1 1000

def setProjection (c : Camera) (projection : Projection) : Camera :=
  if projection.same c.projection then c else { c with projection, stale := true }

def setAspect (c : Camera) (aspect : Float32) : Camera :=
  if aspect == c.aspect then c else { c with aspect, stale := true }

def setClip (c : Camera) (near far : Float32) : Camera :=
  if near == c.near && far == c.far then c else { c with near, far, stale := true }

/-- Moves the camera, at once. -/
def setView (c : Camera) (view : Mat4) : Logged Camera := do
  return { c with frame := ← c.frame.setView view }

def projectionMatrix (c : Camera) : Mat4 :=
  match c.projection with
  | .perspective fov => Mat4.perspective fov c.aspect c.near c.far
  | .orthographic => Mat4.orthographic (-c.aspect) c.aspect (-1) 1 c.near c.far

def bake (c : Camera) : Camera :=
  if c.stale then
    { c with stale := false, frame := c.frame.setProjection c.projectionMatrix }
  else c

/-- Bakes the parameters, uploads the frame if it has changed, and says whether it did. -/
def bind (c : Camera) (gpu : Gpu) : Bool × Camera × Gpu :=
  let c := c.bake
  let (sent, frame, gpu) := c.frame.bind gpu
  (sent, { c with frame }, gpu)

open Shader

def tagged : List (Tag × (Uniforms → Handle)) :=
  [(.perspectiveProjection, (·.first)), (.view, (·.second)), (.inverseView, (·.third))]

/-- The buffers of the frame under the names of the variables that their tags stand at. -/
def resources (c : Camera) (slots : List TagSlot) :
    List (Tag × (Uniforms → Handle)) → ResourceMap → Except ResourceError ResourceMap
  | [], map => .ok map
  | (tag, choose) :: rest, map =>
    match slotOf? slots tag, c.frame.buffers with
    | none, _ => resources c slots rest map
    | some _, none => .error (.notReady "view buffers")
    | some slot, some u => resources c slots rest (map.set slot.name (.buffer (choose u)))

/-- Binds the camera group of a shader to the buffers of the frame. -/
def bindTo (c : Camera) (shader : Compiled) : Logged (Except RenderError BindGroup) :=
  let index := viewGroup shader.source
  match shader.source.group? index with
  | none => pure (.error (.shader (.unknownGroup shader.source.name index)))
  | some group => do
    let slots ← tagSlots shader.source Tag.camera
    match c.resources slots tagged {} with
    | .error e => return .error (.resource e)
    | .ok map => return (shader.bind Resource.kind map.get? group).mapError .shader

end Camera

end Diorama

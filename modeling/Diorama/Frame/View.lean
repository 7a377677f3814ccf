import Diorama.Warning
import Diorama.Frame.Uniforms

/-! View frames: a camera's projection, its matrix in the world and the inverse of that, and the
buffers that hold them. -/

namespace Diorama

/-- A camera's matrices.  `inverseView` belongs to the last view that had an inverse. -/
structure ViewFrame where
  projection : Mat4
  view : Mat4
  inverseView : Mat4
  buffers : Option Uniforms
  /-- Whether the buffers are out of date. -/
  dirty : Bool

namespace ViewFrame

/-- A frame without buffers. -/
def new (projection view : Mat4) : ViewFrame :=
  ⟨projection, view, view.inverse?.getD Mat4.identity, none, true⟩

def default : ViewFrame := new Mat4.identity Mat4.identity

/-- Changes the projection, unless the new one is about the same. -/
def setProjection (f : ViewFrame) (projection : Mat4) : ViewFrame :=
  if projection.differs f.projection then { f with projection, dirty := true } else f

/-- The inverse of a view, or `previous` with a warning where it has none. -/
def derive (view previous : Mat4) : Logged Mat4 :=
  match view.inverse? with
  | some inverse => pure inverse
  | none => do
    Logged.warn .singularView
    return previous

/-- Moves the camera, unless the new view is about the same. -/
def setView (f : ViewFrame) (view : Mat4) : Logged ViewFrame :=
  if view.differs f.view then do
    return { f with view, inverseView := ← derive view f.inverseView, dirty := true }
  else pure f

def labels : Triple String := ⟨"prj_bf", "view_bf", "iview_bf"⟩

def matrices (f : ViewFrame) : Triple Mat4 := ⟨f.projection, f.view, f.inverseView⟩

/-- Uploads the frame if it has changed, and says whether it did. -/
def bind (f : ViewFrame) (gpu : Gpu) : Bool × ViewFrame × Gpu :=
  if f.dirty then
    let (buffers, gpu) := Uniforms.upload f.buffers gpu labels f.matrices
    (true, { f with buffers := some buffers, dirty := false }, gpu)
  else (false, f, gpu)

end ViewFrame

end Diorama

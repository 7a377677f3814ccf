import Diorama.Component.Binding
import Diorama.Pipeline

/-! The surface that frames are shown on. -/

namespace Diorama

/-- The targets that a frame is drawn to, and the surface texture that it is shown in. -/
structure Swapchain where
  width : UInt32
  height : UInt32
  format : TextureFormat
  /-- The surface texture of the frame that is being drawn. -/
  frame : Option Handle := none
deriving DecidableEq, Repr

namespace Swapchain

def resize (s : Swapchain) (width height : UInt32) : Swapchain := { s with width, height }

def flush (s : Swapchain) : Except RenderError (Handle × Swapchain) :=
  match s.frame with
  | none => .error .noFrame
  | some frame => .ok (frame, { s with frame := none })

end Swapchain

end Diorama

import Diorama.Warning
import Diorama.Frame.Uniforms

/-! World frames: an object's matrix in the world with its inverse, and the buffers that hold them.
A change that is too small to matter is ignored, and only a frame that has changed is uploaded. -/

namespace Diorama

/-- An object's matrix in the world.  `inverse` and `inverseTranspose` belong to the last matrix that
had an inverse. -/
structure WorldFrame where
  world : Mat4
  inverse : Mat4
  inverseTranspose : Mat4
  buffers : Option Uniforms
  /-- Whether the buffers are out of date. -/
  dirty : Bool

namespace WorldFrame

/-- The inverse of a matrix with its transpose, or the `previous` two with a warning where it has
none. -/
def derive (world : Mat4) (previous : Mat4 × Mat4) : Logged (Mat4 × Mat4) :=
  match world.inverse? with
  | some inverse => pure (inverse, inverse.transpose)
  | none => do
    Logged.warn .singularWorld
    return previous

/-- A frame without buffers. -/
def new (world : Mat4) : Logged WorldFrame := do
  let inverses ← derive world (Mat4.identity, Mat4.identity)
  return ⟨world, inverses.1, inverses.2, none, true⟩

def default : WorldFrame := (new Mat4.identity).value

/-- Moves the object, unless the new matrix is about the same. -/
def set (f : WorldFrame) (world : Mat4) : Logged WorldFrame :=
  if world.differs f.world then do
    let inverses ← derive world (f.inverse, f.inverseTranspose)
    return { f with world, inverse := inverses.1, inverseTranspose := inverses.2, dirty := true }
  else pure f

def labels : Triple String := ⟨"l2w_bf", "l2w_iv_bf", "l2w_ivt_bf"⟩

def matrices (f : WorldFrame) : Triple Mat4 := ⟨f.world, f.inverse, f.inverseTranspose⟩

/-- Uploads the frame if it has changed, and says whether it did. -/
def bind (f : WorldFrame) (gpu : Gpu) : Bool × WorldFrame × Gpu :=
  if f.dirty then
    let (buffers, gpu) := Uniforms.upload f.buffers gpu labels f.matrices
    (true, { f with buffers := some buffers, dirty := false }, gpu)
  else (false, f, gpu)

end WorldFrame

end Diorama

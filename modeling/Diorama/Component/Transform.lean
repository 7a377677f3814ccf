import Diorama.Frame.World

/-! Where an entity is: its shift, twist and scale, or a matrix in their place, and the world frame
that they are baked into. -/

namespace Diorama

structure Transform where
  shift : Vec3
  twist : Quaternion
  scale : Vec3
  /-- Whether the parts have changed since they were last baked. -/
  stale : Bool
  frame : WorldFrame

namespace Transform

/-- No shift, no twist, and the natural size. -/
def default : Transform := ⟨⟨0, 0, 0⟩, ⟨0, 0, 0, 1⟩, ⟨1, 1, 1⟩, false, .default⟩

/-- A transform of the given parts, still to be baked. -/
def ofParts (shift : Vec3) (twist : Quaternion) (scale : Vec3) : Transform :=
  ⟨shift, twist, scale, true, .default⟩

/-- A transform whose frame holds `matrix`. -/
def ofMatrix (matrix : Mat4) : Logged Transform := do
  return { default with frame := ← WorldFrame.new matrix }

def setShift (t : Transform) (shift : Vec3) : Transform := { t with shift, stale := true }

def setTwist (t : Transform) (twist : Quaternion) : Transform := { t with twist, stale := true }

def setScale (t : Transform) (scale : Vec3) : Transform := { t with scale, stale := true }

/-- Puts a matrix in the place of the parts, at once. -/
def setMatrix (t : Transform) (matrix : Mat4) : Logged Transform := do
  return { t with stale := false, frame := ← t.frame.set matrix }

def localMatrix (t : Transform) : Mat4 :=
  Mat4.translation t.shift * Mat4.rotation t.twist * Mat4.scaling t.scale

def bake (t : Transform) : Logged Transform :=
  if t.stale then do
    return { t with stale := false, frame := ← t.frame.set t.localMatrix }
  else pure t

/-- Bakes the parts, uploads the frame if it has changed, and says whether it did. -/
def bind (t : Transform) (gpu : Gpu) : Logged (Bool × Transform × Gpu) := do
  let t ← t.bake
  let (sent, frame, gpu) := t.frame.bind gpu
  return (sent, { t with frame }, gpu)

end Transform

end Diorama

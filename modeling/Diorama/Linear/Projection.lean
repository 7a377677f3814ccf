import Diorama.Linear.Matrix

/-! Projections of a right-handed space with depths from 0 to 1. -/

namespace Diorama.Mat4

/-- The tangent of an angle, rounded once. -/
def tangent (angle : Float32) : Float32 := angle.toFloat.tan.toFloat32

/-- The perspective projection with a vertical field of view. -/
def perspective (fov aspect near far : Float32) : Mat4 :=
  let f := 1 / tangent (fov / 2)
  let nf := 1 / (near - far)
  ⟨⟨f / aspect, 0, 0, 0⟩, ⟨0, f, 0, 0⟩, ⟨0, 0, far * nf, -1⟩, ⟨0, 0, near * far * nf, 0⟩⟩

def orthographic (left right bottom top near far : Float32) : Mat4 :=
  let width := right - left
  let height := top - bottom
  let depth := far - near
  ⟨⟨2 / width, 0, 0, 0⟩, ⟨0, 2 / height, 0, 0⟩, ⟨0, 0, -1 / depth, 0⟩,
    ⟨-(right + left) / width, -(top + bottom) / height, -near / depth, 1⟩⟩

end Diorama.Mat4

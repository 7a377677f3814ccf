import Diorama.Gpu

/-! Three uniform buffers for three matrices: made by the first upload, written by each later
one. -/

namespace Diorama

structure Uniforms where
  first : Handle
  second : Handle
  third : Handle
deriving DecidableEq, Repr

/-- Three things, one for each buffer. -/
structure Triple (α : Type) where
  first : α
  second : α
  third : α

namespace Uniforms

def toList (u : Uniforms) : List Handle := [u.first, u.second, u.third]

def create (gpu : Gpu) (labels : Triple String) (matrices : Triple Mat4) : Uniforms × Gpu :=
  let (first, gpu) := gpu.createBuffer labels.first .uniform (.matrix matrices.first)
  let (second, gpu) := gpu.createBuffer labels.second .uniform (.matrix matrices.second)
  let (third, gpu) := gpu.createBuffer labels.third .uniform (.matrix matrices.third)
  (⟨first, second, third⟩, gpu)

def write (u : Uniforms) (gpu : Gpu) (matrices : Triple Mat4) : Gpu :=
  ((gpu.writeBuffer u.first (.matrix matrices.first)).writeBuffer u.second
    (.matrix matrices.second)).writeBuffer u.third (.matrix matrices.third)

/-- Makes the buffers if there are none yet, and writes them otherwise. -/
def upload (buffers : Option Uniforms) (gpu : Gpu) (labels : Triple String)
    (matrices : Triple Mat4) : Uniforms × Gpu :=
  match buffers with
  | none => create gpu labels matrices
  | some u => (u, u.write gpu matrices)

end Uniforms

end Diorama

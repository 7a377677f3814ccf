import Diorama.Component.Camera
import Diorama.Component.MeshInstance
import Diorama.Component.Transform

/-! Entities: an identifier with at most one component of each kind. -/

namespace Diorama

inductive Component where
  | transform (t : Transform)
  | meshInstance (i : MeshInstance)
  | view (c : Camera)

def Component.kind : Component → ComponentKind
  | transform _ => .transform
  | meshInstance _ => .meshInstance
  | view _ => .view

structure Entity where
  uid : Uid
  transform : Option Transform := none
  meshInstance : Option MeshInstance := none
  view : Option Camera := none

namespace Entity

def component? (e : Entity) : ComponentKind → Option Component
  | .transform => e.transform.map .transform
  | .meshInstance => e.meshInstance.map .meshInstance
  | .view => e.view.map .view

def has (e : Entity) (kind : ComponentKind) : Bool := (e.component? kind).isSome

def put (e : Entity) : Component → Entity
  | .transform t => { e with transform := some t }
  | .meshInstance i => { e with meshInstance := some i }
  | .view c => { e with view := some c }

/-- Puts a component in the place of its kind, and returns the one that was there. -/
def insert (e : Entity) (c : Component) : Option Component × Entity :=
  (e.component? c.kind, e.put c)

def clear (e : Entity) : ComponentKind → Entity
  | .transform => { e with transform := none }
  | .meshInstance => { e with meshInstance := none }
  | .view => { e with view := none }

def remove (e : Entity) (kind : ComponentKind) : Option Component × Entity :=
  (e.component? kind, e.clear kind)

def update (e : Entity) (gpu : Gpu) : Logged (Entity × Gpu) := do
  let (transform, gpu) ← match e.transform with
    | none => pure (none, gpu)
    | some t => do
      let (_, t, gpu) ← t.bind gpu
      pure (some t, gpu)
  let (view, gpu) := match e.view with
    | none => (none, gpu)
    | some c =>
      let (_, c, gpu) := c.bind gpu
      (some c, gpu)
  return ({ e with transform, view }, gpu)

end Entity

end Diorama

import Diorama.Entity.Basic

/-! All entities, by identifier. -/

namespace Diorama

structure EntityRegistry where
  entities : Registry Entity := .empty

namespace EntityRegistry

/-- Adds an entity without components. -/
def spawn (r : EntityRegistry) : Uid × EntityRegistry :=
  let (uid, entities) := r.entities.insertWith fun uid => { uid }
  (uid, ⟨entities⟩)

def despawn (r : EntityRegistry) (uid : Uid) : Logged (Option Entity × EntityRegistry) := do
  let (entity, entities) ← r.entities.remove uid
  return (entity, ⟨entities⟩)

def get? (r : EntityRegistry) (uid : Uid) : Option Entity := r.entities.get? uid

/-- Puts an entity in the place of the one under its identifier. -/
def put (r : EntityRegistry) (uid : Uid) (e : Entity) : EntityRegistry :=
  ⟨r.entities.modify uid fun _ => e⟩

/-- Adds a component to an entity, and returns the one of its kind that was there. -/
def insert? (r : EntityRegistry) (uid : Uid) (c : Component) :
    Option (Option Component × EntityRegistry) :=
  (r.get? uid).map fun e =>
    let (old, e) := e.insert c
    (old, r.put uid e)

def remove? (r : EntityRegistry) (uid : Uid) (kind : ComponentKind) :
    Option (Option Component × EntityRegistry) :=
  (r.get? uid).map fun e =>
    let (old, e) := e.remove kind
    (old, r.put uid e)

/-- The entities that have a component of a kind, in the order of identifiers. -/
def withKind (r : EntityRegistry) (kind : ComponentKind) : List Entity :=
  r.entities.objects.filter (·.has kind)

/-- Gives an entity an instance of a mesh that is drawn with a shader at the entity's transform.
An entity without a transform gets one. -/
def attach (r : EntityRegistry) (gpu : Gpu) (uid mesh : Uid) (shader : Shader.Compiled) :
    Logged (Except RenderError MeshInstance × EntityRegistry × Gpu) :=
  match r.get? uid with
  | none => pure (.error (.resource (.unknownUid uid)), r, gpu)
  | some e => do
    let (_, transform, gpu) ← (e.transform.getD .default).bind gpu
    let instance_ ← MeshInstance.new mesh shader
    let e := { e with transform := some transform }
    match instance_.setFrame transform.frame with
    | (.error cause, _) => return (.error cause, r.put uid e, gpu)
    | (.ok (), i) => return (.ok i, r.put uid { e with meshInstance := some i }, gpu)

def instanceOf (r : EntityRegistry) (uid : Uid) : Except RenderError MeshInstance :=
  match r.get? uid with
  | none => .error (.resource (.unknownUid uid))
  | some e =>
    match e.meshInstance with
    | none => .error (.missingComponent uid .meshInstance)
    | some i => .ok i

def modifyInstance {α : Type} (r : EntityRegistry) (uid : Uid)
    (f : MeshInstance → Except RenderError α × MeshInstance) :
    Except RenderError α × EntityRegistry :=
  match r.instanceOf uid with
  | .error e => (.error e, r)
  | .ok i =>
    let (result, i) := f i
    (result, ⟨r.entities.modify uid fun e => { e with meshInstance := some i }⟩)

/-- Bakes and uploads the transforms and cameras of all entities, in the order of identifiers. -/
def update (r : EntityRegistry) (gpu : Gpu) : Logged (EntityRegistry × Gpu) := do
  let step (_ : Uid) (e : Entity) : StateT Gpu Logged Entity := fun gpu => e.update gpu
  let (entities, gpu) ← (r.entities.mapM step).run gpu
  return (⟨entities⟩, gpu)

/-- Draws the entities that have a mesh instance, as far as the first that cannot be drawn, and
counts them. -/
def draw (r : EntityRegistry) (meshes : Registry Mesh) : Except RenderError Nat := do
  let drawn ← (r.entities.objects.filterMap (·.meshInstance)).mapM (·.draw meshes)
  return drawn.length

end EntityRegistry

end Diorama

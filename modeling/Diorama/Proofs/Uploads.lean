import Diorama.Entity.Basic
import Diorama.Proofs.Ownership
import Diorama.Proofs.SharedNames

/-! What is done with the components of an entity, as far as their frames go: any use of a transform
or a camera is a use of its frame, and an update binds both. -/

namespace Diorama

namespace Transform

/-- How a transform is made. -/
inductive Origin where
  | default
  | ofParts (shift : Vec3) (twist : Quaternion) (scale : Vec3)
  | ofMatrix (matrix : Mat4)

def ofOrigin : Origin → Transform
  | .default => .default
  | .ofParts shift twist scale => ofParts shift twist scale
  | .ofMatrix matrix => (ofMatrix matrix).value

/-- What the owner of a transform does with it. -/
inductive Use where
  | setShift (shift : Vec3)
  | setTwist (twist : Quaternion)
  | setScale (scale : Vec3)
  | setMatrix (matrix : Mat4)
  | bake
  | bind

def use (s : Transform × Gpu) : Use → Transform × Gpu
  | .setShift shift => (s.1.setShift shift, s.2)
  | .setTwist twist => (s.1.setTwist twist, s.2)
  | .setScale scale => (s.1.setScale scale, s.2)
  | .setMatrix matrix => ((s.1.setMatrix matrix).value, s.2)
  | .bake => (s.1.bake.value, s.2)
  | .bind => (s.1.bind s.2).value.2

/-- Neither the parts nor the frame have changed since they were last bound. -/
def Settled (t : Transform) : Prop := t.stale = false ∧ t.frame.dirty = false

variable {t : Transform} {gpu : Gpu}

theorem isNew_ofOrigin (origin : Origin) : (ofOrigin origin).frame.mirror.IsNew := by
  cases origin <;> exact ⟨rfl, rfl⟩

theorem sets_bake (t : Transform) : t.frame.mirror.Sets t.bake.value.frame.mirror := by
  unfold bake
  split
  · exact WorldFrame.sets_set t.frame t.localMatrix
  · exact ⟨rfl, .inl rfl⟩

theorem leads_use (s : Transform × Gpu) (next : Use) :
    Mirror.Leads WorldFrame.labels (s.1.frame.mirror, s.2)
      ((use s next).1.frame.mirror, (use s next).2) := by
  cases next with
  | setShift _ => exact .refl _
  | setTwist _ => exact .refl _
  | setScale _ => exact .refl _
  | setMatrix matrix => exact .set (.refl _) (WorldFrame.sets_set s.1.frame matrix)
  | bake => exact .set (.refl _) (sets_bake s.1)
  | bind =>
    exact .bind (.set (.refl _) (sets_bake s.1)) (WorldFrame.binds_bind s.1.bake.value.frame s.2)

theorem exists_buffers_bind (t : Transform) (h : t.frame.mirror.Current gpu) :
    ∃ u, (t.bind gpu).value.2.1.frame.buffers = some u :=
  (WorldFrame.binds_bind t.bake.value.frame gpu).exists_buffers (h.set (sets_bake t))

theorem settled_bind (t : Transform) (gpu : Gpu) : (t.bind gpu).value.2.1.Settled := by
  have hstale : t.bake.value.stale = false := by
    unfold bake
    split
    · rfl
    next h => simpa using h
  exact ⟨hstale, (WorldFrame.binds_bind t.bake.value.frame gpu).dirty_eq⟩

theorem bind_of_settled (h : t.Settled) : (t.bind gpu).value = (false, t, gpu) := by
  have hbake : t.bake.value = t := by simp [bake, h.1]
  simp [bind, hbake, WorldFrame.bind, h.2]

end Transform

namespace Camera

/-- What the owner of a camera does with it. -/
inductive Use where
  | setProjection (projection : Projection)
  | setAspect (aspect : Float32)
  | setClip (near far : Float32)
  | setView (view : Mat4)
  | bake
  | bind

def use (s : Camera × Gpu) : Use → Camera × Gpu
  | .setProjection projection => (s.1.setProjection projection, s.2)
  | .setAspect aspect => (s.1.setAspect aspect, s.2)
  | .setClip near far => (s.1.setClip near far, s.2)
  | .setView view => ((s.1.setView view).value, s.2)
  | .bake => (s.1.bake, s.2)
  | .bind => (s.1.bind s.2).2

def Settled (c : Camera) : Prop := c.stale = false ∧ c.frame.dirty = false

variable {c : Camera} {gpu : Gpu}

theorem isNew_new (projection : Projection) (aspect near far : Float32) :
    (new projection aspect near far).frame.mirror.IsNew := ⟨rfl, rfl⟩

theorem sets_bake (c : Camera) : c.frame.mirror.Sets c.bake.frame.mirror := by
  unfold bake
  split
  · exact ViewFrame.sets_setProjection c.frame c.projectionMatrix
  · exact ⟨rfl, .inl rfl⟩

theorem frame_setProjection (c : Camera) (projection : Projection) :
    (c.setProjection projection).frame = c.frame := by
  unfold setProjection
  split <;> rfl

theorem frame_setAspect (c : Camera) (aspect : Float32) :
    (c.setAspect aspect).frame = c.frame := by
  unfold setAspect
  split <;> rfl

theorem frame_setClip (c : Camera) (near far : Float32) :
    (c.setClip near far).frame = c.frame := by
  unfold setClip
  split <;> rfl

theorem leads_use (s : Camera × Gpu) (next : Use) :
    Mirror.Leads ViewFrame.labels (s.1.frame.mirror, s.2)
      ((use s next).1.frame.mirror, (use s next).2) := by
  cases next with
  | setProjection projection =>
    rw [use, frame_setProjection]
    exact .refl _
  | setAspect aspect =>
    rw [use, frame_setAspect]
    exact .refl _
  | setClip near far =>
    rw [use, frame_setClip]
    exact .refl _
  | setView view => exact .set (.refl _) (ViewFrame.sets_setView s.1.frame view)
  | bake => exact .set (.refl _) (sets_bake s.1)
  | bind =>
    exact .bind (.set (.refl _) (sets_bake s.1)) (ViewFrame.binds_bind s.1.bake.frame s.2)

theorem settled_bind (c : Camera) (gpu : Gpu) : (c.bind gpu).2.1.Settled := by
  have hstale : c.bake.stale = false := by
    unfold bake
    split
    · rfl
    next h => simpa using h
  exact ⟨hstale, (ViewFrame.binds_bind c.bake.frame gpu).dirty_eq⟩

theorem bind_of_settled (h : c.Settled) : c.bind gpu = (false, c, gpu) := by
  have hbake : c.bake = c := by simp [bake, h.1]
  simp [bind, hbake, ViewFrame.bind, h.2]

end Camera

namespace MeshInstance

open Shader

/-- The matrices of an object, as settings of the buffers that hold them. -/
def matrixBuffers (u : Uniforms) : List (Tag × Resource) :=
  [(.localToWorld, .buffer u.first), (.inverseLocalToWorld, .buffer u.second),
    (.inverseTransposeLocalToWorld, .buffer u.third)]

/-- Resources of the right kinds can be set one after the other. -/
theorem setAll_eq (i : MeshInstance) {sets : List (Tag × Resource)}
    (hkind : ∀ next ∈ sets, next.2.kind = next.1.kind) :
    ∃ after, i.setAll (sets.map fun next => (next.1, .ok next.2)) = (.ok (), after) ∧
      i.setEach sets = .ok after := by
  induction sets generalizing i with
  | nil => exact ⟨i, rfl, rfl⟩
  | cons next rest ih =>
    obtain ⟨hnext, hrest⟩ := List.forall_mem_cons.1 hkind
    cases hslot : i.slot? next.1 with
    | none =>
      obtain ⟨after, hall, heach⟩ := ih i hrest
      refine ⟨after, ?_, ?_⟩
      · rw [List.map_cons, setAll_cons_of_not_accepts _ hslot, hall]
      · rw [setEach, List.foldlM_cons, set_eq_ok_iff.2 (.inl ⟨hslot, rfl, rfl⟩)]
        exact heach
    | some slot =>
      have hset := set_eq_ok_iff.2 (.inr ⟨slot, hslot, hnext, rfl, rfl⟩)
      obtain ⟨after, hall, heach⟩ := ih _ hrest
      refine ⟨after, ?_, ?_⟩
      · rw [List.map_cons, setAll_cons_ok _ hslot hnext, hall]
      · rw [setEach, List.foldlM_cons, hset]
        exact heach

theorem setFrame_eq (i : MeshInstance) {frame : WorldFrame} {u : Uniforms}
    (hu : frame.buffers = some u) :
    ∃ after, i.setFrame frame = (.ok (), after) ∧ i.setEach (matrixBuffers u) = .ok after := by
  have hkind : ∀ next ∈ matrixBuffers u, next.2.kind = next.1.kind := by
    simp [matrixBuffers, Resource.kind, Tag.kind]
  obtain ⟨after, hall, heach⟩ := i.setAll_eq hkind
  refine ⟨after, ?_, heach⟩
  rw [← hall]
  simp [setFrame, frameBuffer, hu, matrixBuffers]

end MeshInstance

/-! ### Entities -/

inductive FrameKind where
  | world
  | view
deriving DecidableEq

namespace Entity

def mirror? (e : Entity) : FrameKind → Option Mirror
  | .world => e.transform.map (·.frame.mirror)
  | .view => e.view.map (·.frame.mirror)

/-- Uses the transform of an entity that has one. -/
def useTransform (next : Transform.Use) (e : Entity) (gpu : Gpu) : Entity × Gpu :=
  match e.transform with
  | none => (e, gpu)
  | some t =>
    let (t, gpu) := Transform.use (t, gpu) next
    ({ e with transform := some t }, gpu)

/-- Uses the camera of an entity that has one. -/
def useView (next : Camera.Use) (e : Entity) (gpu : Gpu) : Entity × Gpu :=
  match e.view with
  | none => (e, gpu)
  | some c =>
    let (c, gpu) := Camera.use (c, gpu) next
    ({ e with view := some c }, gpu)

theorem value_update (e : Entity) (gpu : Gpu) : (e.update gpu).value =
    (e.useTransform .bind gpu).1.useView .bind (e.useTransform .bind gpu).2 := by
  obtain ⟨uid, transform, meshInstance, view⟩ := e
  cases transform <;> cases view <;> rfl

/-- Neither the transform nor the camera has changed since it was last bound. -/
def Settled (e : Entity) : Prop :=
  (∀ t, e.transform = some t → t.Settled) ∧ ∀ c, e.view = some c → c.Settled

/-- The transform and the camera have not changed since they were last bound, and their buffers hold
their matrices. -/
structure Uploaded (e : Entity) (gpu : Gpu) : Prop where
  transform : ∀ t, e.transform = some t → t.Settled ∧
    ∃ u, t.frame.buffers = some u ∧ u.Hold gpu t.frame.matrices
  view : ∀ c, e.view = some c → c.Settled ∧
    ∃ u, c.frame.buffers = some u ∧ u.Hold gpu c.frame.matrices

theorem settled_update (e : Entity) (gpu : Gpu) : (e.update gpu).value.1.Settled := by
  obtain ⟨uid, transform, meshInstance, view⟩ := e
  constructor
  · intro t ht
    cases transform with
    | none => cases view <;> cases ht
    | some t₀ => cases view <;> (cases ht; exact t₀.settled_bind gpu)
  · intro c hc
    cases view with
    | none => cases transform <;> cases hc
    | some c₀ => cases transform <;> (cases hc; exact c₀.settled_bind _)

theorem update_of_settled {e : Entity} (h : e.Settled) (gpu : Gpu) :
    (e.update gpu).value = (e, gpu) := by
  obtain ⟨uid, transform, meshInstance, view⟩ := e
  have ht : ∀ t, transform = some t → (t.bind gpu).value = (false, t, gpu) :=
    fun t ht => Transform.bind_of_settled (h.1 t ht)
  have hc : ∀ c, view = some c → c.bind gpu = (false, c, gpu) :=
    fun c hc => Camera.bind_of_settled (h.2 c hc)
  cases transform <;> cases view <;> simp [update, ht, hc]

end Entity

end Diorama

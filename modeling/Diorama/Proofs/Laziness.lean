import Diorama.Proofs.Drift
import Diorama.Proofs.Uploads

/-! Parts and parameters that are baked late.  A transform and a camera work out a matrix only when
they are baked or bound, but what they have then is what they would have if they had worked it out with
each change.  What carries the proof is that nothing but a bake takes back the mark of a change, except
where the change is overridden. -/

namespace Diorama

/-- The matrix that is kept is the given one, or the given one does not differ from it. -/
def Mat4.Matches (kept given : Mat4) : Prop := kept = given ∨ given.differs kept = false

theorem WorldFrame.matches_set (f : WorldFrame) (matrix : Mat4) :
    (f.set matrix).value.world.Matches matrix := by
  cases h : matrix.differs f.world with
  | true => exact .inl (by rw [set_of_differs h])
  | false => exact .inr (by rw [set_of_not_differs h, h])

theorem ViewFrame.matches_setProjection (f : ViewFrame) (matrix : Mat4) :
    (f.setProjection matrix).projection.Matches matrix := by
  cases h : matrix.differs f.projection with
  | true => exact .inl (by rw [setProjection_of_differs h])
  | false => exact .inr (by rw [setProjection_of_not_differs h, h])

theorem ViewFrame.matches_setView (f : ViewFrame) (matrix : Mat4) :
    (f.setView matrix).value.view.Matches matrix := by
  cases h : matrix.differs f.view with
  | true => exact .inl (by rw [setView_of_differs h])
  | false => exact .inr (by rw [setView_of_not_differs h, h])

/-! ### Transforms -/

/-- Where an entity is to be, worked out with each change: the parts, and the matrix, which is theirs or
was given in their place. -/
structure Pose where
  shift : Vec3
  twist : Quaternion
  scale : Vec3
  matrix : Mat4

namespace Pose

def ofParts (shift : Vec3) (twist : Quaternion) (scale : Vec3) : Pose :=
  ⟨shift, twist, scale, Mat4.translation shift * Mat4.rotation twist * Mat4.scaling scale⟩

/-- No shift, no twist, the natural size, and a matrix in their place. -/
def ofMatrix (matrix : Mat4) : Pose := ⟨⟨0, 0, 0⟩, ⟨0, 0, 0, 1⟩, ⟨1, 1, 1⟩, matrix⟩

def ofOrigin : Transform.Origin → Pose
  | .default => ofMatrix Mat4.identity
  | .ofParts shift twist scale => ofParts shift twist scale
  | .ofMatrix matrix => ofMatrix matrix

def use (p : Pose) : Transform.Use → Pose
  | .setShift shift => ofParts shift p.twist p.scale
  | .setTwist twist => ofParts p.shift twist p.scale
  | .setScale scale => ofParts p.shift p.twist scale
  | .setMatrix matrix => { p with matrix }
  | .bake => p
  | .bind => p

def run (p : Pose) (uses : List Transform.Use) : Pose := uses.foldl use p

end Pose

namespace Transform

def run (s : Transform × Gpu) (uses : List Use) : Transform × Gpu := uses.foldl use s

/-- Whether a use sets one of the parts. -/
def Use.isPart : Use → Bool
  | .setShift _ => true
  | .setTwist _ => true
  | .setScale _ => true
  | _ => false

/-- A transform has the parts of a pose, and the frame its matrix, unless it is marked. -/
structure Tracks (p : Pose) (t : Transform) : Prop where
  shift_eq : t.shift = p.shift
  twist_eq : t.twist = p.twist
  scale_eq : t.scale = p.scale
  fresh : t.stale = false → t.frame.world.Matches p.matrix
  stale : t.stale = true → t.localMatrix = p.matrix

variable {p : Pose} {t : Transform}

theorem tracks_ofOrigin (origin : Origin) : Tracks (.ofOrigin origin) (ofOrigin origin) := by
  cases origin with
  | default => exact ⟨rfl, rfl, rfl, fun _ => .inl rfl, nofun⟩
  | ofParts shift twist scale => exact ⟨rfl, rfl, rfl, nofun, fun _ => rfl⟩
  | ofMatrix matrix => exact ⟨rfl, rfl, rfl, fun _ => .inl rfl, nofun⟩

/-- A part that is set marks the transform, so that the frame need not have the matrix. -/
theorem tracks_ofParts (shift : Vec3) (twist : Quaternion) (scale : Vec3) (frame : WorldFrame) :
    Tracks (.ofParts shift twist scale) ⟨shift, twist, scale, true, frame⟩ :=
  ⟨rfl, rfl, rfl, nofun, fun _ => rfl⟩

namespace Tracks

theorem setMatrix (h : Tracks p t) (matrix : Mat4) :
    Tracks { p with matrix } (t.setMatrix matrix).value :=
  ⟨h.shift_eq, h.twist_eq, h.scale_eq, fun _ => t.frame.matches_set matrix, nofun⟩

theorem bake (h : Tracks p t) :
    Tracks p t.bake.value ∧ t.bake.value.frame.world.Matches p.matrix := by
  unfold Transform.bake
  split
  next hstale =>
    have hmatches : (t.frame.set t.localMatrix).value.world.Matches p.matrix := by
      rw [← h.stale hstale]
      exact t.frame.matches_set t.localMatrix
    exact ⟨⟨h.shift_eq, h.twist_eq, h.scale_eq, fun _ => hmatches, nofun⟩, hmatches⟩
  next hfresh => exact ⟨h, h.fresh (Bool.eq_false_iff.2 hfresh)⟩

theorem bind (h : Tracks p t) (gpu : Gpu) : Tracks p (t.bind gpu).value.2.1 ∧
    (t.bind gpu).value.2.1.frame.world.Matches p.matrix := by
  obtain ⟨hbake, hmatches⟩ := h.bake
  obtain ⟨buffers, hframe⟩ := t.bake.value.frame.exists_bind_eq gpu
  have hbind : (t.bind gpu).value.2.1 =
      { t.bake.value with frame := { t.bake.value.frame with buffers, dirty := false } } := by
    rw [← hframe]
    rfl
  rw [hbind]
  exact ⟨⟨hbake.shift_eq, hbake.twist_eq, hbake.scale_eq, hbake.fresh, hbake.stale⟩, hmatches⟩

theorem use {s : Transform × Gpu} (h : Tracks p s.1) (next : Use) :
    Tracks (p.use next) (Transform.use s next).1 := by
  cases next with
  | setShift shift =>
    rw [Pose.use, ← h.twist_eq, ← h.scale_eq]
    exact tracks_ofParts shift _ _ _
  | setTwist twist =>
    rw [Pose.use, ← h.shift_eq, ← h.scale_eq]
    exact tracks_ofParts _ twist _ _
  | setScale scale =>
    rw [Pose.use, ← h.shift_eq, ← h.twist_eq]
    exact tracks_ofParts _ _ scale _
  | setMatrix matrix => exact h.setMatrix matrix
  | bake => exact h.bake.1
  | bind => exact (h.bind s.2).1

theorem run {s : Transform × Gpu} (h : Tracks p s.1) (uses : List Use) :
    Tracks (p.run uses) (Transform.run s uses).1 := by
  induction uses generalizing p s with
  | nil => exact h
  | cons next rest ih => exact ih (h.use next)

end Tracks

theorem frame_run_of_isPart {s : Transform × Gpu} {uses : List Use}
    (h : ∀ next ∈ uses, next.isPart = true) : (run s uses).1.frame = s.1.frame := by
  induction uses generalizing s with
  | nil => rfl
  | cons next rest ih =>
    obtain ⟨hnext, hrest⟩ := List.forall_mem_cons.1 h
    have hframe : (use s next).1.frame = s.1.frame := by
      cases next with
      | setShift _ => rfl
      | setTwist _ => rfl
      | setScale _ => rfl
      | setMatrix _ => cases hnext
      | bake => cases hnext
      | bind => cases hnext
    exact (ih hrest).trans hframe

/-- A transform does late what a pose does at once. -/
structure KeepsUp (p : Pose) (s : Transform × Gpu) : Prop where
  shift_eq : s.1.shift = p.shift
  twist_eq : s.1.twist = p.twist
  scale_eq : s.1.scale = p.scale
  bake : (use s .bake).1.frame.world.Matches p.matrix
  bind : (use s .bind).1.frame.world.Matches p.matrix
  /-- Parts that are set are not seen before the next bake. -/
  frame_run : ∀ uses, (∀ next ∈ uses, next.isPart = true) → (run s uses).1.frame = s.1.frame
  setMatrix : ∀ matrix, (use s (.setMatrix matrix)).1.frame.world.Matches matrix

theorem Tracks.keepsUp {s : Transform × Gpu} (h : Tracks p s.1) : KeepsUp p s where
  shift_eq := h.shift_eq
  twist_eq := h.twist_eq
  scale_eq := h.scale_eq
  bake := h.bake.2
  bind := (h.bind s.2).2
  frame_run _ huses := frame_run_of_isPart huses
  setMatrix matrix := s.1.frame.matches_set matrix

end Transform

/-! ### Cameras -/

/-- The parameters of a projection, as they were set last. -/
structure Lens where
  projection : Projection
  aspect : Float32
  near : Float32
  far : Float32

namespace Lens

def use (l : Lens) : Camera.Use → Lens
  | .setProjection projection => { l with projection }
  | .setAspect aspect => { l with aspect }
  | .setClip near far => { l with near, far }
  | .setView _ => l
  | .bake => l
  | .bind => l

def run (l : Lens) (uses : List Camera.Use) : Lens := uses.foldl use l

end Lens

namespace Camera

def run (s : Camera × Gpu) (uses : List Use) : Camera × Gpu := uses.foldl use s

/-- Whether a use sets parameters of the projection. -/
def Use.isParameter : Use → Bool
  | .setProjection _ => true
  | .setAspect _ => true
  | .setClip _ _ => true
  | _ => false

/-- A camera has the parameters that were set last, or such as compare equal to them. -/
structure Shows (l : Lens) (c : Camera) : Prop where
  projection : c.projection = l.projection ∨ l.projection.same c.projection = true
  aspect : c.aspect = l.aspect ∨ (l.aspect == c.aspect) = true
  near : c.near = l.near ∨ (l.near == c.near) = true
  far : c.far = l.far ∨ (l.far == c.far) = true

/-- The frame has the projection of the parameters, unless the camera is marked. -/
def Fresh (c : Camera) : Prop :=
  c.stale = false → c.frame.projection.Matches c.projectionMatrix

variable {l : Lens} {c : Camera}

/-! What each operation does is said once, as an equation: it keeps the parameters and the frame, or it
changes the parameters and marks the camera. -/

theorem setProjection_cases (c : Camera) (projection : Projection) :
    (projection.same c.projection = true ∧ c.setProjection projection = c) ∨
      c.setProjection projection = { c with projection, stale := true } := by
  unfold setProjection
  split
  next hsame => exact .inl ⟨hsame, rfl⟩
  · exact .inr rfl

theorem setAspect_cases (c : Camera) (aspect : Float32) :
    ((aspect == c.aspect) = true ∧ c.setAspect aspect = c) ∨
      c.setAspect aspect = { c with aspect, stale := true } := by
  unfold setAspect
  split
  next hsame => exact .inl ⟨hsame, rfl⟩
  · exact .inr rfl

theorem setClip_cases (c : Camera) (near far : Float32) :
    ((near == c.near) = true ∧ (far == c.far) = true ∧ c.setClip near far = c) ∨
      c.setClip near far = { c with near, far, stale := true } := by
  unfold setClip
  split
  next hsame =>
    obtain ⟨hnear, hfar⟩ := (Bool.and_eq_true _ _).mp hsame
    exact .inl ⟨hnear, hfar, rfl⟩
  · exact .inr rfl

theorem exists_bake_eq (c : Camera) :
    ∃ frame, c.bake = { c with stale := false, frame } := by
  unfold bake
  split
  · exact ⟨_, rfl⟩
  next hfresh =>
    refine ⟨c.frame, ?_⟩
    rw [← Bool.eq_false_iff.2 hfresh]

theorem exists_bind_eq (c : Camera) (gpu : Gpu) :
    ∃ buffers, (c.bind gpu).2.1 =
      { c.bake with frame := { c.bake.frame with buffers, dirty := false } } := by
  obtain ⟨buffers, hframe⟩ := c.bake.frame.exists_bind_eq gpu
  refine ⟨buffers, ?_⟩
  rw [← hframe]
  rfl

theorem projection_setView (c : Camera) (view : Mat4) :
    (c.setView view).value.frame.projection = c.frame.projection :=
  c.frame.projection_setView view

theorem matches_bake (h : c.Fresh) : c.bake.frame.projection.Matches c.bake.projectionMatrix := by
  unfold bake
  split
  · exact c.frame.matches_setProjection c.projectionMatrix
  next hfresh => exact h (Bool.eq_false_iff.2 hfresh)

theorem matches_bind (h : c.Fresh) (gpu : Gpu) :
    (c.bind gpu).2.1.frame.projection.Matches (c.bind gpu).2.1.projectionMatrix := by
  obtain ⟨buffers, hbind⟩ := c.exists_bind_eq gpu
  rw [hbind]
  exact matches_bake h

theorem Shows.use {s : Camera × Gpu} (h : Shows l s.1) (next : Use) :
    Shows (l.use next) (Camera.use s next).1 := by
  cases next with
  | setProjection projection =>
    rcases s.1.setProjection_cases projection with ⟨hsame, heq⟩ | heq
    · rw [Camera.use, heq]
      exact ⟨.inr hsame, h.aspect, h.near, h.far⟩
    · rw [Camera.use, heq]
      exact ⟨.inl rfl, h.aspect, h.near, h.far⟩
  | setAspect aspect =>
    rcases s.1.setAspect_cases aspect with ⟨hsame, heq⟩ | heq
    · rw [Camera.use, heq]
      exact ⟨h.projection, .inr hsame, h.near, h.far⟩
    · rw [Camera.use, heq]
      exact ⟨h.projection, .inl rfl, h.near, h.far⟩
  | setClip near far =>
    rcases s.1.setClip_cases near far with ⟨hnear, hfar, heq⟩ | heq
    · rw [Camera.use, heq]
      exact ⟨h.projection, h.aspect, .inr hnear, .inr hfar⟩
    · rw [Camera.use, heq]
      exact ⟨h.projection, h.aspect, .inl rfl, .inl rfl⟩
  | setView view => exact ⟨h.projection, h.aspect, h.near, h.far⟩
  | bake =>
    obtain ⟨frame, heq⟩ := s.1.exists_bake_eq
    rw [Camera.use, heq]
    exact ⟨h.projection, h.aspect, h.near, h.far⟩
  | bind =>
    obtain ⟨frame, hbake⟩ := s.1.exists_bake_eq
    obtain ⟨buffers, hbind⟩ := s.1.exists_bind_eq s.2
    rw [Camera.use, hbind, hbake]
    exact ⟨h.projection, h.aspect, h.near, h.far⟩

theorem Fresh.use {s : Camera × Gpu} (h : s.1.Fresh) (next : Use) : (Camera.use s next).1.Fresh := by
  cases next with
  | setProjection projection =>
    rcases s.1.setProjection_cases projection with ⟨-, heq⟩ | heq <;> rw [Camera.use, heq]
    · exact h
    · intro hstale
      cases hstale
  | setAspect aspect =>
    rcases s.1.setAspect_cases aspect with ⟨-, heq⟩ | heq <;> rw [Camera.use, heq]
    · exact h
    · intro hstale
      cases hstale
  | setClip near far =>
    rcases s.1.setClip_cases near far with ⟨-, -, heq⟩ | heq <;> rw [Camera.use, heq]
    · exact h
    · intro hstale
      cases hstale
  | setView view =>
    intro hstale
    rw [Camera.use, projection_setView]
    exact h hstale
  | bake => exact fun _ => matches_bake h
  | bind => exact fun _ => matches_bind h s.2

theorem run_induct {s : Camera × Gpu} (hshows : Shows l s.1) (hfresh : s.1.Fresh) (uses : List Use) :
    Shows (l.run uses) (run s uses).1 ∧ (run s uses).1.Fresh := by
  induction uses generalizing l s with
  | nil => exact ⟨hshows, hfresh⟩
  | cons next rest ih => exact ih (hshows.use next) (hfresh.use next)

theorem frame_run_of_isParameter {s : Camera × Gpu} {uses : List Use}
    (h : ∀ next ∈ uses, next.isParameter = true) : (run s uses).1.frame = s.1.frame := by
  induction uses generalizing s with
  | nil => rfl
  | cons next rest ih =>
    obtain ⟨hnext, hrest⟩ := List.forall_mem_cons.1 h
    have hframe : (use s next).1.frame = s.1.frame := by
      cases next with
      | setProjection projection => exact s.1.frame_setProjection projection
      | setAspect aspect => exact s.1.frame_setAspect aspect
      | setClip near far => exact s.1.frame_setClip near far
      | setView _ => cases hnext
      | bake => cases hnext
      | bind => cases hnext
    exact (ih hrest).trans hframe

/-- A camera does late what its parameters ask for. -/
structure KeepsUp (l : Lens) (s : Camera × Gpu) : Prop where
  shows : Shows l s.1
  bake : (use s .bake).1.frame.projection.Matches (use s .bake).1.projectionMatrix
  bind : (use s .bind).1.frame.projection.Matches (use s .bind).1.projectionMatrix
  /-- Parameters that are set are not seen before the next bake. -/
  frame_run : ∀ uses, (∀ next ∈ uses, next.isParameter = true) → (run s uses).1.frame = s.1.frame
  setView : ∀ view, (use s (.setView view)).1.frame.view.Matches view ∧
    (use s (.setView view)).1.frame.projection = s.1.frame.projection

end Camera

/-- After any run, a bake or a bind gives a transform the matrix that its pose has, and a camera the
projection of its parameters, or one that does not differ; what is read before is as it was baked, but
for a matrix that replaces the parts and for the place of a camera, which act at once. -/
theorem bakes_keep_up (gpu : Gpu) :
    (∀ origin uses, Transform.KeepsUp (.run (.ofOrigin origin) uses)
      (Transform.run (Transform.ofOrigin origin, gpu) uses)) ∧
      ∀ projection aspect near far uses,
        Camera.KeepsUp (.run ⟨projection, aspect, near, far⟩ uses)
          (Camera.run (Camera.new projection aspect near far, gpu) uses) := by
  constructor
  · intro origin uses
    exact ((Transform.tracks_ofOrigin origin).run (s := (_, gpu)) uses).keepsUp
  · intro projection aspect near far uses
    have hnew : Camera.Shows ⟨projection, aspect, near, far⟩
        (Camera.new projection aspect near far) := ⟨.inl rfl, .inl rfl, .inl rfl, .inl rfl⟩
    obtain ⟨hshows, hfresh⟩ :=
      Camera.run_induct (s := (Camera.new projection aspect near far, gpu)) hnew nofun uses
    exact ⟨hshows, Camera.matches_bake hfresh, Camera.matches_bind hfresh _,
      fun _ huses => Camera.frame_run_of_isParameter huses, fun view =>
        ⟨ViewFrame.matches_setView _ view, Camera.projection_setView _ view⟩⟩

end Diorama

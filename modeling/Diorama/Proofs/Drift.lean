import Diorama.Proofs.Mirror

/-! What a frame keeps of the matrices that it was given.  It keeps the last one that it accepted, and
what it ignored after that it compared with just this one, so small changes do not add up unseen.  Its
inverse may be older: it belongs to the last accepted matrix that had one. -/

namespace Diorama

/-- Which matrix of a frame is given. -/
inductive FramePart where
  | world
  | projection
  | view
deriving DecidableEq

inductive FrameEvent where
  /-- A matrix was given, and the frame found it different from the one that it had or not. -/
  | given (part : FramePart) (matrix : Mat4) (accepted : Bool)
  | bound

namespace FrameEvent

variable {σ α : Type} {use : σ → α → σ} {event : σ → α → FrameEvent}

/-- The events of a run after those of the `past`, the last first. -/
def history (use : σ → α → σ) (event : σ → α → FrameEvent) :
    List FrameEvent → σ → List α → List FrameEvent
  | past, _, [] => past
  | past, s, a :: rest => history use event (event s a :: past) (use s a) rest

/-- What each use keeps of the events and the state, a run keeps. -/
theorem history_induct {P : List FrameEvent → σ → Prop}
    (huse : ∀ past s a, P past s → P (event s a :: past) (use s a)) (uses : List α)
    {past : List FrameEvent} {s : σ} (h : P past s) :
    P (history use event past s uses) (uses.foldl use s) := by
  induction uses generalizing past s with
  | nil => exact h
  | cons a rest ih => exact ih (huse past s a h)

def accepted? (part : FramePart) : FrameEvent → Option Mat4
  | .given other matrix true => if other = part then some matrix else none
  | _ => none

end FrameEvent

open FrameEvent

section History

variable {part : FramePart} {first cached matrix : Mat4} {events : List FrameEvent}
  {event : FrameEvent}

/-- The matrices that were accepted, the last first; the one that the frame was made with counts. -/
def acceptedOf (part : FramePart) (first : Mat4) (events : List FrameEvent) : List Mat4 :=
  events.filterMap (accepted? part) ++ [first]

/-- The inverse of the last accepted matrix that has one. -/
def lastInverse (part : FramePart) (first : Mat4) (events : List FrameEvent) : Mat4 :=
  ((acceptedOf part first events).findSome? Mat4.inverse?).getD Mat4.identity

/-- There was no bind yet, or a matrix was accepted after the last one. -/
def Unsent (events : List FrameEvent) : Prop :=
  .bound ∉ events ∨ ∃ part matrix later earlier,
    events = later ++ .given part matrix true :: earlier ∧ .bound ∉ later

/-- `cached` is the matrix that was accepted last, and what was given after that did not differ from
just this one. -/
structure Caches (part : FramePart) (first : Mat4) (events : List FrameEvent) (cached : Mat4) :
    Prop where
  eq_last : (acceptedOf part first events).head? = some cached
  compared : ∀ later earlier matrix, events = later ++ .given part matrix false :: earlier →
    (∀ other, .given part other true ∉ later) → matrix.differs cached = false

theorem acceptedOf_of_none (h : event.accepted? part = none) :
    acceptedOf part first (event :: events) = acceptedOf part first events := by
  rw [acceptedOf, List.filterMap_cons_none h, acceptedOf]

theorem acceptedOf_accepted : acceptedOf part first (.given part matrix true :: events) =
    matrix :: acceptedOf part first events := by
  have hsome : (given part matrix true).accepted? part = some matrix := if_pos rfl
  rw [acceptedOf, List.filterMap_cons_some hsome, acceptedOf, List.cons_append]

theorem caches_new (part : FramePart) (first : Mat4) : Caches part first [] first where
  eq_last := rfl
  compared later earlier matrix hsplit := by simp at hsplit

theorem Caches.accept (h : Caches part first events cached) (matrix : Mat4) :
    Caches part first (.given part matrix true :: events) matrix where
  eq_last := by rw [acceptedOf_accepted, List.head?_cons]
  compared later earlier ignored hsplit hlater := by
    cases later with
    | nil => cases hsplit
    | cons event later =>
      cases hsplit
      exact absurd List.mem_cons_self (hlater matrix)

/-- What is not accepted leaves the cached matrix as it is. -/
theorem Caches.keep (h : Caches part first events cached) (hnone : event.accepted? part = none)
    (hignored : ∀ matrix, event = .given part matrix false → matrix.differs cached = false) :
    Caches part first (event :: events) cached where
  eq_last := by rw [acceptedOf_of_none hnone, h.eq_last]
  compared later earlier matrix hsplit hlater := by
    cases later with
    | nil =>
      cases hsplit
      exact hignored matrix rfl
    | cons event later =>
      cases hsplit
      exact h.compared later earlier matrix rfl fun other hmem =>
        hlater other (List.mem_cons_of_mem _ hmem)

theorem Caches.ignore (h : Caches part first events cached) (hsame : matrix.differs cached = false) :
    Caches part first (.given part matrix false :: events) cached := by
  refine h.keep rfl ?_
  rintro other ⟨⟩
  exact hsame

theorem Caches.bound (h : Caches part first events cached) :
    Caches part first (.bound :: events) cached := by
  refine h.keep rfl ?_
  rintro other ⟨⟩

theorem accepted?_of_ne {other : FramePart} (h : other ≠ part) (matrix : Mat4) (accepted : Bool) :
    (given other matrix accepted).accepted? part = none := by
  cases accepted <;> simp [accepted?, h]

/-- The other matrices of a frame have no part in what it keeps of this one. -/
theorem Caches.other {other : FramePart} (h : Caches part first events cached) (hne : other ≠ part)
    (matrix : Mat4) (accepted : Bool) :
    Caches part first (.given other matrix accepted :: events) cached := by
  refine h.keep (accepted?_of_ne hne matrix accepted) ?_
  rintro ignored ⟨⟩
  exact absurd rfl hne

theorem lastInverse_of_none (h : event.accepted? part = none) :
    lastInverse part first (event :: events) = lastInverse part first events := by
  rw [lastInverse, acceptedOf_of_none h, lastInverse]

theorem lastInverse_accepted : lastInverse part first (.given part matrix true :: events) =
    matrix.inverse?.getD (lastInverse part first events) := by
  rw [lastInverse, acceptedOf_accepted, List.findSome?_cons]
  cases matrix.inverse? <;> rfl

theorem lastInverse_nil : lastInverse part first [] = first.inverse?.getD Mat4.identity := by
  rw [lastInverse, acceptedOf, List.filterMap_nil, List.nil_append, List.findSome?_singleton]

theorem unsent_accepted : Unsent (.given part matrix true :: events) :=
  .inr ⟨part, matrix, [], events, rfl, List.not_mem_nil⟩

theorem not_unsent_bound : ¬Unsent (.bound :: events) := by
  rintro (hnever | ⟨part, matrix, later, earlier, hsplit, hlater⟩)
  · exact hnever List.mem_cons_self
  · cases later with
    | nil => cases hsplit
    | cons event later =>
      cases hsplit
      exact hlater List.mem_cons_self

theorem unsent_ignored : Unsent (.given part matrix false :: events) ↔ Unsent events := by
  constructor
  · rintro (hnever | ⟨other, changed, later, earlier, hsplit, hlater⟩)
    · exact .inl fun hmem => hnever (List.mem_cons_of_mem _ hmem)
    · cases later with
      | nil => cases hsplit
      | cons event later =>
        cases hsplit
        exact .inr ⟨other, changed, later, earlier, rfl,
          fun hmem => hlater (List.mem_cons_of_mem _ hmem)⟩
  · rintro (hnever | ⟨other, changed, later, earlier, rfl, hlater⟩)
    · exact .inl (by simpa using hnever)
    · exact .inr ⟨other, changed, .given part matrix false :: later, earlier, rfl,
        by simpa using hlater⟩

end History

/-! ### World frames -/

namespace WorldFrame

def event (s : WorldFrame × Gpu) : Use → FrameEvent
  | .set world => .given .world world (world.differs s.1.world)
  | .bind => .bound

/-- A frame has what its history says, if it was made with `first`. -/
structure Recalls (first : Mat4) (events : List FrameEvent) (f : WorldFrame) : Prop where
  world : Caches .world first events f.world
  inverse_eq : f.inverse = lastInverse .world first events
  inverseTranspose_eq : f.inverseTranspose = f.inverse.transpose
  dirty_iff : f.dirty = true ↔ Unsent events

variable {f : WorldFrame} {first : Mat4} {events : List FrameEvent}

theorem value_derive (world : Mat4) (previous : Mat4 × Mat4) : (derive world previous).value =
    (world.inverse?.getD previous.1, (world.inverse?.map Mat4.transpose).getD previous.2) := by
  unfold derive
  cases world.inverse? <;> rfl

theorem set_of_differs {world : Mat4} (h : world.differs f.world = true) : (f.set world).value =
    { f with
      world
      inverse := world.inverse?.getD f.inverse
      inverseTranspose := (world.inverse?.map Mat4.transpose).getD f.inverseTranspose
      dirty := true } := by
  rw [set, if_pos h, Logged.value_bind, value_derive]
  rfl

theorem set_of_not_differs {world : Mat4} (h : world.differs f.world = false) :
    (f.set world).value = f := by
  rw [set, if_neg (by simp [h]), Logged.value_pure]

/-- A bind changes nothing but the buffers, and that the frame is up to date. -/
theorem exists_bind_eq (f : WorldFrame) (gpu : Gpu) :
    ∃ buffers, (f.bind gpu).2.1 = { f with buffers, dirty := false } := by
  unfold bind
  split
  · exact ⟨_, rfl⟩
  next hclean =>
    refine ⟨f.buffers, ?_⟩
    rw [← Bool.eq_false_iff.2 hclean]

theorem recalls_new (first : Mat4) : Recalls first [] (new first).value where
  world := caches_new .world first
  inverse_eq := by rw [new, Logged.value_bind, Logged.value_pure, value_derive, lastInverse_nil]
  inverseTranspose_eq := by
    rw [new, Logged.value_bind, Logged.value_pure, value_derive]
    cases first.inverse? <;> rfl
  dirty_iff := by simp [new, Unsent]

theorem Recalls.set (h : Recalls first events f) (world : Mat4) :
    Recalls first (.given .world world (world.differs f.world) :: events) (f.set world).value := by
  cases hdiffers : world.differs f.world with
  | true =>
    rw [set_of_differs hdiffers]
    refine ⟨h.world.accept world, ?_, ?_, by simp [unsent_accepted]⟩
    · rw [lastInverse_accepted, h.inverse_eq]
    · cases world.inverse? with
      | none => exact h.inverseTranspose_eq
      | some inverse => rfl
  | false =>
    rw [set_of_not_differs hdiffers]
    refine ⟨h.world.ignore hdiffers, ?_, h.inverseTranspose_eq,
      h.dirty_iff.trans unsent_ignored.symm⟩
    rw [lastInverse_of_none rfl, h.inverse_eq]

theorem Recalls.bind (h : Recalls first events f) (gpu : Gpu) :
    Recalls first (.bound :: events) (f.bind gpu).2.1 := by
  obtain ⟨buffers, heq⟩ := f.exists_bind_eq gpu
  rw [heq]
  refine ⟨h.world.bound, ?_, h.inverseTranspose_eq, by simp [not_unsent_bound]⟩
  rw [lastInverse_of_none rfl, h.inverse_eq]

theorem recalls_run (first : Mat4) (start : Gpu) (uses : List Use) :
    Recalls first (history use event [] ((new first).value, start) uses)
      (run ((new first).value, start) uses).1 := by
  refine history_induct (P := fun events (s : WorldFrame × Gpu) => Recalls first events s.1)
    (fun past s next h => ?_) uses (recalls_new first)
  cases next with
  | set world => exact h.set world
  | bind => exact h.bind s.2

end WorldFrame

/-! ### View frames -/

namespace ViewFrame

def event (s : ViewFrame × Gpu) : Use → FrameEvent
  | .setProjection projection => .given .projection projection (projection.differs s.1.projection)
  | .setView view => .given .view view (view.differs s.1.view)
  | .bind => .bound

/-- A frame has what its history says, if it was made with these two matrices. -/
structure Recalls (firstProjection firstView : Mat4) (events : List FrameEvent) (f : ViewFrame) :
    Prop where
  projection : Caches .projection firstProjection events f.projection
  view : Caches .view firstView events f.view
  inverseView_eq : f.inverseView = lastInverse .view firstView events
  dirty_iff : f.dirty = true ↔ Unsent events

variable {f : ViewFrame} {projection view matrix : Mat4} {events : List FrameEvent}

theorem setProjection_of_differs (h : matrix.differs f.projection = true) :
    f.setProjection matrix = { f with projection := matrix, dirty := true } := if_pos h

theorem setProjection_of_not_differs (h : matrix.differs f.projection = false) :
    f.setProjection matrix = f := if_neg (by simp [h])

theorem setView_of_differs (h : matrix.differs f.view = true) : (f.setView matrix).value =
    { f with
      view := matrix
      inverseView := matrix.inverse?.getD f.inverseView
      dirty := true } := by
  rw [setView, if_pos h]
  unfold derive
  cases matrix.inverse? <;> rfl

theorem setView_of_not_differs (h : matrix.differs f.view = false) : (f.setView matrix).value = f := by
  rw [setView, if_neg (by simp [h]), Logged.value_pure]

theorem exists_bind_eq (f : ViewFrame) (gpu : Gpu) :
    ∃ buffers, (f.bind gpu).2.1 = { f with buffers, dirty := false } := by
  unfold bind
  split
  · exact ⟨_, rfl⟩
  next hclean =>
    refine ⟨f.buffers, ?_⟩
    rw [← Bool.eq_false_iff.2 hclean]

theorem recalls_new (projection view : Mat4) : Recalls projection view [] (new projection view) where
  projection := caches_new .projection projection
  view := caches_new .view view
  inverseView_eq := by rw [new, lastInverse_nil]
  dirty_iff := by simp [new, Unsent]

theorem Recalls.setProjection (h : Recalls projection view events f) (matrix : Mat4) :
    Recalls projection view (.given .projection matrix (matrix.differs f.projection) :: events)
      (f.setProjection matrix) := by
  have hne : FramePart.projection ≠ .view := by decide
  cases hdiffers : matrix.differs f.projection with
  | true =>
    rw [setProjection_of_differs hdiffers]
    refine ⟨h.projection.accept matrix, h.view.other hne matrix true, ?_, by simp [unsent_accepted]⟩
    rw [lastInverse_of_none (accepted?_of_ne hne matrix true), h.inverseView_eq]
  | false =>
    rw [setProjection_of_not_differs hdiffers]
    refine ⟨h.projection.ignore hdiffers, h.view.other hne matrix false, ?_,
      h.dirty_iff.trans unsent_ignored.symm⟩
    rw [lastInverse_of_none rfl, h.inverseView_eq]

theorem Recalls.setView (h : Recalls projection view events f) (matrix : Mat4) :
    Recalls projection view (.given .view matrix (matrix.differs f.view) :: events)
      (f.setView matrix).value := by
  have hne : FramePart.view ≠ .projection := by decide
  cases hdiffers : matrix.differs f.view with
  | true =>
    rw [setView_of_differs hdiffers]
    refine ⟨h.projection.other hne matrix true, h.view.accept matrix, ?_, by simp [unsent_accepted]⟩
    rw [lastInverse_accepted, h.inverseView_eq]
  | false =>
    rw [setView_of_not_differs hdiffers]
    refine ⟨h.projection.other hne matrix false, h.view.ignore hdiffers, ?_,
      h.dirty_iff.trans unsent_ignored.symm⟩
    rw [lastInverse_of_none rfl, h.inverseView_eq]

theorem Recalls.bind (h : Recalls projection view events f) (gpu : Gpu) :
    Recalls projection view (.bound :: events) (f.bind gpu).2.1 := by
  obtain ⟨buffers, heq⟩ := f.exists_bind_eq gpu
  rw [heq]
  refine ⟨h.projection.bound, h.view.bound, ?_, by simp [not_unsent_bound]⟩
  rw [lastInverse_of_none rfl, h.inverseView_eq]

theorem recalls_run (projection view : Mat4) (start : Gpu) (uses : List Use) :
    Recalls projection view (history use event [] (new projection view, start) uses)
      (run (new projection view, start) uses).1 := by
  refine history_induct (P := fun events (s : ViewFrame × Gpu) => Recalls projection view events s.1)
    (fun past s next h => ?_) uses (recalls_new projection view)
  cases next with
  | setProjection matrix => exact h.setProjection matrix
  | setView matrix => exact h.setView matrix
  | bind => exact h.bind s.2

theorem setProjection_frame (f : ViewFrame) (matrix : Mat4) :
    (f.setProjection matrix).view = f.view ∧ (f.setProjection matrix).inverseView = f.inverseView := by
  unfold setProjection
  split <;> exact ⟨rfl, rfl⟩

theorem projection_setView (f : ViewFrame) (matrix : Mat4) :
    (f.setView matrix).value.projection = f.projection := by
  unfold setView
  split <;> rfl

end ViewFrame

/-- Whatever a frame of either kind was given, and bound in between: each of its matrices is the one
accepted last, and what was given since did not differ from it; its inverse belongs to the last
accepted matrix that has one; it is to be sent if nothing was sent yet or a matrix was accepted since;
and of a camera, projection and view do not touch each other. -/
theorem frames_recall (start : Gpu) :
    (∀ first uses, WorldFrame.Recalls first
      (history WorldFrame.use WorldFrame.event [] ((WorldFrame.new first).value, start) uses)
      (WorldFrame.run ((WorldFrame.new first).value, start) uses).1) ∧
      ∀ projection view uses,
        let f := (ViewFrame.run (ViewFrame.new projection view, start) uses).1
        ViewFrame.Recalls projection view
            (history ViewFrame.use ViewFrame.event [] (ViewFrame.new projection view, start) uses) f ∧
          (∀ matrix, (f.setProjection matrix).view = f.view ∧
            (f.setProjection matrix).inverseView = f.inverseView) ∧
          ∀ matrix, (f.setView matrix).value.projection = f.projection :=
  ⟨fun first uses => WorldFrame.recalls_run first start uses, fun projection view uses =>
    ⟨ViewFrame.recalls_run projection view start uses, ViewFrame.setProjection_frame _,
      ViewFrame.projection_setView _⟩⟩

end Diorama

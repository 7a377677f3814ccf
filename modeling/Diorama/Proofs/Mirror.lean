import Diorama.Frame.View
import Diorama.Frame.World

/-! The buffers of a frame that has not changed hold its matrices.  World frames and view frames are
taken together here as what their uploads depend on; a run of either kind is a run of these. -/

namespace Diorama

/-- The objects made since an earlier state are `handles`. -/
def Gpu.MadeSince (start gpu : Gpu) (handles : List Handle) : Prop :=
  ∃ requests, gpu.log = start.log ++ requests ∧ requests.filterMap GpuEvent.made? = handles

theorem Gpu.MadeSince.append {start gpu after : Gpu} {handles all : List Handle}
    {requests : List GpuEvent} (h : start.MadeSince gpu handles)
    (hlog : after.log = gpu.log ++ requests)
    (hmade : handles ++ requests.filterMap GpuEvent.made? = all) : start.MadeSince after all := by
  obtain ⟨earlier, hearlier, rfl⟩ := h
  exact ⟨earlier ++ requests, by rw [hlog, hearlier, List.append_assoc],
    List.filterMap_append.trans hmade⟩

namespace Uniforms

/-- The buffers hold three matrices, each its own. -/
def Hold (u : Uniforms) (gpu : Gpu) (matrices : Triple Mat4) : Prop :=
  gpu.contents? u.first = some (.matrix matrices.first) ∧
    gpu.contents? u.second = some (.matrix matrices.second) ∧
      gpu.contents? u.third = some (.matrix matrices.third)

theorem create_eq (gpu : Gpu) (labels : Triple String) (matrices : Triple Mat4) :
    create gpu labels matrices = (⟨gpu.made, gpu.made + 1, gpu.made + 2⟩, ⟨gpu.made + 3, gpu.log ++
      [.createBuffer gpu.made labels.first .uniform (.matrix matrices.first),
        .createBuffer (gpu.made + 1) labels.second .uniform (.matrix matrices.second),
        .createBuffer (gpu.made + 2) labels.third .uniform (.matrix matrices.third)]⟩) := by
  simp [create, Gpu.createBuffer]

theorem write_eq (u : Uniforms) (gpu : Gpu) (matrices : Triple Mat4) :
    u.write gpu matrices = ⟨gpu.made, gpu.log ++ [.writeBuffer u.first (.matrix matrices.first),
      .writeBuffer u.second (.matrix matrices.second),
      .writeBuffer u.third (.matrix matrices.third)]⟩ := by
  simp [write, Gpu.writeBuffer]

/-- Three requests, one for each buffer, leave the buffers with what they say. -/
theorem hold_of_log {u : Uniforms} {gpu after : Gpu} {matrices : Triple Mat4}
    {first second third : GpuEvent} (hnodup : u.toList.Nodup)
    (hlog : after.log = gpu.log ++ [first, second, third])
    (hfirst : ∀ handle, first.contentsOf? handle =
      if u.first = handle then some (.matrix matrices.first) else none)
    (hsecond : ∀ handle, second.contentsOf? handle =
      if u.second = handle then some (.matrix matrices.second) else none)
    (hthird : ∀ handle, third.contentsOf? handle =
      if u.third = handle then some (.matrix matrices.third) else none) :
    u.Hold after matrices := by
  have hdistinct : (u.first ≠ u.second ∧ u.first ≠ u.third) ∧ u.second ≠ u.third := by
    simpa [toList] using hnodup
  obtain ⟨⟨h12, h13⟩, h23⟩ := hdistinct
  simp [Hold, Gpu.contents?_of_log hlog, hfirst, hsecond, hthird, h12.symm, h13.symm, h23.symm]

end Uniforms

/-- What of a frame its uploads depend on. -/
structure Mirror where
  matrices : Triple Mat4
  buffers : Option Uniforms
  dirty : Bool

namespace Mirror

variable {labels : Triple String} {m m' : Mirror} {gpu gpu' start : Gpu} {u : Uniforms}

def handles (m : Mirror) : List Handle := (m.buffers.map Uniforms.toList).getD []

/-- What setting a frame may do: it leaves the buffers to the frame, and marks the frame if it
changes anything. -/
def Sets (m m' : Mirror) : Prop := m'.buffers = m.buffers ∧ (m' = m ∨ m'.dirty = true)

/-- What binding a frame does, and whether it says that it sent something: nothing for a frame that
has not changed, three new buffers for one that has none, and three writes to its own buffers for
any other. -/
inductive Binds (labels : Triple String) : Mirror × Gpu → Bool → Mirror × Gpu → Prop
  | clean {m : Mirror} {gpu : Gpu} (hdirty : m.dirty = false) :
    Binds labels (m, gpu) false (m, gpu)
  | create {m : Mirror} {gpu : Gpu} (hdirty : m.dirty = true) (hbuffers : m.buffers = none) :
    Binds labels (m, gpu) true
      ({ m with buffers := some ⟨gpu.made, gpu.made + 1, gpu.made + 2⟩, dirty := false },
        ⟨gpu.made + 3, gpu.log ++
          [.createBuffer gpu.made labels.first .uniform (.matrix m.matrices.first),
            .createBuffer (gpu.made + 1) labels.second .uniform (.matrix m.matrices.second),
            .createBuffer (gpu.made + 2) labels.third .uniform (.matrix m.matrices.third)]⟩)
  | write {m : Mirror} {gpu : Gpu} {u : Uniforms} (hdirty : m.dirty = true)
      (hbuffers : m.buffers = some u) :
    Binds labels (m, gpu) true
      ({ m with dirty := false },
        ⟨gpu.made, gpu.log ++ [.writeBuffer u.first (.matrix m.matrices.first),
          .writeBuffer u.second (.matrix m.matrices.second),
          .writeBuffer u.third (.matrix m.matrices.third)]⟩)

theorem binds_of_eq {sent : Bool} (h : (sent, m', gpu') = if m.dirty then
      (true, { m with buffers := some (Uniforms.upload m.buffers gpu labels m.matrices).1,
                      dirty := false },
        (Uniforms.upload m.buffers gpu labels m.matrices).2)
      else (false, m, gpu)) : Binds labels (m, gpu) sent (m', gpu') := by
  obtain ⟨matrices, buffers, dirty⟩ := m
  cases dirty with
  | false =>
    cases h
    exact .clean rfl
  | true =>
    cases buffers with
    | none =>
      rw [Uniforms.upload, Uniforms.create_eq] at h
      cases h
      exact .create rfl rfl
    | some u =>
      rw [Uniforms.upload, Uniforms.write_eq] at h
      cases h
      exact .write rfl rfl

/-- If the frame has not changed, its buffers hold its matrices. -/
def Current (m : Mirror) (gpu : Gpu) : Prop :=
  m.dirty = false → ∃ u, m.buffers = some u ∧ u.Hold gpu m.matrices

theorem Sets.handles_eq (h : Sets m m') : m'.handles = m.handles := by
  rw [handles, handles, h.1]

theorem Current.set (h : m.Current gpu) (hset : Sets m m') : m'.Current gpu := by
  intro hclean
  rcases hset.2 with rfl | hdirty
  · exact h hclean
  · simp [hdirty] at hclean

theorem Binds.current {s s' : Mirror × Gpu} {sent : Bool} (h : Binds labels s sent s')
    (hcurrent : s.1.Current s.2) (hnodup : s.1.handles.Nodup) :
    s'.1.Current s'.2 ∧ s'.1.handles.Nodup := by
  cases h with
  | clean => exact ⟨hcurrent, hnodup⟩
  | @create m gpu hdirty hnone =>
    have hnodup' : (Uniforms.toList ⟨gpu.made, gpu.made + 1, gpu.made + 2⟩).Nodup := by
      simp [Uniforms.toList]
    exact ⟨fun _ => ⟨_, rfl, Uniforms.hold_of_log hnodup' rfl (fun _ => rfl) (fun _ => rfl)
      fun _ => rfl⟩, hnodup'⟩
  | @write m gpu u hdirty hsome =>
    have hnodup' : u.toList.Nodup := by simpa [handles, hsome] using hnodup
    exact ⟨fun _ => ⟨u, hsome, Uniforms.hold_of_log hnodup' rfl (fun _ => rfl) (fun _ => rfl)
      fun _ => rfl⟩, hnodup⟩

/-- One state of a frame and the graphics processor leads to another by any number of settings and
bindings. -/
inductive Leads (labels : Triple String) : Mirror × Gpu → Mirror × Gpu → Prop
  | refl (s : Mirror × Gpu) : Leads labels s s
  | set {s : Mirror × Gpu} {m m' : Mirror} {gpu : Gpu} (h : Leads labels s (m, gpu))
      (hset : Sets m m') : Leads labels s (m', gpu)
  | bind {s s' s'' : Mirror × Gpu} {sent : Bool} (h : Leads labels s s')
      (hbind : Binds labels s' sent s'') : Leads labels s s''

theorem Leads.trans {s s' s'' : Mirror × Gpu} (h : Leads labels s s') (h' : Leads labels s' s'') :
    Leads labels s s'' := by
  induction h' with
  | refl => exact h
  | set _ hset ih => exact ih.set hset
  | bind _ hbind ih => exact ih.bind hbind

theorem leads_foldl {σ α : Type} (shown : σ → Mirror × Gpu) {use : σ → α → σ}
    (huse : ∀ s a, Leads labels (shown s) (shown (use s a))) (s : σ) (uses : List α) :
    Leads labels (shown s) (shown (uses.foldl use s)) := by
  induction uses generalizing s with
  | nil => exact .refl _
  | cons a uses ih => exact (huse s a).trans (ih (use s a))

theorem Leads.buffers_eq {s s' : Mirror × Gpu} (h : Leads labels s s') (hu : s.1.buffers = some u) :
    s'.1.buffers = some u := by
  induction h with
  | refl => exact hu
  | set _ hset ih => exact hset.1.trans ih
  | bind _ hbind ih =>
    cases hbind with
    | clean => exact ih
    | create _ hnone => simp [hnone] at ih
    | write => exact ih

/-- The buffers of a frame that has not changed hold its matrices, and they are all that was made
since the frame was. -/
structure Faithful (start : Gpu) (s : Mirror × Gpu) : Prop where
  clean : s.1.dirty = false → ∃ u, s.1.buffers = some u ∧ u.Hold s.2 s.1.matrices
  nodup : s.1.handles.Nodup
  madeSince : start.MadeSince s.2 s.1.handles

theorem faithful_start (hdirty : m.dirty = true) (hbuffers : m.buffers = none) :
    Faithful start (m, start) where
  clean h := by simp [hdirty] at h
  nodup := by simp [handles, hbuffers]
  madeSince := ⟨[], by simp, by simp [handles, hbuffers]⟩

theorem Faithful.set (h : Faithful start (m, gpu)) (hset : Sets m m') :
    Faithful start (m', gpu) :=
  ⟨Current.set h.clean hset, hset.handles_eq ▸ h.nodup, hset.handles_eq ▸ h.madeSince⟩

theorem Faithful.bind {s s' : Mirror × Gpu} {sent : Bool} (h : Faithful start s)
    (hbind : Binds labels s sent s') : Faithful start s' := by
  obtain ⟨hclean, hnodup⟩ := hbind.current h.clean h.nodup
  refine ⟨hclean, hnodup, ?_⟩
  cases hbind with
  | clean => exact h.madeSince
  | @create m gpu _ hnone =>
    have hmade : start.MadeSince gpu [] := by simpa [handles, hnone] using h.madeSince
    exact hmade.append rfl rfl
  | write => exact h.madeSince.append rfl (List.append_nil _)

theorem Faithful.leads {s s' : Mirror × Gpu} (h : Faithful start s) (hleads : Leads labels s s') :
    Faithful start s' := by
  induction hleads with
  | refl => exact h
  | set _ hset ih => exact ih.set hset
  | bind _ hbind ih => exact ih.bind hbind

end Mirror

/-! ### World frames -/

namespace WorldFrame

def mirror (f : WorldFrame) : Mirror :=
  ⟨⟨f.world, f.inverse, f.inverseTranspose⟩, f.buffers, f.dirty⟩

/-- What the owner of a world frame does with it. -/
inductive Use where
  | set (world : Mat4)
  | bind

def use (s : WorldFrame × Gpu) : Use → WorldFrame × Gpu
  | .set world => ((s.1.set world).value, s.2)
  | .bind => (s.1.bind s.2).2

def run (s : WorldFrame × Gpu) (uses : List Use) : WorldFrame × Gpu := uses.foldl use s

theorem sets_set (f : WorldFrame) (world : Mat4) : f.mirror.Sets (f.set world).value.mirror := by
  unfold set
  split
  · exact ⟨rfl, .inr rfl⟩
  · exact ⟨rfl, .inl rfl⟩

theorem binds_bind (f : WorldFrame) (gpu : Gpu) : Mirror.Binds labels (f.mirror, gpu)
    (f.bind gpu).1 ((f.bind gpu).2.1.mirror, (f.bind gpu).2.2) := by
  apply Mirror.binds_of_eq
  unfold bind mirror
  split <;> rfl

theorem leads_run (s : WorldFrame × Gpu) (uses : List Use) :
    Mirror.Leads labels (s.1.mirror, s.2) ((run s uses).1.mirror, (run s uses).2) := by
  refine Mirror.leads_foldl (fun s => (s.1.mirror, s.2)) (fun s next => ?_) s uses
  cases next with
  | set world => exact .set (.refl _) (sets_set s.1 world)
  | bind => exact .bind (.refl _) (binds_bind s.1 s.2)

end WorldFrame

/-! ### View frames -/

namespace ViewFrame

def mirror (f : ViewFrame) : Mirror := ⟨⟨f.projection, f.view, f.inverseView⟩, f.buffers, f.dirty⟩

/-- What the owner of a view frame does with it. -/
inductive Use where
  | setProjection (projection : Mat4)
  | setView (view : Mat4)
  | bind

def use (s : ViewFrame × Gpu) : Use → ViewFrame × Gpu
  | .setProjection projection => (s.1.setProjection projection, s.2)
  | .setView view => ((s.1.setView view).value, s.2)
  | .bind => (s.1.bind s.2).2

def run (s : ViewFrame × Gpu) (uses : List Use) : ViewFrame × Gpu := uses.foldl use s

theorem sets_setProjection (f : ViewFrame) (projection : Mat4) :
    f.mirror.Sets (f.setProjection projection).mirror := by
  unfold setProjection
  split
  · exact ⟨rfl, .inr rfl⟩
  · exact ⟨rfl, .inl rfl⟩

theorem sets_setView (f : ViewFrame) (view : Mat4) :
    f.mirror.Sets (f.setView view).value.mirror := by
  unfold setView
  split
  · exact ⟨rfl, .inr rfl⟩
  · exact ⟨rfl, .inl rfl⟩

theorem binds_bind (f : ViewFrame) (gpu : Gpu) : Mirror.Binds labels (f.mirror, gpu)
    (f.bind gpu).1 ((f.bind gpu).2.1.mirror, (f.bind gpu).2.2) := by
  apply Mirror.binds_of_eq
  unfold bind mirror
  split <;> rfl

theorem leads_run (s : ViewFrame × Gpu) (uses : List Use) :
    Mirror.Leads labels (s.1.mirror, s.2) ((run s uses).1.mirror, (run s uses).2) := by
  refine Mirror.leads_foldl (fun s => (s.1.mirror, s.2)) (fun s next => ?_) s uses
  cases next with
  | setProjection projection => exact .set (.refl _) (sets_setProjection s.1 projection)
  | setView view => exact .set (.refl _) (sets_setView s.1 view)
  | bind => exact .bind (.refl _) (binds_bind s.1 s.2)

end ViewFrame

/-- In each state that a new frame comes to, of either kind: if it has not changed, its buffers hold
its matrices; its buffers are all that was made since; a bind sends nothing, makes the three
buffers or writes the same three; and the buffers that are there stay, whatever follows. -/
theorem frames_faithful (start : Gpu) :
    (∀ world uses,
      let s := WorldFrame.run ((WorldFrame.new world).value, start) uses
      Mirror.Faithful start (s.1.mirror, s.2) ∧
        Mirror.Binds WorldFrame.labels (s.1.mirror, s.2) (s.1.bind s.2).1
          ((s.1.bind s.2).2.1.mirror, (s.1.bind s.2).2.2) ∧
          ∀ u more, s.1.buffers = some u → (WorldFrame.run s more).1.buffers = some u) ∧
      ∀ projection view uses,
        let s := ViewFrame.run (ViewFrame.new projection view, start) uses
        Mirror.Faithful start (s.1.mirror, s.2) ∧
          Mirror.Binds ViewFrame.labels (s.1.mirror, s.2) (s.1.bind s.2).1
            ((s.1.bind s.2).2.1.mirror, (s.1.bind s.2).2.2) ∧
            ∀ u more, s.1.buffers = some u → (ViewFrame.run s more).1.buffers = some u := by
  constructor
  · intro world uses s
    have hnew : Mirror.Faithful start ((WorldFrame.new world).value.mirror, start) :=
      Mirror.faithful_start rfl rfl
    exact ⟨hnew.leads (WorldFrame.leads_run (_, start) uses), WorldFrame.binds_bind s.1 s.2,
      fun u more hu => (WorldFrame.leads_run s more).buffers_eq hu⟩
  · intro projection view uses s
    have hnew : Mirror.Faithful start ((ViewFrame.new projection view).mirror, start) :=
      Mirror.faithful_start rfl rfl
    exact ⟨hnew.leads (ViewFrame.leads_run (_, start) uses), ViewFrame.binds_bind s.1 s.2,
      fun u more hu => (ViewFrame.leads_run s more).buffers_eq hu⟩

end Diorama

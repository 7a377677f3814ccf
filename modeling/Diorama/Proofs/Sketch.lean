import Diorama.Entity.Registry
import Diorama.Proofs.Sweep
import Diorama.Proofs.Uploads

/-! Sketches: all entities, with the graphics processor that holds their frames.  Whatever is done
with entities, each frame has buffers of its own, and after an update these hold what they
should. -/

namespace Diorama

structure Sketch where
  entities : EntityRegistry
  gpu : Gpu

namespace Sketch

def frames (s : Sketch) (k : Uid × FrameKind) : Option Mirror :=
  (s.entities.get? k.1).bind (·.mirror? k.2)

/-- Changes the entity under an identifier, where there is one, and the graphics processor. -/
def edit (s : Sketch) (uid : Uid) (f : Entity → Gpu → Entity × Gpu) : Sketch :=
  match s.entities.get? uid with
  | none => s
  | some e => ⟨s.entities.put uid (f e s.gpu).1, (f e s.gpu).2⟩

def insert (s : Sketch) (uid : Uid) (c : Component) : Sketch :=
  match s.entities.insert? uid c with
  | none => s
  | some (_, entities) => ⟨entities, s.gpu⟩

/-- What is done with one entity. -/
inductive Work where
  | despawn
  | insertTransform (origin : Transform.Origin)
  | insertView (projection : Projection) (aspect near far : Float32)
  | attach (mesh : Uid) (shader : Shader.Compiled)
  | useTransform (next : Transform.Use)
  | useView (next : Camera.Use)

def work (s : Sketch) (uid : Uid) : Work → Sketch
  | .despawn => ⟨(s.entities.despawn uid).value.2, s.gpu⟩
  | .insertTransform origin => s.insert uid (.transform (.ofOrigin origin))
  | .insertView projection aspect near far => s.insert uid (.view (.new projection aspect near far))
  | .attach mesh shader =>
    let (_, entities, gpu) := (s.entities.attach s.gpu uid mesh shader).value
    ⟨entities, gpu⟩
  | .useTransform next => s.edit uid (Entity.useTransform next)
  | .useView next => s.edit uid (Entity.useView next)

/-- The kinds of frames that may be taken from the entity. -/
def Work.Replaces : Work → FrameKind → Prop
  | .despawn, _ => True
  | .insertTransform _, kind => kind = .world
  | .insertView _ _ _ _, kind => kind = .view
  | _, _ => False

inductive Action where
  | spawn
  | work (uid : Uid) (w : Work)
  | update

def act (s : Sketch) : Action → Sketch
  | .spawn => ⟨s.entities.spawn.2, s.gpu⟩
  | .work uid w => s.work uid w
  | .update =>
    let (entities, gpu) := (s.entities.update s.gpu).value
    ⟨entities, gpu⟩

def run (s : Sketch) (actions : List Action) : Sketch := actions.foldl act s

/-- No entities, on a graphics processor that may have been in use before. -/
def start (gpu : Gpu) : Sketch := ⟨{}, gpu⟩

section Steps

open Function

variable {s : Sketch} {uid : Uid} {e e' : Entity} {gpu : Gpu} {r : EntityRegistry}

theorem get?_put (h : r.entities.WellFormed) (hget : r.get? uid = some e) (other : Uid) :
    (r.put uid e').get? other = if other = uid then some e' else r.get? other := by
  have hmodify := h.get?_modify uid (fun _ => e') other
  rw [show r.entities.get? uid = some e from hget] at hmodify
  exact hmodify

/-- An entity of which one frame changes is one frame that changes. -/
theorem frames_put (kind : FrameKind) (h : s.entities.entities.WellFormed)
    (hget : s.entities.get? uid = some e)
    (hsame : ∀ other, other ≠ kind → e'.mirror? other = e.mirror? other) :
    frames ⟨s.entities.put uid e', gpu⟩ = update s.frames (uid, kind) (e'.mirror? kind) := by
  funext ⟨other, kind'⟩
  rw [update_apply, frames, get?_put h hget]
  by_cases hother : other = uid
  · subst hother
    by_cases hkind : kind' = kind
    · simp [hkind]
    · simp [frames, hget, hkind, hsame kind' hkind]
  · simp [frames, hother]

/-- An entity uses a frame, which may be a new one where there was none. -/
theorem works_put {labels : Triple String} {m m' : Mirror} (kind : FrameKind)
    (replaces : FrameKind → Prop) (h : s.entities.entities.WellFormed)
    (hget : s.entities.get? uid = some e)
    (hsame : ∀ other, other ≠ kind → e'.mirror? other = e.mirror? other)
    (hm : e.mirror? kind = some m ∨ e.mirror? kind = none ∧ m.IsNew)
    (hm' : e'.mirror? kind = some m') (hleads : Mirror.Leads labels (m, s.gpu) (m', gpu)) :
    Works uid replaces (s.frames, s.gpu) (frames ⟨s.entities.put uid e', gpu⟩, gpu) := by
  have hframe : s.frames (uid, kind) = e.mirror? kind := by rw [frames, hget, Option.bind_some]
  rw [frames_put kind h hget hsame, hm']
  rcases hm with hm | ⟨hnone, hnew⟩
  · exact .leads (hframe.trans hm) hleads
  · have hplace : Works uid replaces (s.frames, s.gpu)
        (update s.frames (uid, kind) (some m), s.gpu) := by
      refine .place ?_ (.inl (hframe.trans hnone))
      rintro _ ⟨⟩
      exact hnew
    have huse : Works uid replaces (update s.frames (uid, kind) (some m), s.gpu)
        (update (update s.frames (uid, kind) (some m)) (uid, kind) (some m'), gpu) :=
      .leads (update_self ..) hleads
    rw [update_idem] at huse
    exact hplace.trans huse

theorem works_place {replaces : FrameKind → Prop} (kind : FrameKind)
    (h : s.entities.entities.WellFormed) (hget : s.entities.get? uid = some e)
    (hsame : ∀ other, other ≠ kind → e'.mirror? other = e.mirror? other)
    (hnew : ∀ m, e'.mirror? kind = some m → m.IsNew)
    (hold : e.mirror? kind = none ∨ replaces kind) :
    Works uid replaces (s.frames, s.gpu) (frames ⟨s.entities.put uid e', s.gpu⟩, s.gpu) := by
  have hframe : s.frames (uid, kind) = e.mirror? kind := by rw [frames, hget, Option.bind_some]
  rw [frames_put kind h hget hsame]
  exact .place hnew (hframe ▸ hold)

theorem edit_of_get? (hget : s.entities.get? uid = some e) (f : Entity → Gpu → Entity × Gpu) :
    s.edit uid f = ⟨s.entities.put uid (f e s.gpu).1, (f e s.gpu).2⟩ := by
  rw [edit, hget]

theorem edit_of_none (hget : s.entities.get? uid = none) (f : Entity → Gpu → Entity × Gpu) :
    s.edit uid f = s := by
  rw [edit, hget]

theorem insert_eq_edit (c : Component) :
    s.insert uid c = s.edit uid fun e gpu => (e.put c, gpu) := by
  unfold insert edit EntityRegistry.insert?
  cases s.entities.get? uid <;> rfl

theorem works_put_same (replaces : FrameKind → Prop) (h : s.entities.entities.WellFormed)
    (hget : s.entities.get? uid = some e) (hsame : ∀ kind, e'.mirror? kind = e.mirror? kind) :
    Works uid replaces (s.frames, s.gpu) (frames ⟨s.entities.put uid e', s.gpu⟩, s.gpu) := by
  have hframe : s.frames (uid, .world) = e.mirror? .world := by rw [frames, hget, Option.bind_some]
  rw [frames_put .world h hget fun other _ => hsame other, hsame, ← hframe,
    update_eq_self]
  exact .refl _

theorem works_useTransform (replaces : FrameKind → Prop) (h : s.entities.entities.WellFormed)
    (hget : s.entities.get? uid = some e) (next : Transform.Use) :
    Works uid replaces (s.frames, s.gpu) (frames ⟨s.entities.put uid (e.useTransform next s.gpu).1,
      (e.useTransform next s.gpu).2⟩, (e.useTransform next s.gpu).2) := by
  obtain ⟨id, transform, meshInstance, view⟩ := e
  cases transform with
  | none => exact works_put_same replaces h hget fun _ => rfl
  | some t =>
    refine works_put .world replaces h hget (fun other hother => ?_) (.inl rfl) rfl
      (Transform.leads_use (t, s.gpu) next)
    cases other with
    | world => cases hother rfl
    | view => rfl

theorem works_useView (replaces : FrameKind → Prop) (h : s.entities.entities.WellFormed)
    (hget : s.entities.get? uid = some e) (next : Camera.Use) :
    Works uid replaces (s.frames, s.gpu) (frames ⟨s.entities.put uid (e.useView next s.gpu).1,
      (e.useView next s.gpu).2⟩, (e.useView next s.gpu).2) := by
  obtain ⟨id, transform, meshInstance, view⟩ := e
  cases view with
  | none => exact works_put_same replaces h hget fun _ => rfl
  | some c =>
    refine works_put .view replaces h hget (fun other hother => ?_) (.inl rfl) rfl
      (Camera.leads_use (c, s.gpu) next)
    cases other with
    | world => rfl
    | view => cases hother rfl

theorem works_despawn (replaces : FrameKind → Prop) (h : s.entities.entities.WellFormed)
    (uid : Uid) (hall : ∀ kind, replaces kind) : Works uid replaces (s.frames, s.gpu)
      (frames ⟨(s.entities.despawn uid).value.2, s.gpu⟩, s.gpu) := by
  have hframes : frames ⟨(s.entities.despawn uid).value.2, s.gpu⟩ =
      update (update s.frames (uid, .world) none) (uid, .view) none := by
    funext ⟨other, kind⟩
    have hget : (s.entities.despawn uid).value.2.get? other =
      if other = uid then none else s.entities.get? other := h.get?_remove uid other
    rw [frames, hget]
    by_cases hother : other = uid
    · cases kind <;> simp [hother]
    · simp [hother, frames]
  rw [hframes]
  exact .trans (.place (by simp) (.inr (hall _))) (.place (by simp) (.inr (hall _)))

end Steps

/-! ### What is kept -/

/-- Entities are found under their identifiers, and each frame has buffers of its own, which hold
what it says. -/
structure Sound (s : Sketch) : Prop where
  wellFormed : s.entities.entities.WellFormed
  owned : Owned s.frames s.gpu

section Attach

variable {s : Sketch} {uid : Uid} {e : Entity}

theorem Sound.current (h : s.Sound) (hget : s.entities.get? uid = some e) (kind : FrameKind)
    {m : Mirror} (hm : e.mirror? kind = some m) : m.Current s.gpu :=
  h.owned.current (uid, kind) m (by rw [frames, hget, Option.bind_some, hm])

/-- What is attached to an entity has the buffers of the entity's transform, which is bound. -/
theorem Sound.value_attach (h : s.Sound) (hget : s.entities.get? uid = some e) (mesh : Uid)
    (shader : Shader.Compiled) :
    let bound := ((e.transform.getD .default).bind s.gpu).value.2
    ∃ u i, bound.1.frame.buffers = some u ∧
      (MeshInstance.new mesh shader).value.setEach (MeshInstance.matrixBuffers u) = .ok i ∧
        (s.entities.attach s.gpu uid mesh shader).value = (.ok i, s.entities.put uid
          { e with transform := some bound.1, meshInstance := some i }, bound.2) := by
  intro bound
  have hcurrent : (e.transform.getD .default).frame.mirror.Current s.gpu := by
    cases htransform : e.transform with
    | none => exact (Transform.isNew_ofOrigin .default).current s.gpu
    | some t => exact h.current hget .world (by rw [Entity.mirror?, htransform]; rfl)
  obtain ⟨u, hu⟩ := Transform.exists_buffers_bind _ hcurrent
  obtain ⟨i, hframe, heach⟩ := (MeshInstance.new mesh shader).value.setFrame_eq hu
  refine ⟨u, i, hu, heach, ?_⟩
  rw [EntityRegistry.attach, hget]
  simp only [Logged.value_bind]
  rw [hframe]
  rfl

end Attach

theorem Sound.works_attach {s : Sketch} {uid : Uid} {e : Entity} (replaces : FrameKind → Prop)
    (h : s.Sound) (hget : s.entities.get? uid = some e) (mesh : Uid) (shader : Shader.Compiled) :
    Works uid replaces (s.frames, s.gpu)
      ((s.work uid (.attach mesh shader)).frames, (s.work uid (.attach mesh shader)).gpu) := by
  obtain ⟨u, i, -, -, hattach⟩ := h.value_attach hget mesh shader
  rw [work, hattach]
  refine works_put .world replaces h.wellFormed hget (fun other hother => ?_) ?_ rfl
    (Transform.leads_use (e.transform.getD .default, s.gpu) .bind)
  · cases other with
    | world => cases hother rfl
    | view => rfl
  · cases htransform : e.transform with
    | none => exact .inr ⟨by simp [Entity.mirror?, htransform], Transform.isNew_ofOrigin .default⟩
    | some t => exact .inl (by simp [Entity.mirror?, htransform])

/-- What is done with an entity that stays changes that entity. -/
theorem exists_edit {s : Sketch} {uid : Uid} {w : Work} (hw : w ≠ .despawn) :
    ∃ f, s.work uid w = s.edit uid f := by
  cases w with
  | despawn => exact absurd rfl hw
  | insertTransform _ => exact ⟨_, insert_eq_edit _⟩
  | insertView _ _ _ _ => exact ⟨_, insert_eq_edit _⟩
  | attach mesh shader =>
    cases hget : s.entities.get? uid with
    | none =>
      refine ⟨fun e gpu => (e, gpu), ?_⟩
      rw [edit_of_none hget, work, EntityRegistry.attach, hget]
      rfl
    | some e =>
      let bound := ((e.transform.getD .default).bind s.gpu).value.2
      obtain ⟨e', he'⟩ : ∃ e', s.work uid (.attach mesh shader) =
          ⟨s.entities.put uid e', bound.2⟩ := by
        rw [work, EntityRegistry.attach, hget]
        simp only [Logged.value_bind]
        split
        · exact ⟨_, rfl⟩
        · exact ⟨_, rfl⟩
      refine ⟨fun _ _ => (e', bound.2), ?_⟩
      rw [he', edit_of_get? hget]
  | useTransform _ => exact ⟨_, rfl⟩
  | useView _ => exact ⟨_, rfl⟩

/-- What is done with an entity is done to its frames. -/
theorem Sound.works_work {s : Sketch} (h : s.Sound) (uid : Uid) (w : Work) :
    Works uid w.Replaces (s.frames, s.gpu) ((s.work uid w).frames, (s.work uid w).gpu) := by
  by_cases hw : w = .despawn
  · subst hw
    exact works_despawn _ h.wellFormed uid fun _ => trivial
  cases hget : s.entities.get? uid with
  | none =>
    obtain ⟨f, hf⟩ := exists_edit hw
    rw [hf, edit_of_none hget]
    exact .refl _
  | some e =>
    cases w with
    | despawn => exact absurd rfl hw
    | insertTransform origin =>
      rw [work, insert_eq_edit, edit_of_get? hget]
      refine works_place .world h.wellFormed hget (fun other hother => ?_) ?_ (.inr rfl)
      · cases other with
        | world => cases hother rfl
        | view => rfl
      · rintro _ ⟨⟩
        exact Transform.isNew_ofOrigin origin
    | insertView projection aspect near far =>
      rw [work, insert_eq_edit, edit_of_get? hget]
      refine works_place .view h.wellFormed hget (fun other hother => ?_) ?_ (.inr rfl)
      · cases other with
        | world => rfl
        | view => cases hother rfl
      · rintro _ ⟨⟩
        exact Camera.isNew_new projection aspect near far
    | attach mesh shader => exact h.works_attach _ hget mesh shader
    | useTransform next =>
      rw [work, edit_of_get? hget]
      exact works_useTransform _ h.wellFormed hget next
    | useView next =>
      rw [work, edit_of_get? hget]
      exact works_useView _ h.wellFormed hget next

theorem Sound.work {s : Sketch} (h : s.Sound) (uid : Uid) (w : Work) : (s.work uid w).Sound := by
  refine ⟨?_, (h.works_work uid w).owned h.owned⟩
  by_cases hw : w = .despawn
  · subst hw
    exact h.wellFormed.remove uid
  · obtain ⟨f, hf⟩ := exists_edit hw
    rw [hf, edit]
    split
    · exact h.wellFormed
    · exact h.wellFormed.modify uid _

theorem frames_spawn {s : Sketch} (h : s.entities.entities.WellFormed) :
    (s.act .spawn).frames = s.frames := by
  funext ⟨uid, kind⟩
  have hget : (s.act .spawn).entities.get? uid =
      if uid = s.entities.spawn.1 then some { uid := s.entities.spawn.1 }
      else s.entities.get? uid := h.get?_insertWith (fun uid => { uid }) uid
  have hfresh : s.entities.get? s.entities.spawn.1 = none :=
    (h.insertWith_fresh fun uid => { uid }).2
  rw [frames, frames, hget]
  split
  next huid =>
    rw [huid, hfresh]
    cases kind <;> rfl
  · rfl

theorem Sound.spawn {s : Sketch} (h : s.Sound) : (s.act .spawn).Sound :=
  ⟨h.wellFormed.insertWith fun uid => { uid }, frames_spawn h.wellFormed ▸ h.owned⟩

theorem sound_start (gpu : Gpu) : (start gpu).Sound where
  wellFormed := Registry.wellFormed_empty
  owned := by
    have hframes : ∀ k, (start gpu).frames k = none := by
      intro ⟨uid, kind⟩
      have hget : (start gpu).entities.get? uid = none := by cases uid <;> rfl
      rw [frames, hget, Option.bind_none]
    constructor <;> simp [hframes]

/-! ### Updates -/

/-- Whether an action uploads one frame. -/
def Action.IsBind (a : Action) : Prop :=
  ∃ uid, a = .work uid (.useTransform .bind) ∨ a = .work uid (.useView .bind)

theorem run_concat (s : Sketch) (actions : List Action) (a : Action) :
    s.run (actions ++ [a]) = (s.run actions).act a :=
  List.foldl_concat ..

theorem put_put {r : EntityRegistry} (h : r.entities.WellFormed) {uid : Uid} {e : Entity}
    (hget : r.get? uid = some e) (e₁ e₂ : Entity) : (r.put uid e₁).put uid e₂ = r.put uid e₂ := by
  have hget₁ : (r.put uid e₁).entities.get? uid = some e₁ :=
    (get?_put h hget uid).trans (if_pos rfl)
  have hget₀ : r.entities.get? uid = some e := hget
  rw [EntityRegistry.put, Registry.modify, hget₁]
  simp only [EntityRegistry.put, Registry.modify, hget₀, Array.setIfInBounds_setIfInBounds]

/-- To update one entity is to bind its transform and its camera. -/
theorem work_bind_bind {s : Sketch} {uid : Uid} {e : Entity} (h : s.entities.entities.WellFormed)
    (hget : s.entities.get? uid = some e) :
    (s.work uid (.useTransform .bind)).work uid (.useView .bind) =
      ⟨s.entities.put uid (e.update s.gpu).value.1, (e.update s.gpu).value.2⟩ := by
  have hfirst : s.work uid (.useTransform .bind) = ⟨s.entities.put uid
      (e.useTransform .bind s.gpu).1, (e.useTransform .bind s.gpu).2⟩ := edit_of_get? hget _
  have hget' : (s.entities.put uid (e.useTransform .bind s.gpu).1).get? uid =
      some (e.useTransform .bind s.gpu).1 := by rw [get?_put h hget, if_pos rfl]
  rw [hfirst, work, edit_of_get? hget', put_put h hget, e.value_update]

/-- An update is one bind after another for the entities that there are, and then no frame has
changed since it was bound. -/
theorem exists_binds {s : Sketch} (h : s.Sound) :
    (∃ binds, (∀ a ∈ binds, Action.IsBind a) ∧ s.act .update = s.run binds) ∧
      (∀ uid, ((s.act .update).entities.get? uid).isSome = (s.entities.get? uid).isSome) ∧
        ∀ uid e, (s.act .update).entities.get? uid = some e → e.Settled := by
  -- Below `uid`, the entities have been bound.
  let P (uid : Uid) (r : Registry Entity) (gpu : Gpu) : Prop :=
    (∃ binds, (∀ a ∈ binds, Action.IsBind a) ∧ ⟨⟨r⟩, gpu⟩ = s.run binds) ∧
      (∀ other, (r.get? other).isSome = (s.entities.get? other).isSome) ∧
        ∀ other < uid, ∀ e, r.get? other = some e → e.Settled
  have hstart : P 0 s.entities.entities s.gpu :=
    ⟨⟨[], by simp, rfl⟩, fun _ => rfl, fun _ hlt => absurd hlt (Nat.not_lt_zero _)⟩
  have hempty : ∀ uid r gpu, P uid r gpu → r.get? uid = none → P (uid + 1) r gpu := by
    intro uid r gpu hP hget
    refine ⟨hP.1, hP.2.1, fun other hlt e he => ?_⟩
    rcases Nat.lt_succ_iff_lt_or_eq.1 hlt with hlt | rfl
    · exact hP.2.2 other hlt e he
    · cases hget.symm.trans he
  have hobject : ∀ uid r gpu e e' gpu', r.WellFormed → P uid r gpu → r.get? uid = some e →
      (e.update gpu).value = (e', gpu') → P (uid + 1) (r.modify uid fun _ => e') gpu' := by
    intro uid r gpu e e' gpu' hwell hP hget hupdate
    obtain ⟨⟨binds, hbinds, hrun⟩, hlive, hsettled⟩ := hP
    refine ⟨⟨binds ++ [.work uid (.useTransform .bind)] ++ [.work uid (.useView .bind)], ?_, ?_⟩,
      fun other => ?_, fun other hlt e₁ he₁ => ?_⟩
    · intro a ha
      rw [List.append_assoc, List.mem_append] at ha
      rcases ha with ha | ha
      · exact hbinds a ha
      · exact ⟨uid, by simpa using ha⟩
    · rw [run_concat, run_concat, ← hrun, act, act]
      have hboth := work_bind_bind (s := ⟨⟨r⟩, gpu⟩) hwell hget
      rw [hboth, hupdate]
      rfl
    · rw [hwell.get?_modify, hget, ← hlive other]
      split
      next hother => rw [hother, hget]; rfl
      next => rfl
    · rw [hwell.get?_modify, hget, Option.map_some] at he₁
      split at he₁
      · obtain rfl := Option.some.inj he₁
        have hsettled' := e.settled_update gpu
        rwa [hupdate] at hsettled'
      next hne =>
        exact hsettled other (Nat.lt_of_le_of_ne (Nat.lt_succ_iff.1 hlt) hne) e₁ he₁
  let step (_ : Uid) (e : Entity) : StateT Gpu Logged Entity := fun gpu => e.update gpu
  obtain ⟨hwell, hbinds, hlive, hsettled⟩ :=
    Registry.mapM_induct (P := P) Results.logged hempty hobject
      (r := s.entities.entities) (f := step) (s := s.gpu) rfl h.wellFormed hstart
  refine ⟨hbinds, hlive, fun uid e he => hsettled uid ?_ e he⟩
  exact hwell.lt_size he

/-- What holds of a sound sketch and is kept by what is done short of updates holds after a run. -/
theorem Sound.run_induct {P : Sketch → Prop} {allowed : Action → Prop}
    (hbind : ∀ a, Action.IsBind a → allowed a)
    (hact : ∀ s a, s.Sound → P s → allowed a → a ≠ .update → P (s.act a))
    {s : Sketch} (h : s.Sound) (hP : P s) (actions : List Action)
    (hall : ∀ a ∈ actions, allowed a) : (s.run actions).Sound ∧ P (s.run actions) := by
  have hone : ∀ s a, s.Sound → P s → allowed a → a ≠ .update → (s.act a).Sound ∧ P (s.act a) := by
    intro s a h hP ha hne
    refine ⟨?_, hact s a h hP ha hne⟩
    cases a with
    | spawn => exact h.spawn
    | work uid w => exact h.work uid w
    | update => exact absurd rfl hne
  have hbinds : ∀ binds s, s.Sound → P s → (∀ a ∈ binds, Action.IsBind a) →
      (s.run binds).Sound ∧ P (s.run binds) := by
    intro binds
    induction binds with
    | nil => exact fun s h hP _ => ⟨h, hP⟩
    | cons a binds ih =>
      intro s h hP hall
      obtain ⟨ha, hrest⟩ := List.forall_mem_cons.1 hall
      have hne : a ≠ .update := by
        obtain ⟨uid, rfl | rfl⟩ := ha <;> exact Action.noConfusion
      obtain ⟨h', hP'⟩ := hone s a h hP (hbind a ha) hne
      exact ih _ h' hP' hrest
  induction actions generalizing s with
  | nil => exact ⟨h, hP⟩
  | cons a actions ih =>
    obtain ⟨ha, hrest⟩ := List.forall_mem_cons.1 hall
    by_cases hne : a = .update
    · subst hne
      obtain ⟨⟨binds, hall', hrun⟩, -⟩ := exists_binds h
      obtain ⟨h', hP'⟩ := hbinds binds s h hP hall'
      rw [← hrun] at h' hP'
      exact ih h' hP' hrest
    · obtain ⟨h', hP'⟩ := hone s a h hP ha hne
      exact ih h' hP' hrest

theorem Sound.run {s : Sketch} (h : s.Sound) (actions : List Action) : (s.run actions).Sound := by
  have hall : ∀ a ∈ actions, (fun _ : Action => True) a := fun _ _ => trivial
  exact (h.run_induct (P := fun _ => True) (fun _ _ => trivial) (fun _ _ _ _ _ _ => trivial)
    trivial actions hall).1

/-- Whether an action may take the transform from an entity. -/
def Action.Replaces (uid : Uid) : Action → Prop
  | .work other w => other = uid ∧ w.Replaces .world
  | _ => False

/-- The buffers of a transform that is not replaced are those that it got first. -/
theorem Sound.buffers_run {s : Sketch} {uid : Uid} {u : Uniforms} (h : s.Sound)
    (hu : ∃ m, s.frames (uid, .world) = some m ∧ m.buffers = some u) (actions : List Action)
    (hkept : ∀ a ∈ actions, ¬a.Replaces uid) :
    ∃ m, (s.run actions).frames (uid, .world) = some m ∧ m.buffers = some u := by
  refine (h.run_induct (P := fun s => ∃ m, s.frames (uid, .world) = some m ∧ m.buffers = some u)
    ?_ ?_ hu actions hkept).2
  · rintro a ⟨other, rfl | rfl⟩ ⟨-, hreplaces⟩ <;> exact hreplaces
  · intro s a h ⟨m, hm, hbuffers⟩ ha hne
    cases a with
    | spawn => exact ⟨m, (congrFun (frames_spawn h.wellFormed) _).trans hm, hbuffers⟩
    | update => exact absurd rfl hne
    | work other w =>
      have hworks := h.works_work other w
      by_cases hother : other = uid
      · subst hother
        exact hworks.buffers (fun hreplaces => ha ⟨rfl, hreplaces⟩) hm hbuffers
      · exact ⟨m, (hworks.others h.owned (Ne.symm hother)).1.trans hm, hbuffers⟩

theorem Sound.uploaded {s : Sketch} {uid : Uid} {e : Entity} (h : s.Sound)
    (hget : s.entities.get? uid = some e) (hsettled : e.Settled) : e.Uploaded s.gpu where
  transform t ht :=
    ⟨hsettled.1 t ht, h.current hget .world (m := t.frame.mirror) (by rw [Entity.mirror?, ht]; rfl)
      (hsettled.1 t ht).2⟩
  view c hc :=
    ⟨hsettled.2 c hc, h.current hget .view (m := c.frame.mirror) (by rw [Entity.mirror?, hc]; rfl)
      (hsettled.2 c hc).2⟩

/-- Where no frame has changed, an update asks nothing of the graphics processor. -/
theorem gpu_update_of_settled {s : Sketch} (h : s.Sound)
    (hsettled : ∀ uid e, s.entities.get? uid = some e → e.Settled) :
    (s.act .update).gpu = s.gpu := by
  let P (_ : Uid) (r : Registry Entity) (gpu : Gpu) : Prop :=
    gpu = s.gpu ∧ ∀ uid, r.get? uid = s.entities.get? uid
  have hobject : ∀ uid r gpu e e' gpu', r.WellFormed → P uid r gpu → r.get? uid = some e →
      (e.update gpu).value = (e', gpu') → P (uid + 1) (r.modify uid fun _ => e') gpu' := by
    intro uid r gpu e e' gpu' hwell ⟨hgpu, hsame⟩ hget hupdate
    rw [Entity.update_of_settled (hsettled uid e ((hsame uid).symm.trans hget))] at hupdate
    cases hupdate
    refine ⟨hgpu, fun other => ?_⟩
    rw [hwell.get?_modify, hget, Option.map_some]
    split
    next hother => rw [hother, ← hsame, hget]
    next => exact hsame other
  let step (_ : Uid) (e : Entity) : StateT Gpu Logged Entity := fun gpu => e.update gpu
  exact (Registry.mapM_induct (P := P) Results.logged (fun _ _ _ hP _ => hP) hobject
    (r := s.entities.entities) (f := step) (s := s.gpu) rfl h.wellFormed ⟨rfl, fun _ => rfl⟩).2.1

/-- What can be relied on in a sketch, whatever was done before. -/
structure Reliable (s : Sketch) : Prop where
  /-- No two frames have a buffer in common. -/
  owned : Owned s.frames s.gpu
  attach_ok_iff : ∀ uid mesh shader,
    (∃ i, (s.entities.attach s.gpu uid mesh shader).value.1 = .ok i) ↔
      ∃ e, s.entities.get? uid = some e
  /-- What is attached to an entity has the buffers of the entity's transform, now and as long as
  the transform is not replaced. -/
  attached : ∀ uid mesh shader i, (s.entities.attach s.gpu uid mesh shader).value.1 = .ok i →
    ∃ u, (MeshInstance.new mesh shader).value.setEach (MeshInstance.matrixBuffers u) = .ok i ∧
      ∀ more, (∀ a ∈ more, ¬Action.Replaces uid a) → ∃ e t,
        ((s.work uid (.attach mesh shader)).run more).entities.get? uid = some e ∧
          e.transform = some t ∧ t.frame.buffers = some u
  /-- What is done with one entity spares the buffers of every other. -/
  spares : ∀ uid w other e kind m, other ≠ uid → s.entities.get? other = some e →
    e.mirror? kind = some m → ∀ handle ∈ m.handles,
      (s.work uid w).gpu.contents? handle = s.gpu.contents? handle
  /-- An update binds one frame after another. -/
  update_eq_run : ∃ binds, (∀ a ∈ binds, Action.IsBind a) ∧ s.act .update = s.run binds
  live : ∀ uid, ((s.act .update).entities.get? uid).isSome = (s.entities.get? uid).isSome
  updated : ∀ uid e, (s.act .update).entities.get? uid = some e → e.Uploaded (s.act .update).gpu
  again : ((s.act .update).act .update).gpu = (s.act .update).gpu

theorem Sound.reliable {s : Sketch} (h : s.Sound) : s.Reliable := by
  have hupdate : (s.act .update).Sound := h.run [.update]
  obtain ⟨hbinds, hlive, hsettled⟩ := exists_binds h
  refine ⟨h.owned, fun uid mesh shader => ⟨?_, ?_⟩, ?_, ?_, hbinds, hlive,
    fun uid e he => hupdate.uploaded he (hsettled uid e he), gpu_update_of_settled hupdate hsettled⟩
  · rintro ⟨i, hi⟩
    cases hget : s.entities.get? uid with
    | none =>
      rw [EntityRegistry.attach, hget] at hi
      cases hi
    | some e => exact ⟨e, rfl⟩
  · rintro ⟨e, hget⟩
    obtain ⟨u, i, -, -, hattach⟩ := h.value_attach hget mesh shader
    exact ⟨i, by rw [hattach]⟩
  · intro uid mesh shader i hi
    cases hget : s.entities.get? uid with
    | none =>
      rw [EntityRegistry.attach, hget] at hi
      cases hi
    | some e =>
      obtain ⟨u, i', hu, heach, hattach⟩ := h.value_attach hget mesh shader
      obtain rfl : i' = i := by
        rw [hattach] at hi
        exact Except.ok.inj hi
      refine ⟨u, heach, fun more hkept => ?_⟩
      have hframe : ∃ m, (s.work uid (.attach mesh shader)).frames (uid, .world) = some m ∧
          m.buffers = some u := by
        rw [frames, Sketch.work, hattach, get?_put h.wellFormed hget, if_pos rfl]
        exact ⟨_, rfl, hu⟩
      obtain ⟨m, hm, hbuffers⟩ := (h.work uid (.attach mesh shader)).buffers_run hframe more hkept
      obtain ⟨e', he', hm⟩ := Option.bind_eq_some_iff.1 hm
      obtain ⟨t, ht, rfl⟩ := Option.map_eq_some_iff.1 hm
      exact ⟨e', t, he', ht, hbuffers⟩
  · intro uid w other e kind m hother hget hm
    have hframe : s.frames (other, kind) = some m := by rw [frames, hget, Option.bind_some, hm]
    exact ((h.works_work uid w).others h.owned hother).2 m hframe

/-- Whatever is done, with any number of entities, leads to a sketch that can be relied on. -/
theorem run_reliable (gpu : Gpu) (actions : List Action) : ((start gpu).run actions).Reliable :=
  ((sound_start gpu).run actions).reliable

end Sketch

end Diorama

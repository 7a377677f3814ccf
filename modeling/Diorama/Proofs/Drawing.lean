import Diorama.Entity.Registry
import Diorama.Proofs.FiniteMap
import Mathlib.Data.Set.Card

/-! Drawing the entities of a registry.  Either each mesh instance can be drawn, and they are
counted, or the one under the least identifier that cannot decides the error.  Entities without a
mesh instance have no part in it. -/

namespace Diorama

/-- In a list in the order of keys, the first member with a property is the one of the least key. -/
theorem isFirst_iff_least {α : Type} {p : Nat × α → Prop} {as : List (Nat × α)} {a : Nat × α}
    (hsorted : as.Pairwise (·.1 < ·.1)) :
    IsFirst p as a ↔ a ∈ as ∧ p a ∧ ∀ b ∈ as, b.1 < a.1 → ¬p b := by
  constructor
  · rintro ⟨before, after, rfl, hbefore, ha⟩
    refine ⟨by simp, ha, fun b hb hlt => ?_⟩
    obtain ⟨-, hafter, -⟩ := List.pairwise_append.1 hsorted
    rcases List.mem_append.1 hb with hb | hb
    · exact hbefore b hb
    · rcases List.mem_cons.1 hb with rfl | hb
      · exact absurd hlt (Nat.lt_irrefl _)
      · exact absurd ((List.pairwise_cons.1 hafter).1 b hb) (Nat.lt_asymm hlt)
  · rintro ⟨hmem, ha, hleast⟩
    obtain ⟨before, after, rfl⟩ := List.append_of_mem hmem
    obtain ⟨-, -, hbefore⟩ := List.pairwise_append.1 hsorted
    exact ⟨before, after, rfl, fun b hb => hleast b (List.mem_append_left _ hb)
      (hbefore b hb a List.mem_cons_self), ha⟩

namespace MeshInstance

variable {meshes : Registry Mesh} {i : MeshInstance} {e : RenderError}

/-- The instance is baked, and its mesh is there with its indices stored. -/
structure Drawable (meshes : Registry Mesh) (i : MeshInstance) : Prop where
  baked : i.isBaked = true
  stored : ∃ mesh, meshes.get? i.mesh = some mesh ∧ mesh.indexBuffer?.isSome = true

/-- What keeps an instance from being drawn: of several causes, the one that stands first here. -/
inductive Undrawable (meshes : Registry Mesh) (i : MeshInstance) : RenderError → Prop
  | notBaked (hbaked : i.isBaked = false) : Undrawable meshes i (.notBaked i.mesh)
  | unknownMesh (hbaked : i.isBaked = true) (hmesh : meshes.get? i.mesh = none) :
    Undrawable meshes i (.resource (.unknownUid i.mesh))
  | notStored {mesh : Mesh} (hbaked : i.isBaked = true) (hmesh : meshes.get? i.mesh = some mesh)
      (hindices : mesh.indexBuffer? = none) :
    Undrawable meshes i (.resource (.notReady s!"index buffer of mesh {mesh.name}"))

theorem draw_cases (meshes : Registry Mesh) (i : MeshInstance) :
    i.draw meshes = .ok () ∧ i.Drawable meshes ∨
      ∃ e, i.draw meshes = .error e ∧ i.Undrawable meshes e := by
  unfold draw
  cases hbaked : i.baked with
  | none => exact .inr ⟨_, rfl, .notBaked (by rw [isBaked, hbaked]; rfl)⟩
  | some group =>
    have hisBaked : i.isBaked = true := by rw [isBaked, hbaked]; rfl
    cases hmesh : meshes.get? i.mesh with
    | none => exact .inr ⟨_, rfl, .unknownMesh hisBaked hmesh⟩
    | some mesh =>
      cases hindices : mesh.indexBuffer? with
      | none => exact .inr ⟨_, by simp only [hindices], .notStored hisBaked hmesh hindices⟩
      | some buffer =>
        exact .inl ⟨by simp only [hindices], hisBaked, mesh, hmesh, by rw [hindices]; rfl⟩

theorem Drawable.not_undrawable (h : i.Drawable meshes) : ¬i.Undrawable meshes e := by
  obtain ⟨hbaked, mesh, hmesh, hstored⟩ := h
  rintro (hnot | ⟨-, hnone⟩ | ⟨-, hother, hindices⟩)
  · simp [hbaked] at hnot
  · simp [hmesh] at hnone
  · cases hmesh.symm.trans hother
    simp [hindices] at hstored

theorem Undrawable.unique {e' : RenderError} (h : i.Undrawable meshes e)
    (h' : i.Undrawable meshes e') : e = e' := by
  cases h <;> cases h' <;> simp_all

theorem draw_eq_ok_iff : i.draw meshes = .ok () ↔ i.Drawable meshes := by
  rcases draw_cases meshes i with ⟨hok, h⟩ | ⟨e, herror, h⟩
  · simp [hok, h]
  · have hnot : ¬i.Drawable meshes := fun hdrawable => hdrawable.not_undrawable h
    simp [herror, hnot]

theorem draw_eq_error_iff : i.draw meshes = .error e ↔ i.Undrawable meshes e := by
  rcases draw_cases meshes i with ⟨hok, h⟩ | ⟨e', herror, h⟩
  · simp [hok, h.not_undrawable]
  · rw [herror, Except.error.injEq]
    exact ⟨fun heq => heq ▸ h, h.unique⟩

end MeshInstance

namespace EntityRegistry

variable {r : EntityRegistry} {uid : Uid} {i : MeshInstance}

def instance? (r : EntityRegistry) (uid : Uid) : Option MeshInstance :=
  (r.get? uid).bind (·.meshInstance)

/-- The mesh instances with their identifiers, in the order of identifiers. -/
def instances (r : EntityRegistry) : List (Uid × MeshInstance) :=
  r.entities.toList.filterMap fun (uid, e) => e.meshInstance.map (uid, ·)

theorem mem_instances (h : r.entities.WellFormed) :
    (uid, i) ∈ r.instances ↔ r.instance? uid = some i := by
  have hmem (e : Entity) : (uid, e) ∈ r.entities.toList ↔ r.get? uid = some e := by
    rw [Registry.mem_toList, ← h.get?_eq]
    rfl
  simp only [instances, instance?, List.mem_filterMap, Prod.exists, Option.map_eq_some_iff,
    Prod.mk.injEq, Option.bind_eq_some_iff]
  constructor
  · rintro ⟨_, e, he, _, hi, rfl, rfl⟩
    exact ⟨e, (hmem e).1 he, hi⟩
  · rintro ⟨e, he, hi⟩
    exact ⟨uid, e, (hmem e).2 he, i, hi, rfl, rfl⟩

theorem pairwise_instances (r : EntityRegistry) : r.instances.Pairwise (·.1 < ·.1) := by
  rw [instances, List.pairwise_filterMap]
  refine r.entities.pairwise_toList.imp fun hlt a ha b hb => ?_
  obtain ⟨_, -, rfl⟩ := Option.map_eq_some_iff.1 ha
  obtain ⟨_, -, rfl⟩ := Option.map_eq_some_iff.1 hb
  exact hlt

theorem length_instances (h : r.entities.WellFormed) :
    r.instances.length = {uid | (r.instance? uid).isSome}.ncard := by
  have hnodup : (r.instances.map (·.1)).Nodup :=
    List.pairwise_map.2 (r.pairwise_instances.imp Nat.ne_of_lt)
  have hset : {uid | (r.instance? uid).isSome} = ((r.instances.map (·.1)).toFinset : Set Uid) := by
    ext uid
    simp [Option.isSome_iff_exists, mem_instances h]
  rw [hset, Set.ncard_coe_finset, List.toFinset_card_of_nodup hnodup, List.length_map]

theorem draw_eq (r : EntityRegistry) (meshes : Registry Mesh) : r.draw meshes =
    Except.map List.length ((r.instances.map (·.2)).mapM fun i => i.draw meshes) := by
  have hinstances : r.entities.objects.filterMap (·.meshInstance) = r.instances.map (·.2) := by
    simp only [Registry.objects, instances, List.filterMap_map, List.map_filterMap]
    refine List.filterMap_congr fun ⟨uid, e⟩ _ => ?_
    cases hi : e.meshInstance <;> simp [hi]
  rw [draw, hinstances]
  rfl

/-- The result of drawing the mesh instances that stand under identifiers. -/
structure Draws (meshes : Registry Mesh) (instances : Uid → Option MeshInstance)
    (result : Except RenderError Nat) : Prop where
  ok_iff : ∀ n, result = .ok n ↔
    (∀ uid i, instances uid = some i → i.Drawable meshes) ∧ n = {uid | (instances uid).isSome}.ncard
  error_iff : ∀ e, result = .error e ↔ ∃ uid i, instances uid = some i ∧ i.Undrawable meshes e ∧
    ∀ other < uid, ∀ j, instances other = some j → j.Drawable meshes

theorem Draws.unique {meshes : Registry Mesh} {instances : Uid → Option MeshInstance}
    {result other : Except RenderError Nat} (h : Draws meshes instances result)
    (h' : Draws meshes instances other) : result = other := by
  cases hresult : result with
  | ok n => exact ((h'.ok_iff n).2 ((h.ok_iff n).1 hresult)).symm
  | error e => exact ((h'.error_iff e).2 ((h.error_iff e).1 hresult)).symm

theorem draws_draw (h : r.entities.WellFormed) (meshes : Registry Mesh) :
    Draws meshes r.instance? (r.draw meshes) := by
  have hdraw (i : MeshInstance) : (∃ u, i.draw meshes = .ok u) ↔ i.Drawable meshes :=
    ⟨fun ⟨_, hu⟩ => MeshInstance.draw_eq_ok_iff.1 hu, fun hi =>
      ⟨(), MeshInstance.draw_eq_ok_iff.2 hi⟩⟩
  constructor
  · intro n
    have hall : (∃ drawn, (r.instances.map (·.2)).mapM (fun i => i.draw meshes) = .ok drawn) ↔
        ∀ uid i, r.instance? uid = some i → i.Drawable meshes := by
      simp [exists_mapM_eq_ok_iff, hdraw, mem_instances h]
    rw [draw_eq, map_eq_ok_iff, ← hall, ← length_instances h]
    constructor
    · rintro ⟨drawn, hdrawn, rfl⟩
      exact ⟨⟨drawn, hdrawn⟩, by rw [length_of_mapM hdrawn, List.length_map]⟩
    · rintro ⟨⟨drawn, hdrawn⟩, rfl⟩
      exact ⟨drawn, hdrawn, by rw [length_of_mapM hdrawn, List.length_map]⟩
  · intro e
    have hmap {x : Except RenderError (List Unit)} :
        x.map List.length = .error e ↔ x = .error e := by
      cases x <;> simp [Except.map]
    rw [draw_eq, hmap, mapM_eq_error_iff_isFirst]
    simp only [isFirst_map_iff, isFirst_iff_least r.pairwise_instances, hdraw,
      MeshInstance.draw_eq_error_iff, not_not, Prod.forall, Prod.exists, mem_instances h]
    constructor
    · rintro ⟨i, ⟨uid, _, ⟨hget, -, hleast⟩, rfl⟩, he⟩
      exact ⟨uid, _, hget, he, fun other hlt j hj => hleast other j hj hlt⟩
    · rintro ⟨uid, i, hget, he, hleast⟩
      exact ⟨i, ⟨uid, i, ⟨hget, fun hi => hi.not_undrawable he, fun other j hj hlt =>
        hleast other hlt j hj⟩, rfl⟩, he⟩

/-- Drawing counts the entities with a mesh instance if each can be drawn, and else gives the cause
for the one of the least identifier that cannot.  Nothing but the instances decides the result. -/
theorem draw_verdict (h : r.entities.WellFormed) (meshes : Registry Mesh) :
    Draws meshes r.instance? (r.draw meshes) ∧ ∀ r' : EntityRegistry, r'.entities.WellFormed →
      r'.instance? = r.instance? → r'.draw meshes = r.draw meshes := by
  refine ⟨draws_draw h meshes, fun r' h' hsame => ?_⟩
  have hdraws := draws_draw h' meshes
  rw [hsame] at hdraws
  exact hdraws.unique (draws_draw h meshes)

theorem wellFormed_spawn (h : r.entities.WellFormed) : r.spawn.2.entities.WellFormed :=
  h.insertWith fun uid => { uid }

theorem get?_spawn (h : r.entities.WellFormed) (uid : Uid) : r.spawn.2.get? uid =
    if uid = r.spawn.1 then some { uid := r.spawn.1 } else r.get? uid :=
  h.get?_insertWith (fun uid => { uid }) uid

/-- A new entity has no mesh instance. -/
theorem instance?_spawn (h : r.entities.WellFormed) : r.spawn.2.instance? = r.instance? := by
  funext uid
  have hfresh : r.get? r.spawn.1 = none := (h.insertWith_fresh fun uid => { uid }).2
  rw [instance?, instance?, get?_spawn h]
  split
  next hnew =>
    rw [hnew, hfresh]
    rfl
  · rfl

/-- An instance of a shader without bindings. -/
def unbound (mesh : Uid) (baked : Option BindGroup) : MeshInstance :=
  ⟨mesh, ⟨⟨"s", ⟨"v", ""⟩, ⟨"f", ""⟩, [], [], [], []⟩, []⟩, [], 1, {}, baked⟩

/-- An entity without an instance, one with an instance of a mesh that is not there, and one with an
instance that was not baked. -/
def queue : EntityRegistry :=
  ⟨(((Registry.empty.insertWith fun uid => { uid }).2.insertWith
    fun uid => { uid, meshInstance := some (unbound 9 (some [])) }).2.insertWith
      fun uid => { uid, meshInstance := some (unbound 1 none) }).2⟩

theorem wellFormed_queue : queue.entities.WellFormed := by
  have hempty : (Registry.empty : Registry Entity).WellFormed := Registry.wellFormed_empty
  simp only [queue]
  exact ((hempty.insertWith _).insertWith _).insertWith _

/-- The missing mesh decides, not the entity before nor the one after, nor one that is added. -/
theorem draw_verdict_queue :
    queue.entities.WellFormed ∧ queue.spawn.2.entities.WellFormed ∧
      queue.spawn.2.instance? = queue.instance? ∧
        queue.spawn.2.draw .empty = .error (.resource (.unknownUid 9)) := by
  have hspawn := wellFormed_spawn wellFormed_queue
  have hsame := instance?_spawn wellFormed_queue
  obtain ⟨hdraws, hframe⟩ := draw_verdict wellFormed_queue .empty
  refine ⟨wellFormed_queue, hspawn, hsame, (hframe _ hspawn hsame).trans ?_⟩
  refine (hdraws.error_iff _).2 ⟨2, unbound 9 (some []), rfl, .unknownMesh rfl rfl, ?_⟩
  intro other hlt j hj
  match other, hlt with
  | 0, _ => cases hj
  | 1, _ => cases hj

end EntityRegistry

end Diorama

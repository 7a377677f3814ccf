import Diorama.Proofs.Drawing
import Diorama.Proofs.Sketch
import Mathlib.Logic.Function.Basic

/-! The components of entities, after any calls.  Each entity is stored under its own identifier, a
call changes the components of one entity at most, and an identifier that is handed out again comes
without the components that were under it before. -/

namespace Diorama

/-- The components of an entity, by kind. -/
abbrev Components := ComponentKind → Option Component

namespace Entity

@[simp] theorem uid_put (e : Entity) (c : Component) : (e.put c).uid = e.uid := by
  cases c <;> rfl

@[simp] theorem uid_clear (e : Entity) (kind : ComponentKind) : (e.clear kind).uid = e.uid := by
  cases kind <;> rfl

theorem component?_new (uid : Uid) : ({ uid } : Entity).component? = fun _ => none := by
  funext kind
  cases kind <;> rfl

theorem component?_put (e : Entity) (c : Component) :
    (e.put c).component? = Function.update e.component? c.kind (some c) := by
  funext kind
  cases c <;> cases kind <;> rfl

theorem component?_clear (e : Entity) (kind : ComponentKind) :
    (e.clear kind).component? = Function.update e.component? kind none := by
  funext other
  cases kind <;> cases other <;> rfl

end Entity

namespace EntityRegistry

inductive Call where
  | spawn
  | despawn (uid : Uid)
  | insert (uid : Uid) (c : Component)
  | remove (uid : Uid) (kind : ComponentKind)
  | attach (gpu : Gpu) (uid mesh : Uid) (shader : Shader.Compiled)

def call (r : EntityRegistry) : Call → EntityRegistry
  | .spawn => r.spawn.2
  | .despawn uid => (r.despawn uid).value.2
  | .insert uid c => ((r.insert? uid c).map (·.2)).getD r
  | .remove uid kind => ((r.remove? uid kind).map (·.2)).getD r
  | .attach gpu uid mesh shader => (r.attach gpu uid mesh shader).value.2.1

/-- The entities after calls, with none at the start. -/
def run (calls : List Call) : EntityRegistry := calls.foldl call {}

/-- The components under each identifier that is in use. -/
def table (r : EntityRegistry) (uid : Uid) : Option Components := (r.get? uid).map (·.component?)

/-- What attaching makes of the components of an entity: its transform, or the default one, is
bound, and there is an instance if one could be attached. -/
def attached (e : Entity) (gpu : Gpu) (result : Except RenderError MeshInstance) : Components :=
  let t := ((e.transform.getD .default).bind gpu).value.2.1
  let components := Function.update e.component? .transform (some (.transform t))
  match result with
  | .error _ => components
  | .ok i => Function.update components .meshInstance (some (.meshInstance i))

/-- Calls do with the components what they say, and nothing else. -/
structure Faithful (r : EntityRegistry) : Prop where
  uid_eq : ∀ uid e, r.get? uid = some e → e.uid = uid
  /-- A new entity has no components, and its identifier was not in use. -/
  spawn : r.spawn.1 ≠ 0 ∧ r.table r.spawn.1 = none ∧
    r.spawn.2.table = Function.update r.table r.spawn.1 (some fun _ => none)
  despawn : ∀ uid, (r.despawn uid).value.1 = r.get? uid ∧
    (r.despawn uid).value.2.table = Function.update r.table uid none
  /-- The identifier of an entity that is removed is the next to be handed out, and nothing is left
  of the entity's components. -/
  respawn : ∀ uid e, r.get? uid = some e → (r.despawn uid).value.2.spawn.1 = uid ∧
    (r.despawn uid).value.2.spawn.2.table = Function.update r.table uid (some fun _ => none)
  insert : ∀ uid c components, r.table uid = some components → ∃ r',
    r.insert? uid c = some (components c.kind, r') ∧
      r'.table = Function.update r.table uid (some (Function.update components c.kind (some c)))
  remove : ∀ uid kind components, r.table uid = some components → ∃ r',
    r.remove? uid kind = some (components kind, r') ∧
      r'.table = Function.update r.table uid (some (Function.update components kind none))
  attach : ∀ gpu uid mesh shader e, r.get? uid = some e → ∃ result r' gpu',
    (r.attach gpu uid mesh shader).value = (result, r', gpu') ∧
      r'.table = Function.update r.table uid (some (attached e gpu result))
  /-- Where there is no entity, there is nothing to change. -/
  missing : ∀ uid, r.table uid = none → (∀ c, r.insert? uid c = none) ∧
    (∀ kind, r.remove? uid kind = none) ∧ ∀ gpu mesh shader,
      (r.attach gpu uid mesh shader).value = (.error (.resource (.unknownUid uid)), r, gpu)
  mem_withKind : ∀ kind e,
    e ∈ r.withKind kind ↔ r.get? e.uid = some e ∧ (e.component? kind).isSome
  pairwise_withKind : ∀ kind, (r.withKind kind).Pairwise (·.uid < ·.uid)

/-- Entities are found under their own identifiers. -/
structure Keyed (r : EntityRegistry) : Prop where
  wellFormed : r.entities.WellFormed
  uid_eq : ∀ uid e, r.get? uid = some e → e.uid = uid

variable {r : EntityRegistry} {uid : Uid} {e : Entity}

theorem keyed_empty : Keyed {} where
  wellFormed := Registry.wellFormed_empty
  uid_eq uid e h := by cases uid <;> cases h

/-! ### One entity -/

theorem get?_despawn (h : r.entities.WellFormed) (uid other : Uid) :
    (r.despawn uid).value.2.get? other = if other = uid then none else r.get? other :=
  h.get?_remove uid other

/-- A table of which one entry changes. -/
theorem table_eq_update {r' : EntityRegistry} {entity : Option Entity}
    (h : ∀ other, r'.get? other = if other = uid then entity else r.get? other) :
    r'.table = Function.update r.table uid (entity.map (·.component?)) := by
  funext other
  rw [Function.update_apply, table, h]
  split <;> rfl

theorem table_put (h : r.entities.WellFormed) (hget : r.get? uid = some e) (e' : Entity) :
    (r.put uid e').table = Function.update r.table uid (some e'.component?) :=
  table_eq_update (Sketch.get?_put h hget)

theorem table_eq_none_iff : r.table uid = none ↔ r.get? uid = none := Option.map_eq_none_iff

theorem insert?_eq (hget : r.get? uid = some e) (c : Component) :
    r.insert? uid c = some (e.component? c.kind, r.put uid (e.put c)) := by
  rw [insert?, hget]
  rfl

theorem remove?_eq (hget : r.get? uid = some e) (kind : ComponentKind) :
    r.remove? uid kind = some (e.component? kind, r.put uid (e.clear kind)) := by
  rw [remove?, hget]
  rfl

/-- What is attached becomes a component of the entity, next to its bound transform. -/
theorem exists_attach (hget : r.get? uid = some e) (gpu : Gpu) (mesh : Uid)
    (shader : Shader.Compiled) : ∃ result e' gpu',
      (r.attach gpu uid mesh shader).value = (result, r.put uid e', gpu') ∧
        e'.uid = e.uid ∧ e'.component? = attached e gpu result := by
  rw [attach, hget]
  simp only [Logged.value_bind]
  split
  all_goals
    refine ⟨_, _, _, rfl, rfl, ?_⟩
    funext kind
    cases kind <;> rfl

theorem attach_of_none (hget : r.get? uid = none) (gpu : Gpu) (mesh : Uid)
    (shader : Shader.Compiled) : (r.attach gpu uid mesh shader).value =
      (.error (.resource (.unknownUid uid)), r, gpu) := by
  rw [attach, hget]
  rfl

/-! ### Calls -/

namespace Keyed

theorem put (h : r.Keyed) (hget : r.get? uid = some e) {e' : Entity} (huid : e'.uid = e.uid) :
    (r.put uid e').Keyed where
  wellFormed := h.wellFormed.modify uid _
  uid_eq other found hfound := by
    rw [Sketch.get?_put h.wellFormed hget] at hfound
    split at hfound
    next hother =>
      cases hfound
      rw [huid, hother, h.uid_eq uid e hget]
    · exact h.uid_eq other found hfound

theorem spawn (h : r.Keyed) : r.spawn.2.Keyed where
  wellFormed := wellFormed_spawn h.wellFormed
  uid_eq uid e he := by
    rw [get?_spawn h.wellFormed] at he
    split at he
    next huid =>
      cases he
      exact huid.symm
    · exact h.uid_eq uid e he

theorem despawn (h : r.Keyed) (uid : Uid) : (r.despawn uid).value.2.Keyed where
  wellFormed := h.wellFormed.remove uid
  uid_eq other e he := by
    rw [get?_despawn h.wellFormed] at he
    split at he
    · cases he
    · exact h.uid_eq other e he

/-- No call stores an entity under another's identifier. -/
theorem call (h : r.Keyed) (next : Call) : (r.call next).Keyed := by
  cases next with
  | spawn => exact h.spawn
  | despawn uid => exact h.despawn uid
  | insert uid c =>
    cases hget : r.get? uid with
    | none => rwa [EntityRegistry.call, insert?, hget]
    | some e =>
      rw [EntityRegistry.call, insert?_eq hget]
      exact h.put hget (e.uid_put c)
  | remove uid kind =>
    cases hget : r.get? uid with
    | none => rwa [EntityRegistry.call, remove?, hget]
    | some e =>
      rw [EntityRegistry.call, remove?_eq hget]
      exact h.put hget (e.uid_clear kind)
  | attach gpu uid mesh shader =>
    cases hget : r.get? uid with
    | none => rwa [EntityRegistry.call, attach_of_none hget]
    | some e =>
      obtain ⟨result, e', gpu', hattach, huid, -⟩ := exists_attach hget gpu mesh shader
      rw [EntityRegistry.call, hattach]
      exact h.put hget huid

end Keyed

theorem keyed_run (calls : List Call) : (run calls).Keyed := by
  -- From the end: the last call meets the entities that the others left.
  induction calls using List.reverseRecOn with
  | nil => exact keyed_empty
  | append_singleton calls last ih =>
    rw [run, List.foldl_concat]
    exact ih.call last

/-! ### Identifiers that are handed out again -/

/-- An identifier that was given back is handed out next. -/
theorem fst_spawn_despawn (h : r.entities.WellFormed) (hget : r.get? uid = some e) :
    (r.despawn uid).value.2.spawn.1 = uid := by
  have hreserved := (h.isReserved_of_get? hget).2
  have hremove := Registry.remove_of_some hget
  simp only [EntityRegistry.despawn, EntityRegistry.spawn, Logged.value_bind]
  rw [hremove, UidPool.value_release hreserved]
  rfl

theorem table_spawn (h : r.entities.WellFormed) :
    r.spawn.2.table = Function.update r.table r.spawn.1 (some fun _ => none) := by
  rw [table_eq_update (get?_spawn h), Option.map_some, Entity.component?_new]

theorem table_despawn (h : r.entities.WellFormed) (uid : Uid) :
    (r.despawn uid).value.2.table = Function.update r.table uid none :=
  table_eq_update (get?_despawn h uid)

/-! ### Entities with a component -/

theorem Keyed.mem_withKind (h : r.Keyed) (kind : ComponentKind) (e : Entity) :
    e ∈ r.withKind kind ↔ r.get? e.uid = some e ∧ (e.component? kind).isSome := by
  rw [withKind, List.mem_filter, h.wellFormed.mem_objects, Entity.has]
  refine and_congr_left fun _ => ⟨?_, fun hget => ⟨e.uid, hget⟩⟩
  rintro ⟨uid, hget⟩
  rwa [← h.uid_eq uid e hget] at hget

theorem Keyed.pairwise_withKind (h : r.Keyed) (kind : ComponentKind) :
    (r.withKind kind).Pairwise (·.uid < ·.uid) := by
  have hkeyed : ∀ p ∈ r.entities.toList, p.2.uid = p.1 := by
    intro p hp
    have hget : r.get? p.1 = some p.2 := (h.wellFormed.get?_eq p.1).trans (Registry.mem_toList.1 hp)
    exact h.uid_eq p.1 p.2 hget
  refine (List.pairwise_map.2 ?_).filter _
  refine (Registry.pairwise_toList r.entities).imp_of_mem fun {p q} hp hq hlt => ?_
  rwa [hkeyed p hp, hkeyed q hq]

theorem Keyed.faithful (h : r.Keyed) : r.Faithful where
  uid_eq := h.uid_eq
  spawn := by
    obtain ⟨hnonzero, hfresh⟩ := h.wellFormed.insertWith_fresh fun uid => { uid }
    exact ⟨hnonzero, table_eq_none_iff.2 hfresh, table_spawn h.wellFormed⟩
  despawn uid := ⟨Registry.fst_remove r.entities uid, table_despawn h.wellFormed uid⟩
  respawn uid e hget := by
    have hnext := fst_spawn_despawn h.wellFormed hget
    refine ⟨hnext, ?_⟩
    rw [table_spawn (h.despawn uid).wellFormed, hnext, table_despawn h.wellFormed,
      Function.update_idem]
  insert uid c components hheld := by
    obtain ⟨e, hget, rfl⟩ := Option.map_eq_some_iff.1 hheld
    refine ⟨_, insert?_eq hget c, ?_⟩
    rw [table_put h.wellFormed hget, e.component?_put]
  remove uid kind components hheld := by
    obtain ⟨e, hget, rfl⟩ := Option.map_eq_some_iff.1 hheld
    refine ⟨_, remove?_eq hget kind, ?_⟩
    rw [table_put h.wellFormed hget, e.component?_clear]
  attach gpu uid mesh shader e hget := by
    obtain ⟨result, e', gpu', hattach, -, hcomponents⟩ := exists_attach hget gpu mesh shader
    refine ⟨result, _, gpu', hattach, ?_⟩
    rw [table_put h.wellFormed hget, hcomponents]
  missing uid hnone := by
    have hget := table_eq_none_iff.1 hnone
    refine ⟨fun c => ?_, fun kind => ?_, fun gpu mesh shader => attach_of_none hget gpu mesh shader⟩
    · rw [insert?, hget, Option.map_none]
    · rw [remove?, hget, Option.map_none]
  mem_withKind := h.mem_withKind
  pairwise_withKind := h.pairwise_withKind

/-- After any calls, calls do what they say with the components of one entity, and nothing with
those of any other. -/
theorem run_faithful (calls : List Call) : (run calls).Faithful := (keyed_run calls).faithful

end EntityRegistry

end Diorama

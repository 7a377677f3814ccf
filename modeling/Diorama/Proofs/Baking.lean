import Diorama.Component.MeshInstance
import Diorama.Proofs.Slots

/-! An instance that is baked is baked from the resources that it has.  Every way to change a
resource drops the bound group, and only baking makes one, so the group that a draw uses is what its
shader's object group resolves to at that time. -/

namespace Diorama.MeshInstance

open Shader

variable {i after : MeshInstance} {tag : Tag} {resource : Resource}

/-- The resources of an instance may have changed, and if so its bound group is gone. -/
def Refills (i after : MeshInstance) : Prop :=
  after = i ∨ ∃ resources, after = { i with resources, baked := none }

theorem Refills.trans {last : MeshInstance} (h : i.Refills after) (h' : after.Refills last) :
    i.Refills last := by
  rcases h' with rfl | ⟨resources, rfl⟩
  · exact h
  · rcases h with rfl | ⟨_, rfl⟩ <;> exact .inr ⟨resources, rfl⟩

theorem set_eq_ok_iff {declared : Bool} : i.set tag resource = .ok (declared, after) ↔
    (i.slot? tag = none ∧ declared = false ∧ after = i) ∨
      ∃ slot, i.slot? tag = some slot ∧ resource.kind = tag.kind ∧ declared = true ∧
        after = { i with resources := i.resources.set slot.name resource, baked := none } := by
  unfold set
  cases i.slot? tag with
  | none => simp [eq_comm]
  | some slot =>
    dsimp only
    split
    next hkind => simp [hkind, eq_comm]
    next hkind => simp [hkind]

theorem refills_set {declared : Bool} (h : i.set tag resource = .ok (declared, after)) :
    i.Refills after := by
  rcases set_eq_ok_iff.1 h with ⟨-, -, rfl⟩ | ⟨slot, -, -, -, rfl⟩
  · exact .inl rfl
  · exact .inr ⟨_, rfl⟩

section Settings

variable {slot : TagSlot} {found : Except RenderError Resource} {e : RenderError}
  (rest : List (Tag × Except RenderError Resource))

theorem setAll_cons_of_not_accepts (hslot : i.slot? tag = none) :
    i.setAll ((tag, found) :: rest) = i.setAll rest := by
  rw [setAll, if_neg (by simp [accepts, hslot])]

theorem setAll_cons_error (hslot : i.slot? tag = some slot) :
    i.setAll ((tag, .error e) :: rest) = (.error e, i) := by
  rw [setAll, if_pos (by simp [accepts, hslot])]
  rfl

theorem setAll_cons_ok (hslot : i.slot? tag = some slot) (hkind : resource.kind = tag.kind) :
    i.setAll ((tag, .ok resource) :: rest) =
      setAll { i with resources := i.resources.set slot.name resource, baked := none } rest := by
  have hset : (Except.ok resource).bind (i.set tag) = .ok (true, _) :=
    set_eq_ok_iff.2 (.inr ⟨slot, hslot, hkind, rfl, rfl⟩)
  rw [setAll, if_pos (by simp [accepts, hslot]), hset]

end Settings

theorem refills_setAll (i : MeshInstance) (sets : List (Tag × Except RenderError Resource)) :
    i.Refills (i.setAll sets).2 := by
  induction sets generalizing i with
  | nil => exact .inl rfl
  | cons first rest ih =>
    obtain ⟨tag, found⟩ := first
    rw [setAll]
    split
    · cases hset : found.bind (i.set tag) with
      | error e => exact .inl rfl
      | ok result =>
        obtain ⟨declared, after⟩ := result
        obtain ⟨resource, -, hset⟩ := bind_eq_ok_iff.1 hset
        exact (refills_set hset).trans (ih after)
    · exact ih i

/-- A successful bake binds the object group to the resources of the instance, and changes nothing
else. -/
theorem bake_eq_ok_iff : i.bake = .ok after ↔ ∃ group bound,
    i.shader.source.group? i.objectGroup = some group ∧
      i.shader.bind Resource.kind i.resources.get? group = .ok bound ∧
        after = { i with baked := some bound } := by
  unfold bake bindGroup
  cases i.shader.source.group? i.objectGroup with
  | none => simp
  | some group =>
    cases hbind : i.shader.bind Resource.kind i.resources.get? group <;> simp [hbind, eq_comm]

/-- An instance bakes if its object group is declared and laid out, and each entry of that group
finds a resource of its kind under its name. -/
theorem exists_bake_iff : (∃ after, i.bake = .ok after) ↔ ∃ group,
    i.shader.source.group? i.objectGroup = some group ∧ (i.shader.layout? group.index).isSome ∧
      ∀ entry ∈ group.entries, ∃ resource,
        i.resources.get? entry.name = some resource ∧ resource.kind = entry.kind := by
  simp only [bake_eq_ok_iff, Compiled.bind_eq_ok_iff, ← Group.exists_resolve_iff]
  constructor
  · rintro ⟨after, group, bound, hgroup, ⟨hlayout, hbound⟩, -⟩
    exact ⟨group, hgroup, hlayout, bound, hbound⟩
  · rintro ⟨group, hgroup, hlayout, bound, hbound⟩
    exact ⟨_, group, bound, hgroup, ⟨hlayout, hbound⟩, rfl⟩

/-! ### Runs -/

/-- What the owner of an instance does with it. -/
inductive Use where
  | set (tag : Tag) (resource : Resource)
  | setFrame (frame : WorldFrame)
  | setAlbedo (scene : SceneResources) (texture : Nat)
  | bake

/-- The instance after a use of it, successful or not. -/
def use (i : MeshInstance) : Use → MeshInstance
  | .set tag resource => match i.set tag resource with
    | .ok (_, after) => after
    | .error _ => i
  | .setFrame frame => (i.setFrame frame).2
  | .setAlbedo scene texture => (i.setAlbedo scene texture).2
  | .bake => match i.bake with
    | .ok after => after
    | .error _ => i

def run (i : MeshInstance) (uses : List Use) : MeshInstance := uses.foldl use i

theorem use_cases (i : MeshInstance) (next : Use) :
    i.Refills (i.use next) ∨ i.bake = .ok (i.use next) := by
  cases next with
  | set tag resource =>
    rw [use]
    cases hset : i.set tag resource with
    | error e => exact .inl (.inl rfl)
    | ok result => exact .inl (refills_set hset)
  | setFrame frame => exact .inl (refills_setAll i _)
  | setAlbedo scene texture => exact .inl (refills_setAll i _)
  | bake =>
    rw [use]
    cases hbake : i.bake with
    | error e => exact .inl (.inl rfl)
    | ok after => exact .inr rfl

/-- An instance of a shader, which is baked from the resources that it has, if at all. -/
structure Current (shader : Compiled) (objectGroup : UInt32) (i : MeshInstance) : Prop where
  shader_eq : i.shader = shader
  objectGroup_eq : i.objectGroup = objectGroup
  baked : ∀ bound, i.baked = some bound → i.bake = .ok i

namespace Current

variable {shader : Compiled} {objectGroup : UInt32}

theorem refills (h : Current shader objectGroup i) (hrefills : i.Refills after) :
    Current shader objectGroup after := by
  rcases hrefills with rfl | ⟨resources, rfl⟩
  · exact h
  · exact ⟨h.shader_eq, h.objectGroup_eq, fun bound hbound => by cases hbound⟩

theorem bake (h : Current shader objectGroup i) (hbake : i.bake = .ok after) :
    Current shader objectGroup after := by
  obtain ⟨group, bound, hgroup, hbound, rfl⟩ := bake_eq_ok_iff.1 hbake
  exact ⟨h.shader_eq, h.objectGroup_eq, fun _ _ =>
    bake_eq_ok_iff.2 ⟨group, bound, hgroup, hbound, rfl⟩⟩

theorem run (h : Current shader objectGroup i) (uses : List Use) :
    Current shader objectGroup (i.run uses) := by
  induction uses generalizing i with
  | nil => exact h
  | cons next rest ih =>
    rcases use_cases i next with hrefills | hbake
    · exact ih (h.refills hrefills)
    · exact ih (h.bake hbake)

end Current

/-- Whatever was done with an instance of a shader: it bakes if its object group is there and each
entry finds a resource of its kind; what it was baked from is what it has; and to bake it again
changes nothing. -/
structure BakesFrom (shader : Compiled) (objectGroup : UInt32) (i : MeshInstance) : Prop where
  bakes_iff : (∃ after, i.bake = .ok after) ↔ ∃ group,
    shader.source.group? objectGroup = some group ∧ ∀ entry ∈ group.entries, ∃ resource,
      i.resources.get? entry.name = some resource ∧ resource.kind = entry.kind
  baked : ∀ bound, i.baked = some bound → ∃ group,
    shader.source.group? objectGroup = some group ∧
      group.resolve Resource.kind i.resources.get? = .ok bound ∧
        group.Holds Resource.kind i.resources.get? bound
  again : i.isBaked → i.bake = .ok i
  isBaked_of_draw : ∀ meshes, i.draw meshes = .ok () → i.isBaked
  /-- A resource that is set under a name takes the place of the one there, and of the bound
  group. -/
  set : ∀ tag resource after, i.set tag resource = .ok (true, after) → after.isBaked = false ∧
    ∃ slot, i.slot? tag = some slot ∧ ∀ name, after.resources.get? name =
      if name = slot.name then some resource else i.resources.get? name

theorem isBaked_of_draw {meshes : Registry Mesh} (h : i.draw meshes = .ok ()) : i.isBaked := by
  unfold draw at h
  cases hbaked : i.baked with
  | none => simp [hbaked] at h
  | some bound => simp [isBaked, hbaked]

theorem Current.bakesFrom {shader : Compiled} {objectGroup : UInt32}
    (h : Current shader objectGroup i)
    (hlayouts : ∀ group ∈ shader.source.groups, (shader.layout? group.index).isSome) :
    BakesFrom shader objectGroup i := by
  obtain ⟨rfl, rfl, hcurrent⟩ := h
  have hbakes : (∃ after, i.bake = .ok after) ↔ ∃ group,
      i.shader.source.group? i.objectGroup = some group ∧ ∀ entry ∈ group.entries, ∃ resource,
        i.resources.get? entry.name = some resource ∧ resource.kind = entry.kind := by
    refine exists_bake_iff.trans (exists_congr fun group => and_congr_right fun hgroup => ?_)
    exact and_iff_right (hlayouts group (Source.mem_of_group? hgroup).1)
  refine ⟨hbakes, fun bound hbound => ?_, fun hbaked => ?_,
    fun meshes => isBaked_of_draw, fun tag resource after hset => ?_⟩
  · obtain ⟨group, found, hgroup, hfound, hi⟩ := bake_eq_ok_iff.1 (hcurrent bound hbound)
    obtain rfl : found = bound := by
      rw [hi] at hbound
      exact Option.some.inj hbound
    have hresolve := (Compiled.bind_eq_ok_iff.1 hfound).2
    exact ⟨group, hgroup, hresolve, Group.holds_of_resolve hresolve⟩
  · obtain ⟨bound, hbound⟩ := Option.isSome_iff_exists.1 hbaked
    exact hcurrent bound hbound
  · rcases set_eq_ok_iff.1 hset with ⟨-, ⟨⟩, -⟩ | ⟨slot, hslot, -, -, rfl⟩
    exact ⟨rfl, slot, hslot, fun name => ResourceMap.get?_set _ _ _ _⟩

/-- Each instance of a compiled shader bakes from the resources that it has, whatever was done with
it before. -/
theorem run_bakesFrom {limit : UInt32} {text : String} {shader : Compiled}
    (hshader : (compile limit text).value = some (.ok shader)) (mesh : Uid) (uses : List Use) :
    BakesFrom shader (Shader.objectGroup shader.source (tagSlots shader.source Tag.object).value)
      ((new mesh shader).value.run uses) := by
  have hcompile := (compile_eq_ok_iff.1 hshader).2
  have hnew : Current shader
      (Shader.objectGroup shader.source (tagSlots shader.source Tag.object).value)
      (new mesh shader).value := ⟨rfl, rfl, fun bound hbound => by cases hbound⟩
  exact (hnew.run uses).bakesFrom fun group => Compiled.isSome_layout? hcompile

/-! ### Two stages -/

/-- A camera's matrix, an object's matrix `m`, and in another stage and group an object's matrix
with a name that can be chosen. -/
def twoStages (name : String) : String :=
  "[\"s\",[\"v\",\"\n@tag(view_matrix) @group(0) @binding(0) var<uniform> v: mat4x4f;\n" ++
    "@tag(local_to_world_matrix) @group(1) @binding(0) var<uniform> m: mat4x4f;\n\"]," ++
      "[\"f\",\"\n@tag(inverse_local_to_world_matrix) @group(2) @binding(0) var<uniform> " ++
        name ++ ": mat4x4f;\n\"]]"

/-- A group of one matrix. -/
def matrixGroup (index : UInt32) (name : String) (tag : Tag) (visibility : Visibility) : Group :=
  ⟨groupLabel "s" index, index,
    [⟨name, "var<uniform>", "mat4x4f", some tag.text, .uniform, visibility⟩]⟩

def twoStagesShader (name : String) (inside outside : Visibility) : Compiled :=
  ⟨⟨"s", ⟨"v", "  @group(0) @binding(0) var<uniform> v: mat4x4f;" ++
        "  @group(1) @binding(0) var<uniform> m: mat4x4f; "⟩,
      ⟨"f", "  @group(2) @binding(0) var<uniform> " ++ name ++ ": mat4x4f; "⟩, [], [], [],
      [matrixGroup 0 "v" .view ⟨true, false⟩, matrixGroup 1 "m" .localToWorld inside,
        matrixGroup 2 name .inverseLocalToWorld outside]⟩,
    [[⟨0, ⟨true, false⟩, .uniform⟩], [⟨0, inside, .uniform⟩], [⟨0, outside, .uniform⟩]]⟩

/-- The two matrices of an object under names of their own. -/
def namedApart : Compiled := twoStagesShader "n" ⟨true, false⟩ ⟨false, true⟩

theorem compile_namedApart : (compile 4 (twoStages "n")).value = some (.ok namedApart) := by
  decide +kernel

/-- Baked, filled anew and baked again, an instance has the new buffer. -/
theorem run_bakesFrom_namedApart :
    (compile 4 (twoStages "n")).value = some (.ok namedApart) ∧
      ∃ i, i = (new 1 namedApart).value.run
          [.set .localToWorld (.buffer 7), .bake, .set .localToWorld (.buffer 8), .bake] ∧
        BakesFrom namedApart 1 i ∧ i.baked = some [(0, .buffer 8)] := by
  have hbakes := run_bakesFrom compile_namedApart 1
    [.set .localToWorld (.buffer 7), .bake, .set .localToWorld (.buffer 8), .bake]
  have hgroup : Shader.objectGroup namedApart.source (tagSlots namedApart.source Tag.object).value =
      1 := by decide +kernel
  rw [hgroup] at hbakes
  exact ⟨compile_namedApart, _, rfl, hbakes, by decide +kernel⟩

end Diorama.MeshInstance

import Diorama.Gpu
import Diorama.Scene.Data

/-! Meshes: the attributes and indices of a mesh's first primitive, and their buffers. -/

namespace Diorama

structure VertexAttribute where
  semantic : Gltf.Semantic
  accessor : AccessorData
  buffer : Option Handle

def VertexAttribute.name (a : VertexAttribute) : String := a.semantic.name

structure IndexData where
  data : ByteRange
  buffer : Option Handle

structure Mesh where
  uid : Uid
  name : String
  /-- In the order of names. -/
  attributes : List VertexAttribute
  indices : Option IndexData
  /-- The texture of the base colour. -/
  albedo : Option Nat
  /-- Whether the buffers have been made. -/
  loaded : Bool

namespace Mesh

def readAttributes (scene : SceneData) :
    List (Gltf.Semantic × Nat) → Option (Except ResourceError (List VertexAttribute))
  | [] => some (.ok [])
  | (semantic, index) :: rest => do
    match ← scene.accessor index with
    | .error e => return .error e
    | .ok accessor =>
      return (← readAttributes scene rest).map (⟨semantic, accessor, none⟩ :: ·)

/-- The bytes of an accessor as indices: as many components as it has elements, and whole words of
four bytes. -/
def indexRange (mesh : String) (accessor : AccessorData) : Logged (Option ByteRange) := do
  let component := accessor.componentType
  Logged.warnIf (component ≠ .u16) (.foreignIndices mesh component.name)
  match Word.mul? accessor.count (UInt64.ofNat component.size) with
  | none => return none
  | some size =>
    Logged.warnIf (size % 4 ≠ 0) (.unevenIndices mesh size)
    return some ({ accessor.data with length := size }.truncateTo 4)

def readIndices (scene : SceneData) (mesh : String) :
    Option Nat → Logged (Option (Except ResourceError (Option IndexData)))
  | none => pure (some (.ok none))
  | some index => Logged.proceed (scene.accessor index) fun accessor => do
    return (← indexRange mesh accessor).map fun data => .ok (some ⟨data, none⟩)

/-- The base colour texture of a material that exists and has one. -/
def albedoOf (scene : SceneData) (material : Option Nat) : Option Nat :=
  material.bind fun m => scene.document.materials[m]?.bind (·.baseColorTexture)

def ofPrimitive (scene : SceneData) (name : String) (primitive : Gltf.Primitive) :
    Logged (Option (Except ResourceError Mesh)) :=
  Logged.proceed (readAttributes scene primitive.attributes) fun attributes => do
    Logged.proceed (← readIndices scene name primitive.indices) fun indices =>
      return some (.ok ⟨0, name, attributes.mergeSort fun a b => a.name ≤ b.name, indices,
        albedoOf scene primitive.material, false⟩)

/-- Reads a mesh of the document, without an identifier. -/
def ofDocument (scene : SceneData) (index : Nat) : Logged (Option (Except ResourceError Mesh)) :=
  match scene.document.meshes[index]? with
  | none => pure (some (.error (.noPrimitives s!"#{index}")))
  | some mesh =>
    let name := mesh.name.getD s!"mesh_{index}"
    match mesh.primitives with
    | [] => pure (some (.error (.noPrimitives name)))
    | primitive :: others => do
      Logged.warnIf (!others.isEmpty) (.extraPrimitives name (others.length + 1))
      ofPrimitive scene name primitive

section Inversion

variable {scene : SceneData} {name : String}

theorem settle_readAttributes (scene : SceneData) (listed : List (Gltf.Semantic × Nat)) :
    settle (readAttributes scene listed) = listed.mapM fun entry =>
      (settle (scene.accessor entry.2)).map fun found => ⟨entry.1, found, none⟩ := by
  induction listed with
  | nil => rfl
  | cons entry listed ih =>
    rw [List.mapM_cons, ← ih, readAttributes]
    rcases scene.accessor entry.2 with _ | _ | found
    · rfl
    · rfl
    · rcases readAttributes scene listed with _ | _ | _ <;> rfl

section Attributes

variable {listed : List (Gltf.Semantic × Nat)} {attributes : List VertexAttribute}
  (h : readAttributes scene listed = some (.ok attributes))

include h

/-- Each listed accessor is found, and gives one attribute. -/
theorem map_eq_of_readAttributes : (listed.map fun entry => (settle (scene.accessor entry.2)).map
      fun found => (⟨entry.1, found, none⟩ : VertexAttribute)) = attributes.map .ok := by
  rw [← settle_eq_ok_iff, settle_readAttributes] at h
  exact mapM_eq_ok_iff.1 h

theorem mem_readAttributes_iff {a : VertexAttribute} : a ∈ attributes ↔ ∃ entry ∈ listed, ∃ found,
    scene.accessor entry.2 = some (.ok found) ∧ ⟨entry.1, found, none⟩ = a := by
  rw [← settle_eq_ok_iff, settle_readAttributes] at h
  simp only [mem_mapM_iff h, map_eq_ok_iff, settle_eq_ok_iff]

theorem exists_accessor_of_listed :
    ∀ entry ∈ listed, ∃ found, scene.accessor entry.2 = some (.ok found) := by
  rw [← settle_eq_ok_iff, settle_readAttributes] at h
  intro entry hentry
  obtain ⟨a, ha⟩ := exists_mapM_eq_ok_iff.1 ⟨_, h⟩ entry hentry
  obtain ⟨found, hfound, -⟩ := map_eq_ok_iff.1 ha
  exact ⟨found, settle_eq_ok_iff.1 hfound⟩

theorem semantics_readAttributes : attributes.map (·.semantic) = listed.map (·.1) := by
  have hmap := map_eq_of_readAttributes h
  clear h
  induction listed generalizing attributes with
  | nil => rw [List.map_eq_nil_iff.1 hmap.symm, List.map_nil, List.map_nil]
  | cons entry listed ih =>
    cases attributes with
    | nil => cases hmap
    | cons a rest =>
      rw [List.map_cons, List.map_cons, List.cons.injEq] at hmap
      obtain ⟨found, -, rfl⟩ := map_eq_ok_iff.1 hmap.1
      rw [List.map_cons, List.map_cons, ih hmap.2]

/-- The attributes that are read come from accessors. -/
theorem exists_accessor_of_mem :
    ∀ a ∈ attributes, ∃ index, scene.accessor index = some (.ok a.accessor) := by
  intro a ha
  obtain ⟨entry, -, found, hfound, rfl⟩ := (mem_readAttributes_iff h).1 ha
  exact ⟨entry.2, hfound⟩

end Attributes

theorem value_indexRange (accessor : AccessorData) : (indexRange name accessor).value =
    (Word.mul? accessor.count (UInt64.ofNat accessor.componentType.size)).map fun size =>
      { accessor.data with length := size }.truncateTo 4 := by
  unfold indexRange
  rw [Logged.value_bind]
  cases Word.mul? accessor.count (UInt64.ofNat accessor.componentType.size) <;> rfl

theorem readIndices_eq_ok_iff {index : Option Nat} {indices : Option IndexData} :
    (readIndices scene name index).value = some (.ok indices) ↔ index = none ∧ indices = none ∨
      ∃ i accessor data, index = some i ∧ scene.accessor i = some (.ok accessor) ∧
        (indexRange name accessor).value = some data ∧ some ⟨data, none⟩ = indices := by
  cases index with
  | none => simp [readIndices, eq_comm]
  | some i =>
    rw [← settle_eq_ok_iff, readIndices, Logged.settle_value_proceed, bind_eq_ok_iff]
    simp [settle_eq_ok_iff]

theorem ofPrimitive_eq_ok_iff {primitive : Gltf.Primitive} {mesh : Mesh} :
    (ofPrimitive scene name primitive).value = some (.ok mesh) ↔ ∃ attributes indices,
      readAttributes scene primitive.attributes = some (.ok attributes) ∧
        (readIndices scene name primitive.indices).value = some (.ok indices) ∧
          ⟨0, name, attributes.mergeSort fun a b => a.name ≤ b.name, indices,
            albedoOf scene primitive.material, false⟩ = mesh := by
  rw [← settle_eq_ok_iff, ofPrimitive, Logged.settle_value_proceed, bind_eq_ok_iff]
  simp [Logged.settle_value_proceed, bind_eq_ok_iff, settle_eq_ok_iff]

theorem ofDocument_eq_ok_iff {index : Nat} {mesh : Mesh} :
    (ofDocument scene index).value = some (.ok mesh) ↔ ∃ source primitive others,
      scene.document.meshes[index]? = some source ∧ source.primitives = primitive :: others ∧
        (ofPrimitive scene (source.name.getD s!"mesh_{index}") primitive).value = some (.ok mesh) := by
  unfold ofDocument
  cases hsource : scene.document.meshes[index]? with
  | none => simp
  | some source =>
    cases hprimitives : source.primitives with
    | nil => simp [hprimitives]
    | cons primitive others => simp [hprimitives]

end Inversion

def vertexBuffer? (mesh : Mesh) (semantic : String) : Option Handle :=
  (mesh.attributes.find? (·.name == semantic)).bind (·.buffer)

def indexBuffer? (mesh : Mesh) : Option Handle := mesh.indices.bind (·.buffer)

/-- The number of 16-bit indices, as a word of 32 bits. -/
def indexCount (mesh : Mesh) : UInt32 :=
  (mesh.indices.map fun indices => (indices.data.length / 2).toUInt32).getD 0

/-- Makes the buffers of attributes, where their bytes can be read. -/
def storeAttributes (mesh : String) :
    List VertexAttribute → Gpu → Option (List VertexAttribute × Gpu)
  | [], gpu => some ([], gpu)
  | a :: rest, gpu => do
    let bytes ← a.accessor.data.bytes?
    let (buffer, gpu) := gpu.createBuffer s!"{mesh}_{a.name}" .vertex (.bytes bytes)
    let (rest, gpu) ← storeAttributes mesh rest gpu
    return ({ a with buffer := some buffer } :: rest, gpu)

/-- Makes the buffer of indices, where their bytes can be read. -/
def storeIndices (mesh : String) (indices : Option IndexData) (gpu : Gpu) :
    Option (Option IndexData × Gpu) :=
  match indices with
  | none => some (none, gpu)
  | some i => do
    let bytes ← i.data.bytes?
    let (buffer, gpu) := gpu.createBuffer s!"{mesh}_indices" .index (.bytes bytes)
    return (some { i with buffer := some buffer }, gpu)

/-- Makes the buffers if that was not done before, and says whether it did.  There is no result
where bytes are read that are not there. -/
def store (mesh : Mesh) (gpu : Gpu) : Option (Bool × Mesh × Gpu) :=
  if mesh.loaded then some (false, mesh, gpu)
  else do
    let (attributes, gpu) ← storeAttributes mesh.name mesh.attributes gpu
    let (indices, gpu) ← storeIndices mesh.name mesh.indices gpu
    return (true, { mesh with attributes, indices, loaded := true }, gpu)

end Mesh

end Diorama

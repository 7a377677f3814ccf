import Diorama.Proofs.ByteRanges
import Diorama.Proofs.Storing

/-! Reading the resources of a scene: each image and each mesh of the document is read on its own,
and then they are put into registries in their order. -/

namespace Diorama

namespace Registry

variable {α : Type} {r : Registry α}

/-- Stores objects one after the other, each as it is made for its own identifier. -/
def insertAll (r : Registry α) : List (Uid → α) → List Uid × Registry α
  | [] => ([], r)
  | make :: rest =>
    let (uid, r) := r.insertWith make
    let (uids, r) := r.insertAll rest
    (uid :: uids, r)

theorem length_insertAll (r : Registry α) (makes : List (Uid → α)) :
    (r.insertAll makes).1.length = makes.length := by
  induction makes generalizing r with
  | nil => rfl
  | cons make rest ih => exact congrArg Nat.succ (ih _)

theorem get?_empty (uid : Uid) : (empty : Registry α).get? uid = none := by
  cases uid <;> simp [get?, empty]

namespace WellFormed

theorem insertAll (h : r.WellFormed) (makes : List (Uid → α)) :
    (r.insertAll makes).2.WellFormed := by
  induction makes generalizing r with
  | nil => exact h
  | cons make rest ih => exact ih (h.insertWith make)

theorem get?_insertWith_eq_some_iff (h : r.WellFormed) {make : Uid → α} {uid : Uid} {a : α} :
    (r.insertWith make).2.get? uid = some a ↔
      r.get? uid = some a ∨ (r.insertWith make).1 = uid ∧ make uid = a := by
  rw [h.get?_insertWith]
  split
  next huid =>
    subst huid
    simp [(h.insertWith_fresh make).2]
  next huid => simp [Ne.symm huid]

/-- What is there after storing is what was there, and what was made. -/
theorem get?_insertAll_eq_some_iff (h : r.WellFormed) {makes : List (Uid → α)} {uid : Uid} {a : α} :
    (r.insertAll makes).2.get? uid = some a ↔ r.get? uid = some a ∨
      ∃ (i : Nat) (make : Uid → α), makes[i]? = some make ∧
        (r.insertAll makes).1[i]? = some uid ∧ make uid = a := by
  induction makes generalizing r with
  | nil => simp [Registry.insertAll]
  | cons make rest ih =>
    have hrest := ih (h.insertWith make)
    rw [h.get?_insertWith_eq_some_iff] at hrest
    refine hrest.trans ⟨?_, ?_⟩
    · rintro ((hget | ⟨huid, hmake⟩) | ⟨i, make', hmake', huid, ha⟩)
      · exact .inl hget
      · exact .inr ⟨0, make, rfl, congrArg some huid, hmake⟩
      · exact .inr ⟨i + 1, make', hmake', huid, ha⟩
    · rintro (hget | ⟨i, make', hmake', huid, ha⟩)
      · exact .inl (.inl hget)
      · cases i with
        | zero =>
          cases hmake'
          exact .inl (.inr ⟨Option.some.inj huid, ha⟩)
        | succ i => exact .inr ⟨i, make', hmake', huid, ha⟩

end WellFormed

end Registry

namespace Mesh

variable {scene : SceneData} {index : Nat} {mesh : Mesh}

/-- A mesh under an identifier. -/
def under (mesh : Mesh) (uid : Uid) : Mesh := { mesh with uid }

/-- A mesh that was just read has no buffers. -/
theorem unstored_of_ofDocument (h : (ofDocument scene index).value = some (.ok mesh)) :
    mesh.loaded = false ∧ mesh.handles = [] := by
  obtain ⟨source, primitive, others, -, -, h⟩ := ofDocument_eq_ok_iff.1 h
  obtain ⟨attributes, indices, hattributes, hindices, rfl⟩ := ofPrimitive_eq_ok_iff.1 h
  refine ⟨rfl, List.append_eq_nil_iff.2 ⟨List.filterMap_eq_nil_iff.2 ?_, ?_⟩⟩
  · intro a ha
    obtain ⟨entry, -, found, -, rfl⟩ :=
      (mem_readAttributes_iff hattributes).1 (List.mem_mergeSort.1 ha)
    rfl
  · rcases readIndices_eq_ok_iff.1 hindices with ⟨-, rfl⟩ | ⟨i, accessor, data, -, -, -, rfl⟩
    · rfl
    · rfl

theorem gives_of_mem_ranges (h : (ofDocument scene index).value = some (.ok mesh)) {r : ByteRange}
    (hr : r ∈ mesh.ranges) : scene.Gives r := by
  rcases List.mem_append.1 hr with hr | hr
  · obtain ⟨a, ha, rfl⟩ := List.mem_map.1 hr
    exact .vertices h ha
  · obtain ⟨i, hi, rfl⟩ := Option.map_eq_some_iff.1 (Option.mem_toList.1 hr)
    exact .indices h hi

end Mesh

namespace SceneResources

variable {scene : SceneData}

/-- Reads one image of the document, number `index`. -/
def readImage (scene : SceneData) (index : Nat) (image : Gltf.Image) :
    Option (Except ResourceError (Uid → SceneImage)) :=
  match image.bufferView with
  | none => some (.error (.externalImage index))
  | some view => (scene.viewBytes view).map <| Except.map fun data uid =>
    SceneImage.new uid index (image.name.getD s!"image_{index}") image.mimeType data

theorem readImage_eq_ok_iff {index : Nat} {image : Gltf.Image} {make : Uid → SceneImage} :
    readImage scene index image = some (.ok make) ↔ ∃ view data, image.bufferView = some view ∧
      scene.viewBytes view = some (.ok data) ∧ make = fun uid =>
        SceneImage.new uid index (image.name.getD s!"image_{index}") image.mimeType data := by
  unfold readImage
  cases image.bufferView with
  | none => simp
  | some view =>
    rw [← settle_eq_ok_iff, settle_map, map_eq_ok_iff]
    simp only [settle_eq_ok_iff, Option.some_inj, exists_and_left, exists_eq_left',
      eq_comm (a := make)]

theorem settle_readImages (index : Nat) (listed : List Gltf.Image) (images : Registry SceneImage) :
    settle (readImages scene index listed images) =
      ((listed.zipIdx index).mapM fun entry => settle (readImage scene entry.2 entry.1)).map
        images.insertAll := by
  induction listed generalizing index images with
  | nil => rfl
  | cons image rest ih =>
    rw [List.zipIdx_cons, List.mapM_cons, readImages, readImage]
    cases image.bufferView with
    | none => rfl
    | some view =>
      dsimp only
      rcases scene.viewBytes view with _ | _ | data
      · rfl
      · rfl
      · have hrest := ih (index + 1) (images.insertWith fun uid => SceneImage.new uid index
          (image.name.getD s!"image_{index}") image.mimeType data).2
        change settle (readImages scene (index + 1) rest _ >>= fun read => pure (read.map _)) = _
        rw [bind_pure_comp, Option.map_eq_map, settle_map, hrest]
        cases (rest.zipIdx (index + 1)).mapM fun entry => settle (readImage scene entry.2 entry.1)
        all_goals rfl

theorem settle_value_readMeshes (scene : SceneData) (indices : List Nat) (meshes : Registry Mesh) :
    settle (readMeshes scene indices meshes).value =
      (indices.mapM fun index => settle (Mesh.ofDocument scene index).value).map fun found =>
        meshes.insertAll (found.map Mesh.under) := by
  induction indices generalizing meshes with
  | nil => rfl
  | cons index rest ih =>
    rw [List.mapM_cons, readMeshes, Logged.value_bind, Logged.settle_value_proceed]
    cases settle (Mesh.ofDocument scene index).value with
    | error e => rfl
    | ok mesh =>
      change settle (Option.map _ (readMeshes scene rest _).value) = _
      rw [settle_map, ih]
      cases rest.mapM fun index => settle (Mesh.ofDocument scene index).value <;> rfl

/-- What is read of images and meshes: each is under an identifier, and none is decoded or stored. -/
def collect (scene : SceneData) (makes : List (Uid → SceneImage)) (meshes : List Mesh) :
    SceneResources where
  meshes := (Registry.empty.insertAll (meshes.map Mesh.under)).2
  images := (Registry.empty.insertAll makes).2
  samplers := scene.document.samplers.map .ofSampler
  textures := scene.document.textures
  meshUids := (Registry.empty.insertAll (meshes.map Mesh.under)).1
  imageUids := (Registry.empty.insertAll makes).1
  decoded := Latch.new scene.document.images.length
  gpuSamplers := []
  defaultSampler := none

/-- The images are read first, and then the meshes. -/
theorem settle_value_new (scene : SceneData) : settle (new scene).value = (do
    let makes ← scene.document.images.zipIdx.mapM fun entry =>
      settle (readImage scene entry.2 entry.1)
    let meshes ← (List.range scene.document.meshes.length).mapM fun index =>
      settle (Mesh.ofDocument scene index).value
    return collect scene makes meshes) := by
  unfold new
  dsimp only
  rw [Logged.settle_value_proceed, settle_readImages]
  cases scene.document.images.zipIdx.mapM fun entry => settle (readImage scene entry.2 entry.1) with
  | error e => rfl
  | ok makes =>
    change settle (Option.map _ (readMeshes scene _ _).value) = _
    rw [settle_map, settle_value_readMeshes]
    cases (List.range scene.document.meshes.length).mapM fun index =>
        settle (Mesh.ofDocument scene index).value <;> rfl

/-- A scene can be read where each of its images and meshes can. -/
theorem value_new_eq_ok_iff {r : SceneResources} : (new scene).value = some (.ok r) ↔
    ∃ makes meshes,
      scene.document.images.zipIdx.mapM
          (fun entry => settle (readImage scene entry.2 entry.1)) = .ok makes ∧
        (List.range scene.document.meshes.length).mapM
          (fun index => settle (Mesh.ofDocument scene index).value) = .ok meshes ∧
        r = collect scene makes meshes := by
  rw [← settle_eq_ok_iff, settle_value_new]
  simp only [bind_eq_ok_iff, pure, Except.pure, Except.ok.injEq, eq_comm (a := r)]
  constructor
  · rintro ⟨makes, hmakes, meshes, hmeshes, hr⟩
    exact ⟨makes, meshes, hmakes, hmeshes, hr⟩
  · rintro ⟨makes, meshes, hmakes, hmeshes, hr⟩
    exact ⟨makes, hmakes, meshes, hmeshes, hr⟩

theorem unstored_of_get? {indices : List Nat} {meshes : List Mesh} {uid : Uid} {mesh : Mesh}
    (hmeshes : indices.mapM (fun index => settle (Mesh.ofDocument scene index).value) = .ok meshes)
    (hget : (Registry.empty.insertAll (meshes.map Mesh.under)).2.get? uid = some mesh) :
    mesh.loaded = false ∧ mesh.handles = [] ∧ ∀ range ∈ mesh.ranges, scene.Gives range := by
  rw [Registry.wellFormed_empty.get?_insertAll_eq_some_iff, Registry.get?_empty] at hget
  obtain hget | ⟨i, make, hmake, -, rfl⟩ := hget
  · cases hget
  obtain ⟨found, hfound, rfl⟩ := List.mem_map.1 (List.mem_of_getElem? hmake)
  obtain ⟨index, -, hread⟩ := (mem_mapM_iff hmeshes).1 hfound
  rw [settle_eq_ok_iff] at hread
  obtain ⟨hloaded, hhandles⟩ := Mesh.unstored_of_ofDocument hread
  exact ⟨hloaded, hhandles, fun range hrange => Mesh.gives_of_mem_ranges hread hrange⟩

theorem undecoded_of_getElem? {listed : List Gltf.Image} {makes : List (Uid → SceneImage)} {i : Nat}
    {make : Uid → SceneImage}
    (hmakes : listed.zipIdx.mapM (fun entry => settle (readImage scene entry.2 entry.1)) = .ok makes)
    (hmake : makes[i]? = some make) (uid : Uid) : (make uid).index = i ∧
      (make uid).bitmap = none ∧ (make uid).texture = none ∧ scene.Gives (make uid).data := by
  have hread := congrArg (·[i]?) (mapM_eq_ok_iff.1 hmakes)
  simp only [List.getElem?_map, hmake, List.getElem?_zipIdx, Option.map_map] at hread
  obtain ⟨source, -, hread⟩ := Option.map_eq_some_iff.1 hread
  obtain ⟨view, data, -, hdata, rfl⟩ := readImage_eq_ok_iff.1 (settle_eq_ok_iff.1 hread)
  exact ⟨Nat.zero_add i, rfl, rfl, .view hdata⟩

end SceneResources

end Diorama

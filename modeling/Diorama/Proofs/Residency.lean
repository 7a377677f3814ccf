import Diorama.Proofs.Decoding

/-! Residency: each call on the resources of a scene keeps what was stored before, stores what it
counts, and leaves each mesh and image with all of its objects or with none. -/

namespace Diorama.SceneResources

open Registry

/-- Each object of a scene is stored as a whole or not at all, and each image is found under its
number. -/
structure Consistent (r : SceneResources) (decoder : ImageDecoder) : Prop where
  meshes : r.meshes.WellFormed
  images : r.images.WellFormed
  mesh : ∀ uid mesh, r.meshes.get? uid = some mesh → mesh.Whole
  image : ∀ uid image, r.images.get? uid = some image → image.Whole decoder
  numbered : r.Numbered
  samplers : r.defaultSampler = none ∧ r.gpuSamplers = [] ∨
    r.defaultSampler.isSome ∧ r.gpuSamplers.length = r.samplers.length

/-- What time may make of the resources of a scene: what was stored stays. -/
structure Follows (r after : SceneResources) : Prop where
  meshes : Related Mesh.Becomes r.meshes after.meshes
  images : Related SceneImage.Becomes r.images after.images
  imageUids_eq : after.imageUids = r.imageUids
  textures_eq : after.textures = r.textures
  samplers_eq : after.samplers = r.samplers
  gpuSamplers_eq : r.defaultSampler.isSome →
    after.defaultSampler = r.defaultSampler ∧ after.gpuSamplers = r.gpuSamplers

/-- The number of meshes and images that are stored. -/
def residents (r : SceneResources) : Nat :=
  r.meshes.objects.countP Mesh.loaded + r.images.objects.countP SceneImage.isLoaded

/-- The objects on the graphics processor that are in use. -/
def handles (r : SceneResources) : List Handle :=
  r.meshes.objects.flatMap Mesh.handles ++ r.images.objects.flatMap SceneImage.handles ++
    (r.defaultSampler.toList ++ r.gpuSamplers)

/-- One state of the resources and the graphics processor comes after another, and `count` meshes
and images have been stored between. -/
structure Advances (decoder : ImageDecoder) (r : SceneResources) (gpu : Gpu) (count : Nat)
    (after : SceneResources) (gpu' : Gpu) : Prop where
  consistent : after.Consistent decoder
  follows : r.Follows after
  count_eq : count + r.residents = after.residents
  makes : ∃ n, gpu.Makes gpu' n ∧ after.handles.Perm (r.handles ++ List.range' gpu.made n)

variable {decoder : ImageDecoder} {r after last : SceneResources} {gpu gpu' gpu'' : Gpu}
  {count count' : Nat}

theorem Follows.refl (r : SceneResources) : r.Follows r :=
  ⟨.refl Mesh.Becomes.refl _, .refl SceneImage.Becomes.refl _, rfl, rfl, rfl, fun _ => ⟨rfl, rfl⟩⟩

theorem Follows.trans (h : r.Follows after) (h' : after.Follows last) : r.Follows last where
  meshes := h.meshes.trans (fun _ _ _ h h' => h.trans h') h'.meshes
  images := h.images.trans (fun _ _ _ h h' => h.trans h') h'.images
  imageUids_eq := h'.imageUids_eq.trans h.imageUids_eq
  textures_eq := h'.textures_eq.trans h.textures_eq
  samplers_eq := h'.samplers_eq.trans h.samplers_eq
  gpuSamplers_eq hsome := by
    obtain ⟨hdefault, hsamplers⟩ := h.gpuSamplers_eq hsome
    obtain ⟨hdefault', hsamplers'⟩ := h'.gpuSamplers_eq (hdefault ▸ hsome)
    exact ⟨hdefault'.trans hdefault, hsamplers'.trans hsamplers⟩

theorem Advances.refl (h : r.Consistent decoder) (gpu : Gpu) : Advances decoder r gpu 0 r gpu :=
  ⟨h, .refl r, Nat.zero_add _, 0, .refl gpu, by simp⟩

theorem Advances.trans (h : Advances decoder r gpu count after gpu')
    (h' : Advances decoder after gpu' count' last gpu'') :
    Advances decoder r gpu (count + count') last gpu'' := by
  refine ⟨h'.consistent, h.follows.trans h'.follows, ?_, ?_⟩
  · have hcount := h.count_eq
    have hcount' := h'.count_eq
    omega
  · obtain ⟨n, hmakes, hperm⟩ := h.makes
    obtain ⟨n', hmakes', hperm'⟩ := h'.makes
    refine ⟨n + n', hmakes.trans hmakes', hperm'.trans ?_⟩
    rw [← List.range'_append_1, ← hmakes.1, ← List.append_assoc]
    exact hperm.append_right _

/-! ### Decoding -/

theorem countP_isLoaded_map (images : List SceneImage) :
    images.countP SceneImage.isLoaded = (images.map SceneImage.texture).countP Option.isSome := by
  rw [List.countP_map]
  rfl

theorem flatMap_handles_map (images : List SceneImage) : images.flatMap SceneImage.handles =
    (images.map SceneImage.texture).flatMap fun texture => (texture.map (·.handle)).toList := by
  rw [List.flatMap_map]
  rfl

theorem advances_decodeImages (h : r.Consistent decoder) {logged : Logged SceneResources}
    (hdecode : r.decodeImages decoder = some logged) (gpu : Gpu) :
    Advances decoder r gpu 0 logged.value gpu ∧
      logged.value.meshes = r.meshes ∧ logged.value.defaultSampler = r.defaultSampler ∧
        Related (fun image after => after = image.decoded decoder) r.images logged.value.images := by
  obtain ⟨⟨heq, hwell, htexture⟩, hget⟩ := decodes_decodeImages h.images h.numbered hdecode
  have hrelated : Related (fun image after => after = image.decoded decoder) r.images
      logged.value.images := .of_map hget fun _ _ _ => rfl
  generalize logged.value = after at *
  obtain ⟨meshes, images, samplers, textures, meshUids, imageUids, decoded, gpuSamplers,
    defaultSampler⟩ := after
  cases heq
  refine ⟨⟨⟨h.meshes, hwell, h.mesh, fun uid image hget => ?_, fun uid image hget => ?_,
    h.samplers⟩, { Follows.refl r with images := ?_ }, ?_, 0, .refl gpu, ?_⟩, rfl, rfl, hrelated⟩
  · obtain ⟨before, hbefore, rfl⟩ := hrelated.exists_before hget
    exact (SceneImage.becomes_decoded (h.image uid before hbefore)).2
  · obtain ⟨before, hbefore, rfl⟩ := hrelated.exists_before hget
    exact h.numbered uid before hbefore
  · refine hrelated.imp fun uid image after himage hafter => ?_
    rw [hafter]
    exact (SceneImage.becomes_decoded (h.image uid image himage)).1
  · dsimp only at htexture
    rw [Nat.zero_add, residents, residents, countP_isLoaded_map, countP_isLoaded_map, htexture]
  · dsimp only at htexture
    rw [handles, handles, flatMap_handles_map, flatMap_handles_map, htexture]
    simp

/-! ### Storing meshes and images -/

theorem advances_storeMeshes (h : r.Consistent decoder)
    (hstore : r.storeMeshes gpu = some (count, after, gpu')) :
    Advances decoder r gpu count after gpu' ∧
      after.images = r.images ∧ after.defaultSampler = r.defaultSampler ∧
        Related (fun _ after => after.loaded = true) r.meshes after.meshes := by
  obtain ⟨⟨meshes, count', gpu''⟩, hmapM, hafter⟩ := Option.bind_eq_some_iff.1 hstore
  cases hafter
  have hrelated : Related (fun mesh after => mesh.Becomes after ∧ after.Whole ∧ after.loaded = true)
      r.meshes meshes :=
    (related_of_mapM .option hmapM).imp fun uid mesh after hmesh ⟨_, s, s', hrun⟩ =>
      (stores_storeMesh (h.mesh uid mesh hmesh) hrun).2
  obtain ⟨hcount, n, hmakes, hperm⟩ := stores_mapM Mesh.loaded Mesh.handles .option hmapM
    fun mesh hmem _ s after s' hrun => by
      obtain ⟨uid, hget⟩ := h.meshes.mem_objects.1 hmem
      exact (stores_storeMesh (h.mesh uid mesh hget) hrun).1
  refine ⟨⟨⟨wellFormed_mapM .option hmapM h.meshes, h.images, fun uid mesh hget => ?_, h.image,
    h.numbered, h.samplers⟩, { Follows.refl r with meshes := ?_ }, ?_, n, hmakes, ?_⟩, rfl, rfl, ?_⟩
  · obtain ⟨_, -, -, hwhole, -⟩ := hrelated.exists_before hget
    exact hwhole
  · exact hrelated.imp fun _ _ _ _ hmesh => hmesh.1
  · simp only [residents]
    omega
  · refine List.perm_iff_count.2 fun handle => ?_
    have hhandle := hperm.count_eq handle
    simp only [handles, List.count_append] at hhandle ⊢
    omega
  · exact hrelated.imp fun _ _ _ _ hmesh => hmesh.2.2

theorem advances_storeImages (h : r.Consistent decoder)
    (hstore : r.storeImages gpu = (count, after, gpu')) : Advances decoder r gpu count after gpu' ∧
      after.meshes = r.meshes ∧ after.defaultSampler = r.defaultSampler ∧
        Related (fun image after => after.isDecoded = image.isDecoded ∧
          after.isLoaded = image.isDecoded) r.images after.images := by
  cases hmapM : (r.images.mapM fun _ image => storeImage image).run (0, gpu) with
  | mk images s' =>
    have hafter : (s'.1, { r with images }, s'.2) = (count, after, gpu') := by
      rw [← hstore, storeImages, hmapM]
    cases hafter
    have hrelated : Related (fun image after => image.Becomes after ∧ after.Whole decoder ∧
        (after.isDecoded → after.isLoaded) ∧ after.bitmap = image.bitmap) r.images images :=
      (related_of_mapM .id hmapM).imp fun uid image after himage ⟨_, s, s', hrun⟩ =>
        (stores_storeImage (h.image uid image himage) hrun).2
    obtain ⟨hcount, n, hmakes, hperm⟩ :=
      stores_mapM SceneImage.isLoaded SceneImage.handles .id hmapM
        fun image hmem _ s after s' hrun => by
          obtain ⟨uid, hget⟩ := h.images.mem_objects.1 hmem
          exact (stores_storeImage (h.image uid image hget) hrun).1
    refine ⟨⟨⟨h.meshes, wellFormed_mapM .id hmapM h.images, h.mesh, fun uid image hget => ?_,
      fun uid image hget => ?_, h.samplers⟩, { Follows.refl r with images := ?_ }, ?_, n, hmakes,
        ?_⟩, rfl, rfl, ?_⟩
    · obtain ⟨_, -, -, hwhole, -⟩ := hrelated.exists_before hget
      exact hwhole
    · obtain ⟨before, hbefore, hbecomes, -⟩ := hrelated.exists_before hget
      rw [← h.numbered uid before hbefore, ← hbecomes.index_eq]
      rfl
    · exact hrelated.imp fun _ _ _ _ himage => himage.1
    · simp only [residents]
      omega
    · refine List.perm_iff_count.2 fun handle => ?_
      have hhandle := hperm.count_eq handle
      simp only [handles, List.count_append] at hhandle ⊢
      omega
    · refine hrelated.imp fun _ image after _ ⟨_, hwhole, hdone, hbitmap⟩ => ?_
      have hdecoded : after.isDecoded = image.isDecoded := congrArg Option.isSome hbitmap
      refine ⟨hdecoded, Bool.eq_iff_iff.2 ⟨fun hloaded => ?_, fun himage => ?_⟩⟩
      · exact hdecoded ▸ hwhole.isDecoded hloaded
      · exact hdone (hdecoded.symm ▸ himage)

/-! ### Making samplers -/

theorem createSamplers_eq {index : Nat} {configs : List SamplerConfig} {handles : List Handle}
    (hcreate : createSamplers index configs gpu = (handles, gpu')) :
    gpu.Makes gpu' configs.length ∧ handles = List.range' gpu.made configs.length := by
  induction configs generalizing index gpu gpu' handles with
  | nil =>
    cases hcreate
    exact ⟨.refl _, rfl⟩
  | cons config rest ih =>
    have hone : gpu.Makes (gpu.createSampler s!"sampler_{index}").2 1 := .of_log rfl rfl rfl
    cases hrest : createSamplers (index + 1) rest (gpu.createSampler s!"sampler_{index}").2 with
    | mk handles' gpu'' =>
      obtain ⟨hmakes, hhandles⟩ := ih hrest
      simp only [createSamplers, hrest] at hcreate
      cases hcreate
      refine ⟨?_, ?_⟩
      · rw [List.length_cons, Nat.add_comm]
        exact hone.trans hmakes
      · rw [hhandles]
        rfl

theorem advances_storeSamplers (h : r.Consistent decoder)
    (hstore : r.storeSamplers gpu = (after, gpu')) : Advances decoder r gpu 0 after gpu' ∧
      after.defaultSampler.isSome ∧ after.meshes = r.meshes ∧ after.images = r.images := by
  cases hdefault : r.defaultSampler with
  | some handle =>
    simp only [storeSamplers, hdefault] at hstore
    cases hstore
    exact ⟨.refl h gpu, by rw [hdefault]; rfl, rfl, rfl⟩
  | none =>
    have hnone : r.gpuSamplers = [] := by
      rcases h.samplers with ⟨-, hempty⟩ | ⟨hsome, -⟩
      · exact hempty
      · simp [hdefault] at hsome
    cases hcreate : createSamplers 0 r.samplers (gpu.createSampler "default_sampler").2 with
    | mk samplers gpu'' =>
      obtain ⟨hmakes, hsamplers⟩ := createSamplers_eq hcreate
      have hone : gpu.Makes (gpu.createSampler "default_sampler").2 1 := .of_log rfl rfl rfl
      simp only [storeSamplers, hdefault, hcreate] at hstore
      cases hstore
      refine ⟨⟨⟨h.meshes, h.images, h.mesh, h.image, h.numbered, .inr ⟨rfl, ?_⟩⟩,
        { Follows.refl r with gpuSamplers_eq := fun hsome => ?_ }, Nat.zero_add _, _,
          hone.trans hmakes, ?_⟩, rfl, rfl, rfl⟩
      · rw [hsamplers, List.length_range']
      · simp [hdefault] at hsome
      · simp only [handles, hdefault, hnone, hsamplers, ← List.range'_append_1]
        simp [Gpu.createSampler]

/-- All that is stored before the meshes are. -/
theorem exists_storeAll_eq (h : r.Consistent decoder) (gpu : Gpu) : ∃ images between gpu',
    r.storeAll gpu =
        (between.storeMeshes gpu').map (fun stored => (images + stored.1, stored.2)) ∧
      Advances decoder r gpu images between gpu' ∧ between.meshes = r.meshes ∧
        between.defaultSampler.isSome ∧ Related (fun image after =>
          after.isDecoded = image.isDecoded ∧ after.isLoaded = image.isDecoded)
            r.images between.images := by
  cases hsamplers : r.storeSamplers gpu with
  | mk r₁ gpu₁ =>
    cases himages : r₁.storeImages gpu₁ with
    | mk images stored =>
      obtain ⟨r₂, gpu₂⟩ := stored
      obtain ⟨hadvances₁, hdefault, hmeshes₁, himages₁⟩ := advances_storeSamplers h hsamplers
      obtain ⟨hadvances₂, hmeshes₂, hdefault₂, hrelated⟩ :=
        advances_storeImages hadvances₁.consistent himages
      have hadvances := hadvances₁.trans hadvances₂
      rw [Nat.zero_add] at hadvances
      refine ⟨images, r₂, gpu₂, ?_, hadvances, hmeshes₂.trans hmeshes₁, ?_, himages₁ ▸ hrelated⟩
      · simp only [storeAll, hsamplers, himages]
        cases r₂.storeMeshes gpu₂ <;> rfl
      · rw [hdefault₂]
        exact hdefault

end Diorama.SceneResources

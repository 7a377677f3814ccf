import Diorama.Image.Decode
import Diorama.Proofs.Reading
import Diorama.Proofs.Residency

/-! Calls on the resources of a scene, in any order and number: what they have done shows in which
of them were made, and in the order of these. -/

namespace Diorama

inductive Call where
  | decodeImages
  | storeMeshes
  | storeAll
deriving DecidableEq, Repr

namespace SceneResources

open Registry

/-- What a call makes of the resources and the graphics processor, and the number it returns. -/
def call (r : SceneResources) (decoder : ImageDecoder) (gpu : Gpu) :
    Call → Option (Nat × SceneResources × Gpu)
  | .decodeImages => (r.decodeImages decoder).map fun logged => (0, logged.value, gpu)
  | .storeMeshes => r.storeMeshes gpu
  | .storeAll => r.storeAll gpu

/-- Calls one after the other, with the sum of the numbers that they return. -/
def run (r : SceneResources) (decoder : ImageDecoder) (gpu : Gpu) :
    List Call → Option (Nat × SceneResources × Gpu)
  | [] => some (0, r, gpu)
  | call :: rest => do
    let (count, r, gpu) ← r.call decoder gpu call
    let (more, r, gpu) ← r.run decoder gpu rest
    return (count + more, r, gpu)

/-- What one call does to each mesh and each image, and to the samplers. -/
structure Does (decoder : ImageDecoder) (call : Call) (r after : SceneResources) : Prop where
  mesh : Related (fun mesh after => after.loaded ↔ mesh.loaded ∨ call ≠ .decodeImages)
    r.meshes after.meshes
  isDecoded : Related (fun image after =>
    (after.isDecoded ↔ image.isDecoded ∨ call = .decodeImages ∧ image.isDecodable decoder))
      r.images after.images
  isLoaded : Related (fun image after =>
    (after.isLoaded ↔ image.isLoaded ∨ call = .storeAll ∧ image.isDecoded)) r.images after.images
  sampler : after.defaultSampler.isSome ↔ r.defaultSampler.isSome ∨ call = .storeAll

variable {decoder : ImageDecoder} {r after : SceneResources} {gpu gpu' : Gpu} {count : Nat}
  {call : Call} {calls : List Call}

theorem advances_storeAll (h : r.Consistent decoder)
    (hstore : r.storeAll gpu = some (count, after, gpu')) :
    Advances decoder r gpu count after gpu' ∧ Does decoder .storeAll r after := by
  obtain ⟨images, between, gpu₁, heq, hadvances, hmeshes, hdefault, himages⟩ :=
    exists_storeAll_eq h gpu
  rw [heq] at hstore
  obtain ⟨⟨meshes, last, gpu₂⟩, hstored, hafter⟩ := Option.map_eq_some_iff.1 hstore
  cases hafter
  obtain ⟨hadvances', himages', hdefault', hloaded⟩ :=
    advances_storeMeshes hadvances.consistent hstored
  refine ⟨hadvances.trans hadvances', ⟨?_, ?_, ?_, ?_⟩⟩
  · rw [hmeshes] at hloaded
    exact hloaded.imp fun _ _ _ _ hmesh => by simp [hmesh]
  · rw [himages']
    exact himages.imp fun _ _ _ _ himage => by simp [himage.1]
  · rw [himages']
    refine himages.imp fun uid image after hget himage => ?_
    rw [himage.2]
    exact ⟨fun hdecoded => .inr ⟨rfl, hdecoded⟩, fun hor =>
      hor.elim (h.image uid image hget).isDecoded fun hdecoded => hdecoded.2⟩
  · rw [hdefault']
    simp [hdefault]

theorem advances_call (h : r.Consistent decoder)
    (hcall : r.call decoder gpu call = some (count, after, gpu')) :
    Advances decoder r gpu count after gpu' ∧ Does decoder call r after := by
  cases call with
  | decodeImages =>
    obtain ⟨logged, hdecode, hafter⟩ := Option.map_eq_some_iff.1 hcall
    cases hafter
    obtain ⟨hadvances, hmeshes, hdefault, hrelated⟩ := advances_decodeImages h hdecode gpu
    refine ⟨hadvances, ⟨?_, ?_, ?_, ?_⟩⟩
    · rw [hmeshes]
      exact .refl (fun _ => by simp) _
    · refine hrelated.imp fun _ image _ _ hafter => ?_
      rw [hafter, SceneImage.isDecoded_decoded]
      simp
    · refine hrelated.imp fun _ image _ _ hafter => ?_
      rw [hafter]
      simp [SceneImage.decoded, SceneImage.isLoaded]
    · rw [hdefault]
      simp
  | storeMeshes =>
    obtain ⟨hadvances, himages, hdefault, hrelated⟩ := advances_storeMeshes h hcall
    refine ⟨hadvances, ⟨?_, ?_, ?_, ?_⟩⟩
    · exact hrelated.imp fun _ _ _ _ hloaded => by simp [hloaded]
    · rw [himages]
      exact .refl (fun _ => by simp) _
    · rw [himages]
      exact .refl (fun _ => by simp) _
    · rw [hdefault]
      simp
  | storeAll => exact advances_storeAll h hcall

/-- What is decoded and stored is what the calls up to now were made for: an image is stored where
the decoder finds pixels in its bytes and it was decoded before some call that stores all. -/
structure Reflects (decoder : ImageDecoder) (calls : List Call) (r : SceneResources) : Prop where
  mesh : ∀ uid mesh, r.meshes.get? uid = some mesh →
    (mesh.loaded ↔ .storeMeshes ∈ calls ∨ .storeAll ∈ calls)
  isDecoded : ∀ uid image, r.images.get? uid = some image →
    (image.isDecoded ↔ image.isDecodable decoder ∧ .decodeImages ∈ calls)
  isLoaded : ∀ uid image, r.images.get? uid = some image →
    (image.isLoaded ↔ image.isDecodable decoder ∧ [.decodeImages, .storeAll].Sublist calls)
  sampler : r.defaultSampler.isSome ↔ .storeAll ∈ calls

theorem pair_sublist_concat_iff {α : Type} {a b c : α} {as : List α} :
    [a, b].Sublist (as ++ [c]) ↔ [a, b].Sublist as ∨ c = b ∧ a ∈ as := by
  have hreverse : ∀ bs : List α, [a, b].Sublist bs ↔ [b, a].Sublist bs.reverse :=
    fun _ => List.reverse_sublist.symm
  rw [hreverse, hreverse, List.reverse_append]
  refine List.sublist_cons_iff.trans (or_congr_right ⟨?_, ?_⟩)
  · rintro ⟨rest, hcons, hrest⟩
    cases hcons
    exact ⟨rfl, List.mem_reverse.1 (List.singleton_sublist.1 hrest)⟩
  · rintro ⟨rfl, hmem⟩
    exact ⟨[a], rfl, List.singleton_sublist.2 (List.mem_reverse.2 hmem)⟩

theorem Reflects.does (h : Reflects decoder calls r) (hfollows : r.Follows after)
    (hdoes : Does decoder call r after) :
    Reflects decoder (calls ++ [call]) after where
  mesh uid mesh hget := by
    obtain ⟨before, hbefore, hloaded⟩ := hdoes.mesh.exists_before hget
    rw [hloaded, h.mesh uid before hbefore]
    cases call <;> simp
  isDecoded uid image hget := by
    obtain ⟨before, hbefore, hbecomes, hdecoded⟩ :=
      (hfollows.images.and hdoes.isDecoded).exists_before hget
    rw [hdecoded, h.isDecoded uid before hbefore, hbecomes.isDecodable_eq]
    cases call <;> simp +contextual
  isLoaded uid image hget := by
    obtain ⟨before, hbefore, hbecomes, hloaded⟩ :=
      (hfollows.images.and hdoes.isLoaded).exists_before hget
    rw [hloaded, h.isLoaded uid before hbefore, h.isDecoded uid before hbefore,
      hbecomes.isDecodable_eq, pair_sublist_concat_iff]
    cases call <;> simp [and_or_left]
  sampler := by
    rw [hdoes.sampler, h.sampler]
    cases call <;> simp

theorem advances_run (h : r.Consistent decoder) {before : List Call}
    (hbefore : Reflects decoder before r)
    (hrun : r.run decoder gpu calls = some (count, after, gpu')) :
    Advances decoder r gpu count after gpu' ∧ Reflects decoder (before ++ calls) after := by
  induction calls generalizing before r gpu count with
  | nil =>
    cases hrun
    exact ⟨.refl h _, by rwa [List.append_nil]⟩
  | cons call rest ih =>
    obtain ⟨⟨count, r₁, gpu₁⟩, hcall, hrun⟩ := Option.bind_eq_some_iff.1 hrun
    obtain ⟨⟨more, r₂, gpu₂⟩, hrest, hafter⟩ := Option.bind_eq_some_iff.1 hrun
    cases hafter
    obtain ⟨hadvances, hdoes⟩ := advances_call h hcall
    obtain ⟨hadvances', hreflects⟩ :=
      ih hadvances.consistent (hbefore.does hadvances.follows hdoes) hrest
    exact ⟨hadvances.trans hadvances', by rwa [List.append_assoc] at hreflects⟩

/-! ### Where calls return -/

/-- The bytes that a call is about can be read. -/
def Readable (r : SceneResources) : Call → Prop
  | .decodeImages => ∀ uid image, r.images.get? uid = some image → image.data.bytes?.isSome
  | .storeMeshes | .storeAll => ∀ uid mesh, r.meshes.get? uid = some mesh → mesh.Readable

theorem Follows.readable_iff (h : r.Follows after) (call : Call) :
    after.Readable call ↔ r.Readable call := by
  have himages : after.Readable .decodeImages ↔ r.Readable .decodeImages :=
    h.images.forall_iff fun _ _ hbecomes => by rw [hbecomes.data_eq]
  have hmeshes : after.Readable .storeMeshes ↔ r.Readable .storeMeshes :=
    h.meshes.forall_iff fun _ _ hbecomes => hbecomes.readable_iff
  cases call with
  | decodeImages => exact himages
  | storeMeshes => exact hmeshes
  | storeAll => exact hmeshes

theorem isSome_decodeImages_iff_readable (h : r.Consistent decoder) :
    (r.decodeImages decoder).isSome ↔ r.Readable .decodeImages := by
  rw [isSome_decodeImages_iff]
  constructor
  · intro hread uid image hget
    cases hbitmap : image.bitmap with
    | none =>
      refine hread image (List.mem_filter.2 ⟨h.images.mem_objects.2 ⟨uid, hget⟩, ?_⟩)
      simp [SceneImage.isDecoded, hbitmap]
    | some bitmap =>
      have hdecode := (h.image uid image hget).decode? bitmap hbitmap
      exact Option.isSome_map.symm.trans (Option.isSome_of_eq_some hdecode)
  · intro hread image himage
    obtain ⟨uid, hget⟩ := h.images.mem_objects.1 (List.mem_filter.1 himage).1
    exact hread uid image hget

theorem isSome_storeMeshes_iff (h : r.Consistent decoder) (gpu : Gpu) :
    (r.storeMeshes gpu).isSome ↔ r.Readable .storeMeshes := by
  have hmapM : (r.storeMeshes gpu).isSome ↔
      ((r.meshes.mapM fun _ mesh => storeMesh mesh).run (0, gpu)).isSome := by
    unfold storeMeshes
    cases (r.meshes.mapM fun _ mesh => storeMesh mesh).run (0, gpu) <;> simp
  rw [hmapM]
  constructor
  · intro hsome uid mesh hget
    obtain ⟨⟨meshes, s⟩, hstored⟩ := Option.isSome_iff_exists.1 hsome
    obtain ⟨after, -, _, s, s', hrun⟩ := (related_of_mapM .option hstored).exists_after hget
    have hstore := Option.isSome_of_eq_some hrun
    rw [run_storeMesh, Option.isSome_map] at hstore
    exact ((h.mesh uid mesh hget).isSome_store_iff s.2).1 hstore
  · intro hread
    refine isSome_mapM fun mesh hmem _ s => ?_
    obtain ⟨uid, hget⟩ := h.meshes.mem_objects.1 hmem
    rw [run_storeMesh, Option.isSome_map]
    exact ((h.mesh uid mesh hget).isSome_store_iff s.2).2 (hread uid mesh hget)

theorem isSome_call_iff (h : r.Consistent decoder) (gpu : Gpu) (call : Call) :
    (r.call decoder gpu call).isSome ↔ r.Readable call := by
  cases call with
  | decodeImages =>
    rw [SceneResources.call, Option.isSome_map]
    exact isSome_decodeImages_iff_readable h
  | storeMeshes => exact isSome_storeMeshes_iff h gpu
  | storeAll =>
    obtain ⟨images, between, gpu₁, heq, hadvances, -⟩ := exists_storeAll_eq h gpu
    rw [SceneResources.call, heq, Option.isSome_map]
    exact (isSome_storeMeshes_iff hadvances.consistent gpu₁).trans
      (hadvances.follows.readable_iff .storeMeshes)

/-- Calls return where all that they are about can be read. -/
theorem isSome_run_iff (h : r.Consistent decoder) (gpu : Gpu) (calls : List Call) :
    (r.run decoder gpu calls).isSome ↔ ∀ call ∈ calls, r.Readable call := by
  induction calls generalizing r gpu with
  | nil => simp [run]
  | cons call rest ih =>
    rw [List.forall_mem_cons, ← isSome_call_iff h gpu call, run]
    cases hcall : r.call decoder gpu call with
    | none => simp
    | some called =>
      obtain ⟨count, r₁, gpu₁⟩ := called
      obtain ⟨hadvances, -⟩ := advances_call h hcall
      have hrest := ih hadvances.consistent gpu₁
      simp only [hadvances.follows.readable_iff] at hrest
      rw [← hrest]
      cases hrun : r₁.run decoder gpu₁ rest <;> simp [hrun]

/-! ### What is read -/

/-- The image of a number in the document. -/
def image? (r : SceneResources) (index : Nat) : Option SceneImage := do
  r.images.get? (← r.imageUid? index)

/-- The resources of a scene as they are read: nothing of them is decoded or stored. -/
structure IsRead (scene : SceneData) (r : SceneResources) : Prop where
  meshes : r.meshes.WellFormed
  images : r.images.WellFormed
  numbered : r.Numbered
  mesh : ∀ uid mesh, r.meshes.get? uid = some mesh → mesh.loaded = false ∧ mesh.handles = [] ∧
    ∀ range ∈ mesh.ranges, scene.Gives range
  image : ∀ uid image, r.images.get? uid = some image → image.bitmap = none ∧ image.texture = none ∧
    scene.Gives image.data
  imageUid : ∀ index uid, r.imageUid? index = some uid →
    ∃ image, r.images.get? uid = some image ∧ image.index = index
  imageUids : r.imageUids.length = scene.document.images.length
  textures_eq : r.textures = scene.document.textures
  samplers : r.samplers.length = scene.document.samplers.length
  defaultSampler : r.defaultSampler = none
  gpuSamplers : r.gpuSamplers = []

theorem isRead_of_new {scene : SceneData} (hnew : (new scene).value = some (.ok r)) :
    IsRead scene r := by
  obtain ⟨makes, meshes, hmakes, hmeshes, rfl⟩ := value_new_eq_ok_iff.1 hnew
  have hmesh : ∀ uid mesh, (Registry.empty.insertAll (meshes.map Mesh.under)).2.get? uid =
      some mesh → mesh.loaded = false ∧ mesh.handles = [] ∧
        ∀ range ∈ mesh.ranges, scene.Gives range :=
    fun uid mesh hget => unstored_of_get? hmeshes hget
  have himage : ∀ uid image, (Registry.empty.insertAll makes).2.get? uid = some image →
      (Registry.empty.insertAll makes).1[image.index]? = some uid ∧ image.bitmap = none ∧
        image.texture = none ∧ scene.Gives image.data := by
    intro uid image hget
    rw [wellFormed_empty.get?_insertAll_eq_some_iff, get?_empty] at hget
    obtain hget | ⟨i, make, hmake, huid, rfl⟩ := hget
    · cases hget
    obtain ⟨hindex, hundecoded⟩ := undecoded_of_getElem? hmakes hmake uid
    exact ⟨hindex.symm ▸ huid, hundecoded⟩
  refine ⟨wellFormed_empty.insertAll _, wellFormed_empty.insertAll _,
    fun uid image hget => (himage uid image hget).1, hmesh,
    fun uid image hget => (himage uid image hget).2, fun index uid huid => ?_, ?_, rfl, ?_, rfl,
      rfl⟩
  · have hlt : index < makes.length := by
      rw [← length_insertAll Registry.empty makes]
      exact (List.getElem?_eq_some_iff.1 huid).1
    have hmake : makes[index]? = some makes[index] := List.getElem?_eq_getElem hlt
    refine ⟨makes[index] uid, ?_, (undecoded_of_getElem? hmakes hmake uid).1⟩
    exact wellFormed_empty.get?_insertAll_eq_some_iff.2 (.inr ⟨index, _, hmake, huid, rfl⟩)
  · have hlength := congrArg List.length (mapM_eq_ok_iff.1 hmakes)
    simp only [List.length_map, List.length_zipIdx] at hlength
    exact (length_insertAll _ _).trans hlength.symm
  · exact List.length_map _

namespace IsRead

variable {scene : SceneData}

theorem consistent (h : IsRead scene r) (decoder : ImageDecoder) : r.Consistent decoder := by
  refine ⟨h.meshes, h.images, fun uid mesh hget => ?_, fun uid image hget => ?_, h.numbered,
    .inl ⟨h.defaultSampler, h.gpuSamplers⟩⟩
  · obtain ⟨hloaded, hhandles, -⟩ := h.mesh uid mesh hget
    have hnot : ¬mesh.loaded := by simp [hloaded]
    exact ⟨fun _ => hhandles, fun htrue => absurd htrue hnot, fun htrue => absurd htrue hnot,
      fun htrue => absurd htrue hnot⟩
  · obtain ⟨hbitmap, htexture, -⟩ := h.image uid image hget
    exact ⟨fun hloaded => by simp [SceneImage.isLoaded, htexture] at hloaded,
      fun bitmap hsome => by cases hbitmap.symm.trans hsome⟩

theorem residents_eq (h : IsRead scene r) : r.residents = 0 := by
  have hmeshes : r.meshes.objects.countP Mesh.loaded = 0 := by
    refine List.countP_eq_zero.2 fun mesh hmem => ?_
    obtain ⟨uid, hget⟩ := h.meshes.mem_objects.1 hmem
    simp [(h.mesh uid mesh hget).1]
  have himages : r.images.objects.countP SceneImage.isLoaded = 0 := by
    refine List.countP_eq_zero.2 fun image hmem => ?_
    obtain ⟨uid, hget⟩ := h.images.mem_objects.1 hmem
    simp [SceneImage.isLoaded, (h.image uid image hget).2.1]
  rw [residents, hmeshes, himages]

theorem handles_eq (h : IsRead scene r) : r.handles = [] := by
  have hmeshes : r.meshes.objects.flatMap Mesh.handles = [] := by
    refine List.flatMap_eq_nil_iff.2 fun mesh hmem => ?_
    obtain ⟨uid, hget⟩ := h.meshes.mem_objects.1 hmem
    exact (h.mesh uid mesh hget).2.1
  have himages : r.images.objects.flatMap SceneImage.handles = [] := by
    refine List.flatMap_eq_nil_iff.2 fun image hmem => ?_
    obtain ⟨uid, hget⟩ := h.images.mem_objects.1 hmem
    simp [SceneImage.handles, (h.image uid image hget).2.1]
  rw [handles, hmeshes, himages, h.defaultSampler, h.gpuSamplers]
  rfl

theorem reflects (h : IsRead scene r) : Reflects decoder [] r where
  mesh uid mesh hget := by simp [(h.mesh uid mesh hget).1]
  isDecoded uid image hget := by simp [SceneImage.isDecoded, (h.image uid image hget).1]
  isLoaded uid image hget := by simp [SceneImage.isLoaded, (h.image uid image hget).2.1]
  sampler := by simp [h.defaultSampler]

theorem readable (h : IsRead scene r) (call : Call) : r.Readable call := by
  have hmeshes : r.Readable .storeMeshes := fun uid mesh hget range hrange =>
    ((h.mesh uid mesh hget).2.2 range hrange).isSome_bytes?
  cases call with
  | decodeImages => exact fun uid image hget => (h.image uid image hget).2.2.isSome_bytes?
  | storeMeshes => exact hmeshes
  | storeAll => exact hmeshes

/-- Calls return. -/
theorem isSome_run (h : IsRead scene r) (decoder : ImageDecoder) (gpu : Gpu) (calls : List Call) :
    (r.run decoder gpu calls).isSome :=
  (isSome_run_iff (h.consistent decoder) gpu calls).2 fun call _ => h.readable call

/-- An image is found by each number of the document, also later on. -/
theorem isSome_image? (h : IsRead scene r) (hfollows : r.Follows after) (index : Nat) :
    (after.image? index).isSome ↔ index < scene.document.images.length := by
  unfold image? imageUid?
  rw [hfollows.imageUids_eq, ← h.imageUids]
  cases huid : r.imageUids[index]? with
  | none => simpa using List.getElem?_eq_none_iff.1 huid
  | some uid =>
    obtain ⟨image, hget, -⟩ := h.imageUid index uid huid
    obtain ⟨image', hget', -⟩ := hfollows.images.exists_after hget
    simpa [hget'] using (List.getElem?_eq_some_iff.1 huid).1

theorem index_image? (h : IsRead scene r) (hfollows : r.Follows after) (index : Nat)
    (image : SceneImage) (himage : after.image? index = some image) : image.index = index := by
  obtain ⟨uid, huid, hget⟩ := Option.bind_eq_some_iff.1 himage
  rw [imageUid?, hfollows.imageUids_eq] at huid
  obtain ⟨before, hbefore, hbecomes⟩ := hfollows.images.exists_before hget
  obtain ⟨before', hbefore', hindex⟩ := h.imageUid index uid huid
  obtain rfl : before = before' := Option.some.inj (hbefore.symm.trans hbefore')
  rw [hbecomes.index_eq, hindex]

end IsRead

/-! ### Views and samplers -/

theorem view_eq_ok_iff {image : SceneImage} {texture : Texture} :
    image.view = .ok texture ↔ image.texture = some texture := by
  unfold SceneImage.view
  cases image.texture <;> simp

theorem imageOf_eq_ok_iff {t : Nat} {image : SceneImage} : r.imageOf t = .ok image ↔
    ∃ source, r.textures[t]? = some source ∧ r.image? source.source = some image := by
  unfold imageOf image?
  cases htexture : r.textures[t]? with
  | none => simp
  | some source =>
    cases huid : r.imageUid? source.source with
    | none => simp [huid]
    | some uid => cases hget : r.images.get? uid <;> simp [huid, hget]

theorem textureView_eq_ok_iff {t : Nat} {texture : Texture} : r.textureView t = .ok texture ↔
    ∃ source image, r.textures[t]? = some source ∧ r.image? source.source = some image ∧
      image.texture = some texture := by
  have hview : r.textureView t = .ok texture ↔
      ∃ image, r.imageOf t = .ok image ∧ image.view = .ok texture := bind_eq_ok_iff
  simp only [hview, imageOf_eq_ok_iff, view_eq_ok_iff]
  constructor
  · rintro ⟨image, ⟨source, hsource, himage⟩, htexture⟩
    exact ⟨source, image, hsource, himage, htexture⟩
  · rintro ⟨source, image, hsource, himage, htexture⟩
    exact ⟨image, ⟨source, hsource, himage⟩, htexture⟩

theorem exists_sampler_iff (h : r.Consistent decoder) {t : Nat} :
    (∃ handle, r.sampler t = .ok handle) ↔
      r.defaultSampler.isSome ∧ ∃ source, r.textures[t]? = some source ∧
        ∀ i, source.sampler = some i → i < r.samplers.length := by
  have hsampler : (∃ handle, r.sampler t = .ok handle) ↔ ∃ handle, r.sampler? t = some handle := by
    unfold sampler
    cases r.sampler? t <;> simp
  rw [hsampler]
  unfold sampler?
  cases htexture : r.textures[t]? with
  | none => simp
  | some source =>
    cases hindex : source.sampler with
    | none => simp [hindex, Option.isSome_iff_exists]
    | some index =>
      rcases h.samplers with ⟨hnone, hempty⟩ | ⟨hsome, hlength⟩
      · simp [hindex, hnone, hempty]
      · simp only [hindex, hsome, ← hlength, Option.bind_eq_bind, Option.bind_some, true_and,
          Option.some_inj, exists_eq_left', forall_eq']
        exact ⟨fun ⟨_, hget⟩ => (List.getElem?_eq_some_iff.1 hget).1,
          fun hlt => ⟨_, List.getElem?_eq_getElem hlt⟩⟩

/-! ### Runs -/

/-- What holds of the resources of a scene after calls that have returned `count` in all, and of
what was made on the graphics processor. -/
structure Accounts (scene : SceneData) (decoder : ImageDecoder) (gpu : Gpu) (calls : List Call)
    (count : Nat) (r : SceneResources) (gpu' : Gpu) : Prop where
  /-- Each object that was made is in use, and in one place. -/
  made : ∃ handles, gpu.MadeSince gpu' handles ∧ handles.Nodup ∧ handles.Perm r.handles
  count_eq : count = r.residents
  mesh : ∀ uid mesh, r.meshes.get? uid = some mesh → mesh.Whole
  image : ∀ uid image, r.images.get? uid = some image → image.Whole decoder
  reflects : Reflects decoder calls r
  isSome_image? : ∀ index, (r.image? index).isSome ↔ index < scene.document.images.length
  index_image? : ∀ index image, r.image? index = some image → image.index = index
  textureView : ∀ t texture, r.textureView t = .ok texture ↔ ∃ source image,
    scene.document.textures[t]? = some source ∧ r.image? source.source = some image ∧
      image.texture = some texture
  sampler : ∀ t, (∃ handle, r.sampler t = .ok handle) ↔ .storeAll ∈ calls ∧ ∃ source,
    scene.document.textures[t]? = some source ∧
      ∀ i, source.sampler = some i → i < scene.document.samplers.length

theorem IsRead.accounts {scene : SceneData} (h : IsRead scene r)
    (hrun : r.run decoder gpu calls = some (count, after, gpu')) :
    Accounts scene decoder gpu calls count after gpu' := by
  obtain ⟨hadvances, hreflects⟩ := advances_run (h.consistent decoder) h.reflects hrun
  have hfollows := hadvances.follows
  have hconsistent := hadvances.consistent
  refine ⟨?_, ?_, hconsistent.mesh, hconsistent.image, hreflects,
    h.isSome_image? hfollows, h.index_image? hfollows, fun t texture => ?_, fun t => ?_⟩
  · obtain ⟨n, hmakes, hperm⟩ := hadvances.makes
    rw [h.handles_eq, List.nil_append] at hperm
    exact ⟨_, hmakes.2, List.nodup_range', hperm.symm⟩
  · rw [← hadvances.count_eq, h.residents_eq, Nat.add_zero]
  · rw [textureView_eq_ok_iff, hfollows.textures_eq, h.textures_eq]
  · rw [exists_sampler_iff hconsistent, hreflects.sampler, hfollows.textures_eq, h.textures_eq,
      hfollows.samplers_eq, h.samplers]
    rfl

/-- Calls in any order and number return, whatever the decoder reads.  After them what they have
counted is what is stored, each object was made once, and what was stored stays. -/
theorem run_accounts {scene : SceneData} (hnew : (new scene).value = some (.ok r))
    (decoder : ImageDecoder) (gpu : Gpu) :
    (∀ calls, (r.run decoder gpu calls).isSome) ∧
      ∀ calls count after gpu', r.run decoder gpu calls = some (count, after, gpu') →
        Accounts scene decoder gpu calls count after gpu' ∧ ∀ more count' last gpu'',
          after.run decoder gpu' more = some (count', last, gpu'') → after.Follows last := by
  have hread := isRead_of_new hnew
  refine ⟨hread.isSome_run decoder gpu, fun calls count after gpu' hrun =>
    ⟨hread.accounts hrun, fun more count' last gpu'' hmore => ?_⟩⟩
  obtain ⟨hadvances, hreflects⟩ := advances_run (hread.consistent decoder) hread.reflects hrun
  exact (advances_run hadvances.consistent hreflects hmore).1.follows

/-- A bitmap of one pixel. -/
def onePixel : List UInt8 :=
  [0x42, 0x4D, 58, 0, 0, 0, 0, 0, 0, 0, 54, 0, 0, 0, 40, 0, 0, 0, 1, 0, 0, 0, 1, 0, 0, 0, 1, 0, 24,
    0, 0, 0, 0, 0, 4, 0, 0, 0, 0, 0, 0, 0, 0, 0, 0, 0, 0, 0, 0, 0, 0, 0, 0, 0, 1, 2, 3, 0]

/-- A mesh without attributes, and two images: a bitmap, and one with the bytes of the indices. -/
def painted : SceneData where
  document := {
    scene := none
    scenes := []
    nodes := []
    meshes := [⟨some "line", [⟨[], some 0, none⟩]⟩]
    accessors := [⟨some 0, none, 2, some .u16, some .scalar⟩]
    bufferViews := [⟨0, none, 4, none⟩, ⟨1, none, 58, none⟩]
    materials := []
    textures := [⟨0, none⟩, ⟨1, none⟩, ⟨0, some 0⟩]
    images := [⟨some "pixel", some 1, "image/bmp"⟩, ⟨some "text", some 0, "image/bmp"⟩]
    samplers := [] }
  bins := [[0, 0, 1, 0], onePixel]

/-- Calls on a mesh and two images return.  All but the image whose bytes are no bitmap are stored,
and the textures of the other have views. -/
theorem run_accounts_painted : ∃ r count after gpu', (new painted).value = some (.ok r) ∧
    (∀ calls, (r.run Image.decoder {} calls).isSome) ∧
      r.run Image.decoder {} [.storeAll, .decodeImages, .storeAll] = some (count, after, gpu') ∧
        Accounts painted Image.decoder {} [.storeAll, .decodeImages, .storeAll] count after gpu' ∧
        count = 2 ∧
        (List.range 4).map (fun t => (after.textureView t).toBool) = [true, false, true, false] ∧
        (List.range 4).map (fun t => (after.sampler t).toBool) = [true, true, false, false] := by
  have hread : ∃ r, (new painted).value = some (.ok r) ∧
      (r.run Image.decoder {} [.storeAll, .decodeImages, .storeAll]).map (fun (count, after, _) =>
        (count, (List.range 4).map fun t => (after.textureView t).toBool,
          (List.range 4).map fun t => (after.sampler t).toBool)) =
            some (2, [true, false, true, false], [true, true, false, false]) :=
    ⟨_, rfl, by decide +kernel⟩
  obtain ⟨r, hnew, hresult⟩ := hread
  obtain ⟨⟨count, after, gpu'⟩, hrun, hvalues⟩ := Option.map_eq_some_iff.1 hresult
  simp only [Prod.mk.injEq] at hvalues
  obtain ⟨rfl, hviews, hsamplers⟩ := hvalues
  obtain ⟨hreturns, haccounts⟩ := run_accounts hnew Image.decoder {}
  exact ⟨r, 2, after, gpu', hnew, hreturns, hrun, (haccounts _ _ _ _ hrun).1, rfl, hviews,
    hsamplers⟩

end SceneResources

end Diorama

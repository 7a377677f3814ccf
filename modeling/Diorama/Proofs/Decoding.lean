import Diorama.Proofs.Storing

/-! Decoding the images of a scene, with any decoder: each image gets the pixels that its own bytes
hold, whatever the bytes of the others are. -/

namespace Diorama

namespace Registry

variable {α β : Type}

/-- A change of one object that does not show in `f` does not show there in all. -/
theorem map_objects_modify (r : Registry α) (uid : Uid) {f : α → β} {g : α → α}
    (hsame : ∀ a, f (g a) = f a) : (r.modify uid g).objects.map f = r.objects.map f := by
  have hslots : ∀ slots : List (Option α),
      (slots.filterMap id).map f = (slots.map (Option.map f)).filterMap id := by
    intro slots
    rw [List.map_filterMap, List.filterMap_map]
    rfl
  unfold modify
  split
  next object hget =>
    have hslot : r.slots.toList[uid]? = some (some object) := by
      unfold get? at hget
      split at hget
      · cases hget
      · rw [Array.getElem?_toList]
        exact Option.join_eq_some_iff.1 hget
    obtain ⟨hlt, hslot⟩ := List.getElem?_eq_some_iff.1 hslot
    rw [objects_eq, objects_eq, hslots, hslots, Array.toList_setIfInBounds, List.map_set,
      Option.map_some, hsame]
    have hlt' : uid < (r.slots.toList.map (Option.map f)).length := by rwa [List.length_map]
    have hself : some (f object) = (r.slots.toList.map (Option.map f))[uid] := by
      rw [List.getElem_map, hslot, Option.map_some]
    rw [hself, List.set_getElem_self]
  · rfl

end Registry

variable {decoder : ImageDecoder}

namespace SceneImage

/-- Whether the decoder finds pixels in the image's bytes. -/
def isDecodable (image : SceneImage) (decoder : ImageDecoder) : Bool :=
  (image.decode? decoder).join.isSome

/-- An image with the pixels that its bytes hold, if it had none. -/
def decoded (image : SceneImage) (decoder : ImageDecoder) : SceneImage :=
  { image with bitmap := image.bitmap.or (image.decode? decoder).join }

theorem isDecoded_decoded (image : SceneImage) (decoder : ImageDecoder) :
    (image.decoded decoder).isDecoded = (image.isDecoded || image.isDecodable decoder) :=
  Option.isSome_or

theorem Becomes.isDecodable_eq {image after : SceneImage} (h : image.Becomes after) :
    after.isDecodable decoder = image.isDecodable decoder := by
  have hbare : after.bare.isDecodable decoder = image.bare.isDecodable decoder := by rw [h.bare_eq]
  exact hbare

theorem becomes_decoded {image : SceneImage} (hwhole : image.Whole decoder) :
    image.Becomes (image.decoded decoder) ∧ (image.decoded decoder).Whole decoder := by
  refine ⟨⟨rfl, fun bitmap hbitmap => ?_, fun _ htexture => htexture⟩, fun hloaded => ?_,
    fun bitmap hbitmap => ?_⟩
  · rw [decoded, hbitmap, Option.some_or]
  · rw [isDecoded_decoded, hwhole.isDecoded hloaded, Bool.true_or]
  · rcases Option.or_eq_some_iff.1 hbitmap with hbitmap | ⟨-, hbitmap⟩
    · exact hwhole.decode? bitmap hbitmap
    · exact Option.join_eq_some_iff.1 hbitmap

end SceneImage

namespace SceneResources

variable {r after : SceneResources}

/-- Some images have been decoded, and nothing else has been done. -/
structure Decodes (r after : SceneResources) : Prop where
  eq : after = { r with images := after.images, decoded := after.decoded }
  images : after.images.WellFormed
  texture : after.images.objects.map SceneImage.texture = r.images.objects.map SceneImage.texture

theorem Decodes.trans {last : SceneResources} (h : r.Decodes after) (h' : after.Decodes last) :
    r.Decodes last :=
  ⟨by rw [h'.eq, h.eq], h'.images, h'.texture.trans h.texture⟩

theorem Decodes.imageUid?_eq (h : r.Decodes after) (index : Nat) :
    after.imageUid? index = r.imageUid? index := by
  rw [h.eq]
  rfl

/-- What the result of a decoding makes of the image under an identifier. -/
def receive (r : SceneResources) (uid : Uid) (image : SceneImage) (result : Nat × Option Bitmap) :
    SceneImage :=
  if r.imageUid? result.1 = some uid then { image with bitmap := result.2.or image.bitmap }
  else image

theorem decodes_setBitmap (hwell : r.images.WellFormed) (index : Nat) (bitmap : Bitmap) :
    r.Decodes (r.setBitmap index bitmap) ∧ ∀ uid, (r.setBitmap index bitmap).images.get? uid =
      (r.images.get? uid).map (r.receive uid · (index, some bitmap)) := by
  unfold setBitmap receive
  cases hindex : r.imageUid? index with
  | none => exact ⟨⟨rfl, hwell, rfl⟩, fun uid => by simp⟩
  | some found =>
    refine ⟨⟨rfl, hwell.modify found _, r.images.map_objects_modify found fun _ => rfl⟩,
      fun uid => ?_⟩
    rw [hwell.get?_modify]
    by_cases huid : uid = found
    · simp [huid]
    · simp [huid, Ne.symm huid]

theorem decodes_finishDecode (hwell : r.images.WellFormed) (index : Nat) (bitmap : Option Bitmap) :
    r.Decodes (r.finishDecode index bitmap).value ∧
      ∀ uid, (r.finishDecode index bitmap).value.images.get? uid =
        (r.images.get? uid).map (r.receive uid · (index, bitmap)) := by
  cases bitmap with
  | none =>
    refine ⟨⟨rfl, hwell, rfl⟩, fun uid => ?_⟩
    have hsame : ∀ image, r.receive uid image (index, none) = image := fun image => by
      simp [receive]
    simp [hsame]
    rfl
  | some bitmap =>
    obtain ⟨hdecodes, hget⟩ := decodes_setBitmap hwell index bitmap
    exact ⟨hdecodes.trans ⟨rfl, hdecodes.images, rfl⟩, hget⟩

theorem decodes_finishDecodes (hwell : r.images.WellFormed)
    (results : List (Nat × Option Bitmap)) : r.Decodes (r.finishDecodes results).value ∧
      ∀ uid, (r.finishDecodes results).value.images.get? uid =
        (r.images.get? uid).map fun image => results.foldl (r.receive uid) image := by
  induction results generalizing r with
  | nil => exact ⟨⟨rfl, hwell, rfl⟩, fun uid => by simp [finishDecodes]⟩
  | cons result rest ih =>
    obtain ⟨hfirst, hget⟩ := decodes_finishDecode hwell result.1 result.2
    obtain ⟨hrest, hget'⟩ := ih hfirst.images
    refine ⟨hfirst.trans hrest, fun uid => ?_⟩
    have hreceive : (r.finishDecode result.1 result.2).value.receive uid = r.receive uid := by
      funext image other
      rw [receive, receive, hfirst.imageUid?_eq]
    rw [finishDecodes, Logged.value_bind, hget', hget, hreceive, Option.map_map]
    rfl

/-- Results of which none is for an image leave the image alone. -/
theorem foldl_receive_of_ne {uid : Uid} {results : List (Nat × Option Bitmap)}
    (h : ∀ result ∈ results, r.imageUid? result.1 ≠ some uid) (image : SceneImage) :
    results.foldl (r.receive uid) image = image := by
  induction results generalizing image with
  | nil => rfl
  | cons result rest ih =>
    obtain ⟨hresult, hrest⟩ := List.forall_mem_cons.1 h
    rw [List.foldl_cons, receive, if_neg hresult]
    exact ih hrest image

/-- If one result is for an image, it decides. -/
theorem foldl_receive_of_mem {uid : Uid} {results : List (Nat × Option Bitmap)}
    {result : Nat × Option Bitmap} (hnodup : (results.map fun result => r.imageUid? result.1).Nodup)
    (hmem : result ∈ results) (huid : r.imageUid? result.1 = some uid) (image : SceneImage) :
    results.foldl (r.receive uid) image = { image with bitmap := result.2.or image.bitmap } := by
  induction results generalizing image with
  | nil => cases hmem
  | cons first rest ih =>
    rw [List.map_cons, List.nodup_cons] at hnodup
    rcases List.mem_cons.1 hmem with rfl | hmem
    · have hrest : ∀ other ∈ rest, r.imageUid? other.1 ≠ some uid := fun other hother heq =>
        hnodup.1 (List.mem_map.2 ⟨other, hother, heq.trans huid.symm⟩)
      rw [List.foldl_cons, receive, if_pos huid, foldl_receive_of_ne hrest]
    · have hfirst : r.imageUid? first.1 ≠ some uid := fun heq =>
        hnodup.1 (List.mem_map.2 ⟨result, hmem, huid.trans heq.symm⟩)
      rw [List.foldl_cons, receive, if_neg hfirst]
      exact ih hnodup.2 hmem image

/-- The images that have no pixels yet. -/
def undecoded (r : SceneResources) : List SceneImage := r.images.objects.filter (!·.isDecoded)

theorem isSome_decodeImages_iff :
    (r.decodeImages decoder).isSome ↔ ∀ image ∈ r.undecoded, image.data.bytes?.isSome := by
  have hresults := isSome_mapM_iff
    (fun image : SceneImage => (image.decode? decoder).map (image.index, ·)) r.undecoded
  have hdecode : ∀ image : SceneImage,
      ((image.decode? decoder).map (image.index, ·)).isSome = image.data.bytes?.isSome :=
    fun image => by rw [Option.isSome_map, SceneImage.decode?, Option.isSome_map]
  simp only [hdecode] at hresults
  rw [← hresults]
  change Option.isSome (Option.bind (r.undecoded.mapM _) _) ↔ _
  cases r.undecoded.mapM fun image : SceneImage => (image.decode? decoder).map (image.index, ·)
  all_goals rfl

theorem value_of_decodeImages {logged : Logged SceneResources}
    (h : r.decodeImages decoder = some logged) : logged = r.finishDecodes
      (r.undecoded.map fun image => (image.index, (image.decode? decoder).join)) := by
  have hread := isSome_decodeImages_iff.1 (Option.isSome_of_eq_some h)
  have hresults : (r.undecoded.mapM fun image => (image.decode? decoder).map (image.index, ·)) =
      some (r.undecoded.map fun image => (image.index, (image.decode? decoder).join)) := by
    refine mapM_eq_some_map fun image himage => ?_
    obtain ⟨bytes, hbytes⟩ := Option.isSome_iff_exists.1 (hread image himage)
    simp [SceneImage.decode?, hbytes]
  obtain ⟨results, hmapM, hlogged⟩ := Option.bind_eq_some_iff.1 h
  cases hresults.symm.trans hmapM
  exact (Option.some.inj hlogged).symm

/-- Each image of the scene has an identifier by its number in the document. -/
def Numbered (r : SceneResources) : Prop :=
  ∀ uid image, r.images.get? uid = some image → r.imageUid? image.index = some uid

theorem nodup_imageUids (hwell : r.images.WellFormed) (hnumbered : r.Numbered) :
    (r.images.objects.map fun image => r.imageUid? image.index).Nodup := by
  have huids : (r.images.objects.map fun image => r.imageUid? image.index) =
      r.images.toList.map fun entry => some entry.1 := by
    rw [Registry.objects, List.map_map]
    refine List.map_congr_left fun entry hentry => ?_
    exact hnumbered entry.1 entry.2 ((hwell.get?_eq entry.1).trans (Registry.mem_toList.1 hentry))
  rw [huids]
  refine List.pairwise_map.2 (r.images.pairwise_toList.imp fun hlt heq => ?_)
  exact Nat.ne_of_lt hlt (Option.some.inj heq)

/-- Each image gets its own pixels, and none stops another from it. -/
theorem decodes_decodeImages (hwell : r.images.WellFormed) (hnumbered : r.Numbered)
    {logged : Logged SceneResources} (h : r.decodeImages decoder = some logged) :
    r.Decodes logged.value ∧
      ∀ uid, logged.value.images.get? uid = (r.images.get? uid).map (·.decoded decoder) := by
  rw [value_of_decodeImages h]
  obtain ⟨hdecodes, hget⟩ := decodes_finishDecodes hwell
    (r.undecoded.map fun image => (image.index, (image.decode? decoder).join))
  refine ⟨hdecodes, fun uid => (hget uid).trans ?_⟩
  cases himage : r.images.get? uid with
  | none => rfl
  | some image =>
    rw [Option.map_some, Option.map_some]
    by_cases hundecoded : image ∈ r.undecoded
    · have hnone : image.bitmap = none := by
        simpa [SceneImage.isDecoded] using (List.mem_filter.1 hundecoded).2
      have hnodup : ((r.undecoded.map fun image => (image.index, (image.decode? decoder).join)).map
          fun result => r.imageUid? result.1).Nodup := by
        rw [List.map_map]
        exact (nodup_imageUids hwell hnumbered).sublist (List.filter_sublist.map _)
      rw [foldl_receive_of_mem hnodup (List.mem_map_of_mem hundecoded)
        (hnumbered uid image himage), SceneImage.decoded, hnone, Option.or_none, Option.none_or]
    · rw [foldl_receive_of_ne]
      · have hmem : image ∈ r.images.objects := hwell.mem_objects.2 ⟨uid, himage⟩
        have hsome : image.bitmap.isSome := by
          rw [Option.isSome_iff_ne_none]
          simpa [undecoded, hmem, SceneImage.isDecoded] using hundecoded
        rw [SceneImage.decoded, Option.or_of_isSome hsome]
      · intro result hresult
        obtain ⟨other, hother, rfl⟩ := List.mem_map.1 hresult
        obtain ⟨uid', hget'⟩ := hwell.mem_objects.1 (List.mem_filter.1 hother).1
        rw [hnumbered uid' other hget']
        rintro ⟨⟩
        cases himage.symm.trans hget'
        exact hundecoded hother

end SceneResources

end Diorama

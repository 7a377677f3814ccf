import Diorama.Proofs.ByteRanges
import Diorama.Proofs.Mirror
import Diorama.Proofs.Sweep
import Diorama.Scene.Resources
import Mathlib.Data.List.Range

/-! Storing: what of a scene's resources is put on the graphics processor, and when.  An object is
stored once; the objects that this makes are new, and the stored object has them all. -/

namespace Diorama

/-! ### Making objects -/

/-- The objects made since an earlier state are `n` in number, under the handles that came next. -/
def Gpu.Makes (start gpu : Gpu) (n : Nat) : Prop :=
  gpu.made = start.made + n ∧ start.MadeSince gpu (List.range' start.made n)

namespace Gpu.Makes

variable {start gpu after : Gpu} {n k : Nat}

theorem refl (gpu : Gpu) : gpu.Makes gpu 0 := ⟨rfl, [], by simp, rfl⟩

theorem trans (h : start.Makes gpu n) (h' : gpu.Makes after k) : start.Makes after (n + k) := by
  obtain ⟨hmade, hsince⟩ := h
  obtain ⟨hmade', requests, hlog, hrequests⟩ := h'
  refine ⟨by omega, hsince.append hlog ?_⟩
  rw [hrequests, hmade, List.range'_append_1]

theorem of_log {request : GpuEvent} (hmade : after.made = gpu.made + 1)
    (hlog : after.log = gpu.log ++ [request]) (hrequest : request.made? = some gpu.made) :
    gpu.Makes after 1 :=
  ⟨hmade, [request], hlog, by simp [hrequest]⟩

end Gpu.Makes

/-- A buffer to be made of a range of bytes. -/
structure Upload where
  label : String
  usage : BufferUsage
  range : ByteRange

def Upload.request (u : Upload) (handle : Handle) : GpuEvent :=
  .createBuffer handle u.label u.usage (.bytes u.range.slice)

namespace Gpu

/-- Makes buffers, one after the other. -/
def upload (gpu : Gpu) (uploads : List Upload) : Gpu :=
  ⟨gpu.made + uploads.length, gpu.log ++ uploads.mapIdx fun k u => u.request (gpu.made + k)⟩

theorem upload_nil (gpu : Gpu) : gpu.upload [] = gpu := by
  simp [upload]

theorem upload_append (gpu : Gpu) (uploads more : List Upload) :
    (gpu.upload uploads).upload more = gpu.upload (uploads ++ more) := by
  have hnext (k : Nat) : gpu.made + (k + uploads.length) = gpu.made + uploads.length + k := by omega
  simp only [upload, List.length_append, List.mapIdx_append, List.append_assoc, hnext]
  rw [Nat.add_assoc]

theorem makes_upload (gpu : Gpu) (uploads : List Upload) :
    gpu.Makes (gpu.upload uploads) uploads.length := by
  induction uploads generalizing gpu with
  | nil =>
    rw [upload_nil]
    exact .refl gpu
  | cons u uploads ih =>
    have hone : gpu.Makes (gpu.upload [u]) 1 := .of_log rfl rfl rfl
    have hmakes := hone.trans (ih (gpu.upload [u]))
    rwa [upload_append, Nat.add_comm] at hmakes

/-- No later buffer takes the handle of an earlier one. -/
theorem contents?_upload {gpu : Gpu} {uploads : List Upload} {u : Upload} {k : Nat}
    (h : uploads[k]? = some u) :
    (gpu.upload uploads).contents? (gpu.made + k) = some (.bytes u.range.slice) := by
  induction uploads using List.reverseRecOn with
  | nil => cases h
  | append_singleton uploads last ih =>
    have hlog : (gpu.upload (uploads ++ [last])).log =
        (gpu.upload uploads).log ++ [last.request (gpu.made + uploads.length)] := by
      rw [← upload_append]
      rfl
    rw [contents?_of_log hlog, List.reverse_singleton, List.findSome?_singleton]
    show Option.or (if _ then _ else _) _ = _
    rcases Nat.lt_trichotomy k uploads.length with hk | rfl | hk
    · have hne : gpu.made + uploads.length ≠ gpu.made + k := by omega
      rw [List.getElem?_append_left hk] at h
      rw [if_neg hne, Option.none_or, ih h]
    · obtain rfl : last = u := by simpa using h
      rw [if_pos rfl, Option.some_or]
    · rw [List.getElem?_append_right (Nat.le_of_lt hk), List.getElem?_singleton,
        if_neg (by omega)] at h
      cases h

end Gpu

/-! ### Meshes -/

namespace Mesh

def handles (mesh : Mesh) : List Handle :=
  mesh.attributes.filterMap (·.buffer) ++ mesh.indexBuffer?.toList

/-- What the buffers of a mesh are made from. -/
def ranges (mesh : Mesh) : List ByteRange :=
  mesh.attributes.map (·.accessor.data) ++ (mesh.indices.map (·.data)).toList

def Readable (mesh : Mesh) : Prop := ∀ r ∈ mesh.ranges, r.bytes?.isSome

/-- A mesh without its buffers. -/
def bare (mesh : Mesh) : Mesh :=
  { mesh with
    attributes := mesh.attributes.map fun a => { a with buffer := none }
    indices := mesh.indices.map fun i => { i with buffer := none }
    loaded := false }

/-- A mesh has all of its buffers if it is loaded, and none otherwise. -/
structure Whole (mesh : Mesh) : Prop where
  handles_eq : mesh.loaded = false → mesh.handles = []
  attributes : mesh.loaded → ∀ a ∈ mesh.attributes, a.buffer.isSome
  indices : mesh.loaded → ∀ i, mesh.indices = some i → i.buffer.isSome
  readable : mesh.loaded → mesh.Readable

theorem ranges_bare (mesh : Mesh) : mesh.bare.ranges = mesh.ranges := by
  simp [ranges, bare, Function.comp_def]

theorem readable_bare {mesh : Mesh} : mesh.bare.Readable ↔ mesh.Readable := by
  rw [Readable, ranges_bare, Readable]

def vertexUpload (mesh : String) (a : VertexAttribute) : Upload :=
  ⟨s!"{mesh}_{a.name}", .vertex, a.accessor.data⟩

def indexUpload (mesh : String) (i : IndexData) : Upload := ⟨s!"{mesh}_indices", .index, i.data⟩

/-- The buffers of a mesh: one for each attribute, in the order of names, then one for the indices. -/
def uploads (mesh : Mesh) : List Upload :=
  mesh.attributes.map (vertexUpload mesh.name) ++ (mesh.indices.map (indexUpload mesh.name)).toList

theorem map_range_uploads (mesh : Mesh) : mesh.uploads.map (·.range) = mesh.ranges := by
  rw [uploads, ranges, List.map_append, List.map_map]
  cases mesh.indices <;> rfl

/-- A mesh whose buffers have the handles from `next` on. -/
def stored (mesh : Mesh) (next : Handle) : Mesh :=
  { mesh with
    attributes := mesh.attributes.mapIdx fun k a => { a with buffer := some (next + k) }
    indices := mesh.indices.map fun i => { i with buffer := some (next + mesh.attributes.length) }
    loaded := true }

theorem storeAttributes_eq (name : String) (attributes : List VertexAttribute) (gpu : Gpu) :
    storeAttributes name attributes gpu =
      if attributes.all (·.accessor.data.bytes?.isSome) then
        some (attributes.mapIdx fun k a => { a with buffer := some (gpu.made + k) },
          gpu.upload (attributes.map (vertexUpload name)))
      else none := by
  induction attributes generalizing gpu with
  | nil =>
    rw [List.map_nil, Gpu.upload_nil]
    rfl
  | cons a rest ih =>
    have hnext (k : Nat) : gpu.made + 1 + k = gpu.made + (k + 1) := by omega
    rw [storeAttributes, List.all_cons]
    cases hbytes : a.accessor.data.bytes? with
    | none => rfl
    | some bytes =>
      obtain rfl : a.accessor.data.slice = bytes := ByteRange.slice_eq_of_bytes? hbytes
      show (storeAttributes name rest (gpu.upload [vertexUpload name a])).bind _ = _
      rw [ih, Option.isSome_some, Bool.true_and, Gpu.upload_append]
      split
      · rw [Option.bind_some, List.mapIdx_cons]
        simp only [Gpu.upload, List.length_singleton, hnext]
        rfl
      · rfl

theorem storeIndices_eq (name : String) (indices : Option IndexData) (gpu : Gpu) :
    storeIndices name indices gpu =
      if indices.all (·.data.bytes?.isSome) then
        some (indices.map fun i => { i with buffer := some gpu.made },
          gpu.upload (indices.map (indexUpload name)).toList)
      else none := by
  cases indices with
  | none => exact congrArg (fun gpu => some (none, gpu)) (Gpu.upload_nil gpu).symm
  | some i =>
    rw [storeIndices, Option.all_some]
    cases hbytes : i.data.bytes? with
    | none => rfl
    | some bytes =>
      obtain rfl : i.data.slice = bytes := ByteRange.slice_eq_of_bytes? hbytes
      rfl

theorem readable_iff {mesh : Mesh} : mesh.Readable ↔
    (mesh.attributes.all (·.accessor.data.bytes?.isSome) &&
      mesh.indices.all (·.data.bytes?.isSome)) = true := by
  simp [Readable, ranges, or_imp, forall_and, Option.all_eq_true]

/-- A mesh that is not loaded is stored where the bytes of its buffers can be read. -/
theorem store_eq {mesh : Mesh} (hloaded : mesh.loaded = false) (gpu : Gpu) : mesh.store gpu =
    if mesh.attributes.all (·.accessor.data.bytes?.isSome) &&
        mesh.indices.all (·.data.bytes?.isSome) then
      some (true, mesh.stored gpu.made, gpu.upload mesh.uploads)
    else none := by
  unfold store
  rw [hloaded, if_neg Bool.false_ne_true, storeAttributes_eq]
  cases mesh.attributes.all (·.accessor.data.bytes?.isSome) with
  | false => rfl
  | true =>
    rw [if_pos rfl, Option.bind_eq_bind, Option.bind_some, Bool.true_and]
    dsimp only
    rw [storeIndices_eq]
    cases mesh.indices.all (·.data.bytes?.isSome) with
    | false => rfl
    | true =>
      rw [if_pos rfl, Option.bind_eq_bind, Option.bind_some, Gpu.upload_append]
      simp only [Gpu.upload, List.length_map]
      rfl

theorem store_of_readable {mesh : Mesh} (hloaded : mesh.loaded = false) (h : mesh.Readable)
    (gpu : Gpu) : mesh.store gpu = some (true, mesh.stored gpu.made, gpu.upload mesh.uploads) := by
  rw [store_eq hloaded, if_pos (readable_iff.1 h)]

/-- A mesh can be stored where the bytes of its buffers can be read, and again after that. -/
theorem isSome_store_iff {mesh : Mesh} (gpu : Gpu) :
    (mesh.store gpu).isSome ↔ mesh.loaded ∨ mesh.Readable := by
  cases hloaded : mesh.loaded with
  | true => simp [store, hloaded]
  | false =>
    rw [store_eq hloaded, readable_iff]
    split <;> simp_all

section Stored

variable (mesh : Mesh) (next : Handle)

theorem bare_stored : (mesh.stored next).bare = mesh.bare := by
  have hattributes : (mesh.stored next).bare.attributes = mesh.bare.attributes := by
    apply List.ext_getElem?
    intro k
    simp [bare, stored, Function.comp_def]
  have hindices : (mesh.stored next).bare.indices = mesh.bare.indices := by
    simp [bare, stored, Function.comp_def]
  rw [bare, bare, Mesh.mk.injEq]
  exact ⟨rfl, rfl, hattributes, hindices, rfl, rfl⟩

theorem handles_stored : (mesh.stored next).handles = List.range' next mesh.uploads.length := by
  have hattributes : (mesh.stored next).attributes.map (·.buffer) =
      (List.range' next mesh.attributes.length).map some := by
    apply List.ext_getElem
    · simp [stored]
    · intro k _ _
      simp [stored]
  have hindices : (mesh.stored next).indexBuffer?.toList =
      List.range' (next + mesh.attributes.length)
        (mesh.indices.map (indexUpload mesh.name)).toList.length := by
    rw [indexBuffer?, stored]
    cases mesh.indices <;> rfl
  have hvertices : (mesh.stored next).attributes.filterMap (·.buffer) =
      List.range' next mesh.attributes.length := by
    have hfilter := congrArg (List.filterMap id) hattributes
    simpa [List.filterMap_map, Function.comp_def] using hfilter
  rw [handles, hvertices, hindices, List.range'_append_1, uploads, List.length_append,
    List.length_map]

theorem whole_stored (h : mesh.Readable) : (mesh.stored next).Whole where
  handles_eq hloaded := by cases hloaded
  attributes := by
    rintro - a ha
    obtain ⟨k, hk, rfl⟩ := List.mem_mapIdx.1 ha
    rfl
  indices := by
    rintro - i hi
    obtain ⟨i, -, rfl⟩ := Option.map_eq_some_iff.1 hi
    rfl
  readable := by
    intro _
    rw [← readable_bare, bare_stored, readable_bare]
    exact h

end Stored

/-- A mesh that is not loaded gets new buffers, and nothing else of it changes; one that is loaded
stays as it is. -/
theorem store_cases {mesh after : Mesh} {stored : Bool} {gpu gpu' : Gpu}
    (h : mesh.store gpu = some (stored, after, gpu')) :
    mesh.loaded = true ∧ stored = false ∧ after = mesh ∧ gpu' = gpu ∨
      mesh.loaded = false ∧ stored = true ∧ after.bare = mesh.bare ∧ after.loaded = true ∧
        after.Whole ∧ ∃ n, gpu.Makes gpu' n ∧ after.handles = List.range' gpu.made n := by
  have hreadable := (isSome_store_iff gpu).1 (Option.isSome_of_eq_some h)
  cases hloaded : mesh.loaded with
  | true =>
    rw [store, hloaded, if_pos rfl] at h
    cases h
    exact .inl ⟨rfl, rfl, rfl, rfl⟩
  | false =>
    have hreadable := hreadable.resolve_left (by simp [hloaded])
    rw [store_of_readable hloaded hreadable] at h
    cases h
    exact .inr ⟨rfl, rfl, mesh.bare_stored _, rfl, mesh.whole_stored _ hreadable, _,
      gpu.makes_upload _, mesh.handles_stored _⟩

theorem Whole.isSome_store_iff {mesh : Mesh} (h : mesh.Whole) (gpu : Gpu) :
    (mesh.store gpu).isSome ↔ mesh.Readable :=
  (Mesh.isSome_store_iff gpu).trans (or_iff_right_of_imp h.readable)

/-- What time may make of a mesh: it is stored, if it was not. -/
def Becomes (mesh after : Mesh) : Prop :=
  after.bare = mesh.bare ∧ (mesh.loaded → after = mesh)

theorem Becomes.refl (mesh : Mesh) : mesh.Becomes mesh := ⟨rfl, fun _ => rfl⟩

theorem Becomes.trans {mesh after last : Mesh} (h : mesh.Becomes after)
    (h' : after.Becomes last) : mesh.Becomes last := by
  refine ⟨h'.1.trans h.1, fun hloaded => ?_⟩
  obtain rfl := h.2 hloaded
  exact h'.2 hloaded

theorem Becomes.readable_iff {mesh after : Mesh} (h : mesh.Becomes after) :
    after.Readable ↔ mesh.Readable := by
  rw [← readable_bare, h.1, readable_bare]

end Mesh

/-! ### Images -/

namespace SceneImage

def handles (image : SceneImage) : List Handle := (image.texture.map (·.handle)).toList

/-- An image as it was read. -/
def bare (image : SceneImage) : SceneImage := { image with bitmap := none, texture := none }

/-- An image has the pixels that the decoder finds in its bytes, if it has any, and a texture only of
these. -/
structure Whole (image : SceneImage) (decoder : ImageDecoder) : Prop where
  isDecoded : image.isLoaded → image.isDecoded
  decode? : ∀ bitmap, image.bitmap = some bitmap → image.decode? decoder = some (some bitmap)

/-- What time may make of an image: it is decoded and stored, if it was not. -/
structure Becomes (image after : SceneImage) : Prop where
  bare_eq : after.bare = image.bare
  bitmap_eq : ∀ bitmap, image.bitmap = some bitmap → after.bitmap = some bitmap
  texture_eq : ∀ texture, image.texture = some texture → after.texture = some texture

theorem Becomes.index_eq {image after : SceneImage} (h : image.Becomes after) :
    after.index = image.index := by
  have hbare : after.bare.index = image.bare.index := by rw [h.bare_eq]
  exact hbare

theorem Becomes.data_eq {image after : SceneImage} (h : image.Becomes after) :
    after.data = image.data := by
  have hbare : after.bare.data = image.bare.data := by rw [h.bare_eq]
  exact hbare

theorem Becomes.refl (image : SceneImage) : image.Becomes image :=
  ⟨rfl, fun _ h => h, fun _ h => h⟩

theorem Becomes.trans {image after last : SceneImage} (h : image.Becomes after)
    (h' : after.Becomes last) : image.Becomes last :=
  ⟨h'.bare_eq.trans h.bare_eq, fun b hb => h'.bitmap_eq b (h.bitmap_eq b hb),
    fun t ht => h'.texture_eq t (h.texture_eq t ht)⟩

/-- An image that is decoded and not stored gets a new texture; any other stays as it is. -/
theorem storeImage_cases {image after : SceneImage} {s s' : Nat × Gpu}
    (h : (SceneResources.storeImage image).run s = (after, s')) :
    (image.isDecoded → image.isLoaded) ∧ after = image ∧ s' = s ∨
      image.isLoaded = false ∧ image.isDecoded = true ∧ s'.1 = s.1 + 1 ∧ s.2.Makes s'.2 1 ∧
        ∃ width height, after = { image with texture := some ⟨s.2.made, width, height⟩ } := by
  obtain ⟨uid, name, index, mimeType, data, bitmap, texture⟩ := image
  cases texture with
  | some texture =>
    cases h
    exact .inl ⟨fun _ => rfl, rfl, rfl⟩
  | none =>
    cases bitmap with
    | none =>
      cases h
      exact .inl ⟨Bool.noConfusion, rfl, rfl⟩
    | some bitmap =>
      cases h
      exact .inr ⟨rfl, rfl, rfl, .of_log rfl rfl rfl, _, _, rfl⟩

end SceneImage

/-! ### Storing several -/

section Storing

variable {α : Type} {loaded : α → Bool} {handles : α → List Handle}

/-- An object is passed over, or stored and counted: then it has all that was made for it. -/
inductive Stores (loaded : α → Bool) (handles : α → List Handle) :
    α → Nat × Gpu → α → Nat × Gpu → Prop
  | keep {a : α} {s : Nat × Gpu} : Stores loaded handles a s a s
  | store {a a' : α} {s s' : Nat × Gpu} {n : Nat} (hloaded : loaded a = false)
      (hempty : handles a = []) (hloaded' : loaded a' = true) (hcount : s'.1 = s.1 + 1)
      (hmakes : s.2.Makes s'.2 n) (hhandles : handles a' = List.range' s.2.made n) :
      Stores loaded handles a s a' s'

/-- What is counted is what was not stored before and is now, and what is made is what the objects
have now and had not before. -/
theorem sweeps_stores {uid : Uid} {slots after : List (Option α)} {s s' : Nat × Gpu}
    (h : Registry.Sweeps (fun _ => Stores loaded handles) uid slots s after s') :
    s'.1 + (slots.filterMap id).countP loaded = s.1 + (after.filterMap id).countP loaded ∧
      ∃ n, s.2.Makes s'.2 n ∧ ((after.filterMap id).flatMap handles).Perm
        ((slots.filterMap id).flatMap handles ++ List.range' s.2.made n) := by
  induction h with
  | nil => exact ⟨rfl, 0, .refl _, by simp⟩
  | empty _ ih => exact ih
  | @object uid slots after s s₁ s₂ a a' hstep _ ih =>
    obtain ⟨hcount, n, hmakes, hperm⟩ := ih
    have hcons : ∀ (b : α) slots, (some b :: slots).filterMap id = b :: slots.filterMap id :=
      fun _ _ => rfl
    rw [hcons, hcons, List.countP_cons, List.countP_cons, List.flatMap_cons, List.flatMap_cons]
    cases hstep with
    | keep =>
      refine ⟨by omega, n, hmakes, ?_⟩
      rw [List.append_assoc]
      exact hperm.append_left _
    | store hloaded hempty hloaded' hone hmakes' hhandles =>
      refine ⟨?_, _, hmakes'.trans hmakes, ?_⟩
      · rw [hloaded, hloaded', if_neg Bool.false_ne_true, if_pos rfl]
        omega
      rw [hempty, hhandles, List.nil_append, ← List.range'_append_1, ← hmakes'.1]
      refine (hperm.append_left _).trans ?_
      rw [← List.append_assoc, ← List.append_assoc]
      exact List.perm_append_comm.append_right _

variable {m : Type → Type} [Monad m] {r after : Registry α} {s s' : Nat × Gpu}

theorem stores_mapM (loaded : α → Bool) (handles : α → List Handle) (results : Results m)
    {f : Uid → α → StateT (Nat × Gpu) m α}
    (h : results.To ((r.mapM f).run s) (after, s'))
    (hstores : ∀ a ∈ r.objects, ∀ uid s a' s', results.To ((f uid a).run s) (a', s') →
      Stores loaded handles a s a' s') :
    s'.1 + r.objects.countP loaded = s.1 + after.objects.countP loaded ∧
      ∃ n, s.2.Makes s'.2 n ∧ (after.objects.flatMap handles).Perm
        (r.objects.flatMap handles ++ List.range' s.2.made n) := by
  obtain ⟨slots, rfl, hsweeps⟩ := Registry.sweeps_of_mapM results h
  have hstep : Registry.Sweeps (fun _ => Stores loaded handles) 0 r.slots.toList s slots s' := by
    refine hsweeps.imp fun uid a s a' s' ha hrun => hstores a ?_ uid s a' s' hrun
    rw [r.objects_eq]
    exact List.mem_filterMap.2 ⟨_, ha, rfl⟩
  have hstored := sweeps_stores hstep
  rwa [← r.objects_eq, ← Registry.objects_eq ⟨r.pool, slots.toArray⟩] at hstored

end Storing

namespace SceneResources

theorem run_storeMesh (mesh : Mesh) (s : Nat × Gpu) : (storeMesh mesh).run s =
    (mesh.store s.2).map fun (stored, after, gpu) =>
      (after, (if stored then s.1 + 1 else s.1, gpu)) := by
  have hlift : (liftM (mesh.store s.2) : Storing Option (Bool × Mesh × Gpu)).run s =
      (mesh.store s.2).bind fun stored => some (stored, s) := rfl
  change Option.bind ((liftM (mesh.store s.2) : Storing Option _).run s) _ = _
  rw [hlift]
  cases mesh.store s.2 <;> rfl

theorem stores_storeMesh {mesh after : Mesh} {s s' : Nat × Gpu} (hwhole : mesh.Whole)
    (h : (storeMesh mesh).run s = some (after, s')) :
    Stores Mesh.loaded Mesh.handles mesh s after s' ∧ mesh.Becomes after ∧ after.Whole ∧
      after.loaded = true := by
  rw [run_storeMesh] at h
  obtain ⟨⟨stored, mesh', gpu'⟩, hstore, hs'⟩ := Option.map_eq_some_iff.1 h
  cases hs'
  rcases Mesh.store_cases hstore with ⟨hloaded, rfl, rfl, rfl⟩ |
      ⟨hloaded, rfl, hbare, hloaded', hwhole', n, hmakes, hhandles⟩
  · exact ⟨.keep, .refl _, hwhole, hloaded⟩
  · exact ⟨.store hloaded (hwhole.handles_eq hloaded) hloaded' rfl hmakes hhandles,
      ⟨hbare, fun htrue => by cases hloaded.symm.trans htrue⟩, hwhole', hloaded'⟩

theorem stores_storeImage {image after : SceneImage} {decoder : ImageDecoder} {s s' : Nat × Gpu}
    (hwhole : image.Whole decoder) (h : (storeImage image).run s = (after, s')) :
    Stores SceneImage.isLoaded SceneImage.handles image s after s' ∧ image.Becomes after ∧
      after.Whole decoder ∧ (after.isDecoded → after.isLoaded) ∧ after.bitmap = image.bitmap := by
  rcases SceneImage.storeImage_cases h with ⟨hdone, rfl, rfl⟩ |
      ⟨hloaded, hdecoded, hcount, hmakes, width, height, rfl⟩
  · exact ⟨.keep, .refl _, hwhole, hdone, rfl⟩
  · have hnone : image.texture = none := by simpa [SceneImage.isLoaded] using hloaded
    refine ⟨.store hloaded ?_ rfl hcount hmakes rfl, ⟨rfl, fun _ hb => hb, fun t ht => ?_⟩,
      ⟨fun _ => hdecoded, hwhole.decode?⟩, fun _ => rfl, rfl⟩
    · rw [SceneImage.handles, hnone]
      rfl
    · cases hnone.symm.trans ht

end SceneResources

end Diorama

import Diorama.Proofs.Attributes
import Diorama.Proofs.Elements
import Diorama.Proofs.Reading
import Diorama.Proofs.Tiling
import Mathlib.Data.String.Basic
import Mathlib.Order.Bounds.Basic

/-! The buffers of a mesh.  A mesh that is read has an attribute for each one that its primitive
lists, and the indices of the primitive as far as they fill words of four bytes.  Storing it makes a
buffer of each, and the buffer of indices holds just what a draw takes. -/

namespace Diorama

/-! ### Accessors -/

namespace SceneData

variable {scene : SceneData} {index i : Nat} {found : AccessorData}

/-- The primitive that mesh `index` of the document is read from. -/
def primitive? (scene : SceneData) (index : Nat) : Option Gltf.Primitive :=
  scene.document.meshes[index]?.bind (·.primitives.head?)

/-- What is found of accessor `i` has the count and the types that the document gives it, and all
bytes of its elements. -/
structure Finds (scene : SceneData) (i : Nat) (found : AccessorData) : Prop where
  eq_ok : scene.accessor i = some (.ok found)
  covers : ∃ a view chunk size, scene.document.accessors[i]? = some a ∧
    scene.Sound a view chunk size ∧ Covers a view chunk size found
  bytes : found.data.bytes? = some found.data.slice

theorem finds_of_accessor (h : scene.accessor i = some (.ok found)) : scene.Finds i found := by
  obtain ⟨hfits, hbounded⟩ := fits_of_accessor h
  exact ⟨h, exists_covers h, ByteRange.bytes?_eq hfits hbounded⟩

theorem exists_container_of_decode {bytes : List UInt8} (h : SceneData.decode bytes = .ok scene) :
    ∃ container, Container.decode bytes = .ok container ∧
      Gltf.Document.ofBytes? container.json = some scene.document ∧ container.bins = scene.bins := by
  obtain ⟨container, hcontainer, h⟩ := bind_eq_ok_iff.1 h
  unfold ofContainer at h
  split at h
  · cases h
  next document hdocument =>
    cases h
    exact ⟨container, hcontainer, hdocument, rfl⟩

theorem length_lt_of_decode {bytes : List UInt8} (h : SceneData.decode bytes = .ok scene) :
    ∀ bin ∈ scene.bins, bin.length < UInt32.size := by
  obtain ⟨container, hcontainer, -, hbins⟩ := exists_container_of_decode h
  obtain ⟨hsize, hle⟩ := Container.length_of_decode hcontainer
  intro bin hbin
  exact Nat.lt_of_le_of_lt (hle bin (hbins ▸ hbin)) hsize

theorem distinct_of_decode {bytes : List UInt8} {primitive : Gltf.Primitive}
    (h : SceneData.decode bytes = .ok scene) (hprimitive : scene.primitive? index = some primitive) :
    primitive.Distinct := by
  obtain ⟨container, -, hdocument, -⟩ := exists_container_of_decode h
  obtain ⟨mesh, hmesh, hhead⟩ := Option.bind_eq_some_iff.1 hprimitive
  exact Gltf.Document.distinct_of_ofBytes? hdocument mesh (List.mem_of_getElem? hmesh) primitive
    (List.mem_of_head? hhead)

end SceneData

/-! ### Attributes -/

namespace Mesh

variable {scene : SceneData} {primitive : Gltf.Primitive} {mesh : Mesh}

/-- The attributes of a mesh are those that a primitive lists, in the order of their names.  Under
the name of each stands what is found of its accessor. -/
structure HasAttributes (scene : SceneData) (primitive : Gltf.Primitive) (mesh : Mesh) : Prop where
  sorted : mesh.attributes.Pairwise (·.name < ·.name)
  semantics : (mesh.attributes.map (·.semantic)).Perm (primitive.attributes.map (·.1))
  entry : ∀ semantic i, (semantic, i) ∈ primitive.attributes → ∃ found, scene.Finds i found ∧
    mesh.attributes.find? (·.name == semantic.name) = some ⟨semantic, found, none⟩

theorem pairwise_mergeSort_name {attributes : List VertexAttribute}
    (h : (attributes.map (·.semantic)).Nodup) :
    (attributes.mergeSort fun a b => a.name ≤ b.name).Pairwise (·.name < ·.name) := by
  have hle : (attributes.mergeSort fun a b => a.name ≤ b.name).Pairwise
      fun a b => decide (a.name ≤ b.name) = true := by
    apply List.pairwise_mergeSort
    · simpa using fun _ _ _ => String.le_trans
    · simpa using fun _ _ => String.le_total _ _
  have hnodup : ((attributes.mergeSort fun a b => a.name ≤ b.name).map (·.name)).Nodup := by
    rw [((List.mergeSort_perm _ _).map _).nodup_iff]
    show (attributes.map (Gltf.Semantic.name ∘ (·.semantic))).Nodup
    rw [← List.map_map]
    exact h.map Gltf.Semantic.name_injective
  refine (hle.and (List.pairwise_map.1 hnodup)).imp ?_
  rintro a b ⟨hle, hne⟩
  exact lt_of_le_of_ne (of_decide_eq_true hle) hne

theorem find?_name {attributes : List VertexAttribute} {a : VertexAttribute}
    (h : attributes.Pairwise (·.name < ·.name)) (ha : a ∈ attributes) :
    attributes.find? (·.name == a.name) = some a := by
  obtain ⟨before, after, rfl⟩ := List.append_of_mem ha
  refine List.find?_eq_some_iff_append.2 ⟨beq_self_eq_true _, before, after, rfl, ?_⟩
  intro b hb
  have hlt := (List.pairwise_append.1 h).2.2 b hb a List.mem_cons_self
  simpa using hlt.ne

theorem hasAttributes_of_readAttributes {attributes : List VertexAttribute}
    (hdistinct : primitive.Distinct)
    (h : readAttributes scene primitive.attributes = some (.ok attributes))
    (hmesh : mesh.attributes = attributes.mergeSort fun a b => a.name ≤ b.name) :
    mesh.HasAttributes scene primitive := by
  have hsemantics : attributes.map (·.semantic) = primitive.attributes.map (·.1) :=
    semantics_readAttributes h
  have hsorted : mesh.attributes.Pairwise (·.name < ·.name) := by
    rw [hmesh]
    apply pairwise_mergeSort_name
    rwa [hsemantics]
  refine ⟨hsorted, ?_, ?_⟩
  · rw [← hsemantics, hmesh]
    exact (List.mergeSort_perm _ _).map _
  · intro semantic i hentry
    obtain ⟨found, hfound⟩ := exists_accessor_of_listed h _ hentry
    refine ⟨found, SceneData.finds_of_accessor hfound, ?_⟩
    refine find?_name (a := ⟨semantic, found, none⟩) hsorted ?_
    rw [hmesh, List.mem_mergeSort]
    exact (mem_readAttributes_iff h).2 ⟨_, hentry, found, hfound, rfl⟩

/-! ### Indices -/

/-- A range starts where the bytes of an accessor do, and is as long as its components are together,
up to the last whole word of four bytes. -/
structure Heads (found : AccessorData) (r : ByteRange) : Prop where
  chunk : r.chunk = found.data.chunk
  offset : r.offset = found.data.offset
  length : IsGreatest {n | 4 ∣ n ∧ n ≤ found.count.toNat * found.componentType.size} r.length.toNat
  bytes : r.bytes? = some r.slice
  front : r.slice <+: found.data.slice

/-- The indices of a mesh are the front of what is found of an accessor, and there are as many as
fill this front. -/
def HasIndices (scene : SceneData) (mesh : Mesh) : Option Nat → Prop
  | none => mesh.indices = none ∧ mesh.indexCount = 0
  | some i => ∃ found r, scene.Finds i found ∧ Heads found r ∧ mesh.indices = some ⟨r, none⟩ ∧
    mesh.indexCount.toNat * 2 = r.length.toNat

theorem isGreatest_multiple_le (n : Nat) : IsGreatest {m | 4 ∣ m ∧ m ≤ n} (n - n % 4) := by
  refine ⟨⟨by omega, Nat.sub_le _ _⟩, ?_⟩
  rintro m ⟨hfour, hle⟩
  omega

theorem heads_of_indexRange {i : Nat} {found : AccessorData} {name : String} {r : ByteRange}
    (hfound : scene.accessor i = some (.ok found)) (hr : (indexRange name found).value = some r) :
    Heads found r ∧ r.length.toNat ≤ found.data.chunk.length := by
  obtain ⟨size, hsize, hfront, hrange⟩ := SceneData.indexRange_of_accessor name hfound
  obtain rfl := Option.some.inj (hrange.symm.trans hr)
  obtain ⟨hfits, hbounded⟩ := SceneData.fits_of_accessor hfound
  obtain ⟨hfits', hbounded'⟩ := ByteRange.fits_truncateTo_four hfits hbounded hfront
  have htruncated := ByteRange.toNat_length_truncateTo_four { found.data with length := size }
  refine ⟨⟨rfl, rfl, ?_, ByteRange.bytes?_eq hfits' hbounded', ?_⟩, ?_⟩
  · rw [htruncated, hsize]
    exact isGreatest_multiple_le _
  · apply List.take_prefix_take_left
    exact htruncated ▸ (Nat.sub_le _ _).trans hfront
  · exact (Nat.le_add_left _ _).trans hfits'

theorem indexCount_eq {i : IndexData} (hi : mesh.indices = some i)
    (hlt : i.data.length.toNat < UInt32.size) :
    mesh.indexCount.toNat = i.data.length.toNat / 2 := by
  rw [indexCount, hi, Option.map_some, Option.getD_some, UInt64.toNat_toUInt32, UInt64.toNat_div]
  apply Nat.mod_eq_of_lt
  exact Nat.lt_of_le_of_lt (Nat.div_le_self _ _) hlt

theorem hasIndices_of_readIndices {name : String} {index : Option Nat}
    (hbins : ∀ bin ∈ scene.bins, bin.length < UInt32.size)
    (h : (readIndices scene name index).value = some (.ok mesh.indices)) :
    mesh.HasIndices scene index := by
  rcases readIndices_eq_ok_iff.1 h with ⟨rfl, hnone⟩ | ⟨i, found, r, rfl, hfound, hr, hsome⟩
  · refine ⟨hnone, ?_⟩
    rw [indexCount, hnone]
    rfl
  · obtain ⟨hheads, hle⟩ := heads_of_indexRange hfound hr
    refine ⟨found, r, SceneData.finds_of_accessor hfound, hheads, hsome.symm, ?_⟩
    have hlt := hbins _ (SceneData.chunk_of_accessor hfound)
    obtain ⟨hfour, -⟩ := hheads.length.1
    rw [indexCount_eq hsome.symm (Nat.lt_of_le_of_lt hle hlt)]
    dsimp only
    omega

/-! ### Storing -/

/-- What the first store does.  It makes a buffer of each of the mesh's ranges, and these are the
contents of the buffers then.  A draw takes all of the buffer of indices, two bytes for each. -/
structure Uploads (mesh : Mesh) (gpu : Gpu) (after : Mesh) (gpu' : Gpu) : Prop where
  after_eq : after = mesh.stored gpu.made
  log : gpu'.log = gpu.log ++ mesh.uploads.mapIdx fun k u => u.request (gpu.made + k)
  contents : ∀ k u, mesh.uploads[k]? = some u → u.range.bytes? = some u.range.slice ∧
    gpu'.contents? (gpu.made + k) = some (.bytes u.range.slice)
  drawn : ∀ buffer, after.indexBuffer? = some buffer → ∃ bytes,
    gpu'.contents? buffer = some (.bytes bytes) ∧ bytes.length = 2 * after.indexCount.toNat

theorem HasAttributes.isSome_bytes? (h : mesh.HasAttributes scene primitive) {a : VertexAttribute}
    (ha : a ∈ mesh.attributes) : a.accessor.data.bytes?.isSome := by
  have hlisted : a.semantic ∈ primitive.attributes.map (·.1) :=
    h.semantics.mem_iff.1 (List.mem_map_of_mem ha)
  obtain ⟨⟨semantic, i⟩, hentry, hsemantic⟩ := List.mem_map.1 hlisted
  obtain ⟨found, hfinds, hfind⟩ := h.entry semantic i hentry
  obtain rfl : semantic = a.semantic := hsemantic
  have ha : a = ⟨a.semantic, found, none⟩ :=
    Option.some.inj ((find?_name h.sorted ha).symm.trans hfind)
  rw [ha]
  exact Option.isSome_of_eq_some hfinds.bytes

theorem HasIndices.isSome_bytes? {index : Option Nat} (h : mesh.HasIndices scene index)
    {i : IndexData} (hi : mesh.indices = some i) :
    i.data.bytes?.isSome ∧ mesh.indexCount.toNat * 2 = i.data.length.toNat := by
  cases index with
  | none => cases h.1.symm.trans hi
  | some index =>
    obtain ⟨found, r, -, hheads, hsome, hcount⟩ := h
    cases hsome.symm.trans hi
    exact ⟨Option.isSome_of_eq_some hheads.bytes, hcount⟩

theorem exists_uploads (hloaded : mesh.loaded = false) (hreadable : mesh.Readable)
    (hcount : ∀ i, mesh.indices = some i → mesh.indexCount.toNat * 2 = i.data.length.toNat)
    (gpu : Gpu) :
    ∃ after gpu', mesh.store gpu = some (true, after, gpu') ∧ mesh.Uploads gpu after gpu' := by
  have hbytes : ∀ u ∈ mesh.uploads, u.range.bytes?.isSome := by
    intro u hu
    apply hreadable
    rw [← map_range_uploads]
    exact List.mem_map_of_mem hu
  refine ⟨_, _, store_of_readable hloaded hreadable gpu, rfl, rfl, ?_, ?_⟩
  · intro k u hu
    have hread := hbytes u (List.mem_of_getElem? hu)
    exact ⟨ByteRange.bytes?_of_isSome hread, Gpu.contents?_upload hu⟩
  · intro buffer hbuffer
    cases hi : mesh.indices with
    | none => simp [indexBuffer?, stored, hi] at hbuffer
    | some i =>
      have hupload : mesh.uploads[mesh.attributes.length]? = some (indexUpload mesh.name i) := by
        simp [uploads, hi]
      obtain rfl : gpu.made + mesh.attributes.length = buffer := by
        simpa [indexBuffer?, stored, hi] using hbuffer
      have hstored : (mesh.stored gpu.made).indexCount = mesh.indexCount := by
        simp [indexCount, stored, hi]
      refine ⟨_, Gpu.contents?_upload hupload, ?_⟩
      obtain ⟨bytes, hread⟩ :=
        Option.isSome_iff_exists.1 (hbytes _ (List.mem_of_getElem? hupload))
      obtain ⟨hfits, -, -⟩ := ByteRange.bytes?_eq_some_iff.1 hread
      rw [ByteRange.length_slice hfits, hstored, Nat.mul_comm, hcount i hi]
      rfl

/-- A mesh that is read of a file has what its primitive lists, and the first store uploads all of
it. -/
theorem ofDocument_uploads {bytes : List UInt8} {index : Nat}
    (hdecode : SceneData.decode bytes = .ok scene)
    (hmesh : (ofDocument scene index).value = some (.ok mesh)) :
    ∃ primitive, scene.primitive? index = some primitive ∧ mesh.HasAttributes scene primitive ∧
      mesh.HasIndices scene primitive.indices ∧ ∀ uid gpu, ∃ after gpu',
        (mesh.under uid).store gpu = some (true, after, gpu') ∧
          (mesh.under uid).Uploads gpu after gpu' := by
  obtain ⟨source, primitive, others, hsource, hprimitives, h⟩ := ofDocument_eq_ok_iff.1 hmesh
  obtain ⟨attributes, indices, hattributes, hindices, heq⟩ := ofPrimitive_eq_ok_iff.1 h
  have hprimitive : scene.primitive? index = some primitive := by
    rw [SceneData.primitive?, hsource, Option.bind_some, hprimitives, List.head?_cons]
  have hattributes : mesh.HasAttributes scene primitive :=
    hasAttributes_of_readAttributes (SceneData.distinct_of_decode hdecode hprimitive) hattributes
      (by rw [← heq])
  have hindices : mesh.HasIndices scene primitive.indices :=
    hasIndices_of_readIndices (SceneData.length_lt_of_decode hdecode)
      (hindices.trans (by rw [← heq]))
  refine ⟨primitive, hprimitive, hattributes, hindices, fun uid gpu => ?_⟩
  have hloaded : (mesh.under uid).loaded = false := (unstored_of_ofDocument hmesh).1
  apply exists_uploads hloaded
  · intro r hr
    rcases List.mem_append.1 hr with hr | hr
    · obtain ⟨a, ha, rfl⟩ := List.mem_map.1 hr
      exact hattributes.isSome_bytes? ha
    · obtain ⟨i, hi, rfl⟩ := Option.map_eq_some_iff.1 (Option.mem_toList.1 hr)
      exact (hindices.isSome_bytes? hi).1
  · intro i hi
    exact (hindices.isSome_bytes? hi).2

/-- A file of eight bytes, all of which are positions, and the last six three indices as well. -/
def indexedFile : List UInt8 :=
  Container.encode ("\x7b\"asset\":\x7b\"version\":\"2.0\"\x7d," ++
    "\"bufferViews\":[\x7b\"buffer\":0,\"byteLength\":8\x7d],\"accessors\":[" ++
      "\x7b\"bufferView\":0,\"count\":2,\"componentType\":5126,\"type\":\"SCALAR\"\x7d," ++
        "\x7b\"bufferView\":0,\"byteOffset\":2,\"count\":3,\"componentType\":5123," ++
          "\"type\":\"SCALAR\"\x7d],\"meshes\":[\x7b\"primitives\":[\x7b" ++
            "\"attributes\":\x7b\"POSITION\":0\x7d,\"indices\":1\x7d]\x7d]\x7d").toUTF8.toList
    [[0, 1, 2, 3, 4, 5, 6, 7]]

def indexedScene (document : Gltf.Document) : SceneData :=
  ⟨{ document with
    meshes := [⟨none, [⟨[(.positions, 0)], some 1, none⟩]⟩]
    accessors :=
      [⟨some 0, none, 2, some .f32, some .scalar⟩, ⟨some 0, some 2, 3, some .u16, some .scalar⟩]
    bufferViews := [⟨0, none, 8, none⟩] }, [[0, 1, 2, 3, 4, 5, 6, 7]]⟩

def indexed : Mesh :=
  ⟨0, "mesh_0", [⟨.positions, ⟨2, .f32, .scalar, ⟨[0, 1, 2, 3, 4, 5, 6, 7], 0, 8⟩⟩, none⟩],
    some ⟨⟨[0, 1, 2, 3, 4, 5, 6, 7], 2, 4⟩, none⟩, none, false⟩

/-- What the attributes and the indices of meshes are read from. -/
def sources (scene : SceneData) :
    List Gltf.Mesh × List Gltf.Accessor × List Gltf.BufferView × List (List UInt8) :=
  (scene.document.meshes, scene.document.accessors, scene.document.bufferViews, scene.bins)

theorem decode_indexedFile :
    ∃ document, SceneData.decode indexedFile = .ok (indexedScene document) := by
  have hparts : (SceneData.decode indexedFile).map sources =
      .ok (sources (indexedScene ⟨none, [], [], [], [], [], [], [], [], []⟩)) := by
    decide +kernel
  obtain ⟨⟨⟨_, _, _, _, _, _, _, _, _, _⟩, _⟩, hdecode, heq⟩ := map_eq_ok_iff.1 hparts
  cases heq
  exact ⟨⟨_, _, _, [], [], [], _, _, _, _⟩, hdecode⟩

/-- The third index does not fill a word of four bytes, and is left out. -/
theorem ofDocument_uploads_indexed : ∃ scene, SceneData.decode indexedFile = .ok scene ∧
    (ofDocument scene 0).value = some (.ok indexed) ∧ indexed.indexCount = 2 ∧ ∃ after gpu,
      (indexed.under 1).store {} = some (true, after, gpu) ∧
        gpu.contents? 1 = some (.bytes [2, 3, 4, 5]) := by
  obtain ⟨document, hdecode⟩ := decode_indexedFile
  have hmesh : (ofDocument (indexedScene document) 0).value = some (.ok indexed) := by
    refine ofDocument_eq_ok_iff.2 ⟨_, _, [], rfl, rfl, ofPrimitive_eq_ok_iff.2
      ⟨_, _, rfl, rfl, ?_⟩⟩
    rw [List.mergeSort_singleton]
    rfl
  obtain ⟨-, -, -, -, hstore⟩ := ofDocument_uploads hdecode hmesh
  obtain ⟨after, gpu, hstore, huploads⟩ := hstore 1 {}
  exact ⟨_, hdecode, hmesh, rfl, after, gpu, hstore, (huploads.contents 1 _ rfl).2⟩

end Mesh

end Diorama

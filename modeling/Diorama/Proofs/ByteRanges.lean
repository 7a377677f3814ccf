import Diorama.Scene.Mesh

/-! The ranges of bytes that a scene gives lie in their chunks, and can be read.  Sums and products
that are no words of 64 bits leave no result, so what the checks compare are the numbers that they
mean, also close to the last word. -/

namespace Diorama

namespace ByteRange

variable {r data : ByteRange} {offset skip length : UInt64}

/-- A range stops at a byte whose number is a word. -/
def Bounded (r : ByteRange) : Prop := r.offset.toNat + r.length.toNat < UInt64.size

/-- The bytes of a range, as far as they are there. -/
def slice (r : ByteRange) : List UInt8 := (r.chunk.drop r.offset.toNat).take r.length.toNat

theorem bytes?_eq_some_iff {bytes : List UInt8} :
    r.bytes? = some bytes ↔ r.Fits ∧ r.Bounded ∧ r.slice = bytes := by
  unfold bytes?
  constructor
  · intro h
    obtain ⟨stop, hstop, h⟩ := Option.bind_eq_some_iff.1 h
    rw [Word.add?_eq_some_iff] at hstop
    split at h
    next hfits =>
      have hbounded := stop.toNat_lt_size
      rw [hstop] at hfits hbounded
      exact ⟨hfits, hbounded, Option.some.inj h⟩
    · cases h
  · rintro ⟨hfits, hbounded, rfl⟩
    obtain ⟨stop, hstop, hsum⟩ := Word.exists_ofNat? hbounded
    exact Option.bind_eq_some_iff.2 ⟨stop, hstop, if_pos (hsum ▸ hfits)⟩

theorem bytes?_eq (hfits : r.Fits) (hbounded : r.Bounded) : r.bytes? = some r.slice :=
  bytes?_eq_some_iff.2 ⟨hfits, hbounded, rfl⟩

theorem isSome_bytes? (hfits : r.Fits) (hbounded : r.Bounded) : r.bytes?.isSome :=
  Option.isSome_of_eq_some (bytes?_eq hfits hbounded)

theorem slice_eq_of_bytes? {bytes : List UInt8} (h : r.bytes? = some bytes) : r.slice = bytes :=
  (bytes?_eq_some_iff.1 h).2.2

theorem bytes?_of_isSome (h : r.bytes?.isSome) : r.bytes? = some r.slice := by
  obtain ⟨bytes, hbytes⟩ := Option.isSome_iff_exists.1 h
  rw [slice_eq_of_bytes? hbytes, hbytes]

/-- A range that lies in its chunk has as many bytes as it is long. -/
theorem length_slice (h : r.Fits) : r.slice.length = r.length.toNat := by
  unfold Fits at h
  rw [slice, List.length_take, List.length_drop]
  omega

theorem toNat_length_truncateTo_four (r : ByteRange) :
    (r.truncateTo 4).length.toNat = r.length.toNat - r.length.toNat % 4 := by
  have hmod : (r.length % 4).toNat = r.length.toNat % 4 := UInt64.toNat_mod r.length 4
  rw [truncateTo, UInt64.toNat_sub_of_le, hmod]
  rw [UInt64.le_iff_toNat_le, hmod]
  exact Nat.mod_le _ _

/-- A part of a range, from `skip` bytes on. -/
theorem fits_part (hfits : data.Fits) (hbounded : data.Bounded)
    (hpart : skip.toNat + length.toNat ≤ data.length.toNat)
    (hoffset : offset.toNat = data.offset.toNat + skip.toNat) :
    ByteRange.Fits { data with offset, length } ∧
      ByteRange.Bounded { data with offset, length } := by
  unfold Fits Bounded at *
  constructor <;> dsimp only <;> omega

/-- The front of a range, up to a multiple of four bytes. -/
theorem fits_truncateTo_four (hfits : data.Fits) (hbounded : data.Bounded)
    (hfront : length.toNat ≤ data.length.toNat) :
    (ByteRange.truncateTo { data with length } 4).Fits ∧
      (ByteRange.truncateTo { data with length } 4).Bounded := by
  have htruncated := toNat_length_truncateTo_four { data with length }
  unfold Fits Bounded at *
  rw [htruncated]
  simp only [truncateTo]
  omega

end ByteRange

namespace SceneData

variable {scene : SceneData} {index : Nat}

/-- The ranges that a scene gives: its views, and those of its accessors and meshes. -/
inductive Gives (scene : SceneData) : ByteRange → Prop
  | view {index : Nat} {r : ByteRange} (h : scene.viewBytes index = some (.ok r)) : Gives scene r
  | accessor {index : Nat} {found : AccessorData} (h : scene.accessor index = some (.ok found)) :
    Gives scene found.data
  | vertices {index : Nat} {mesh : Mesh} {a : VertexAttribute}
    (h : (Mesh.ofDocument scene index).value = some (.ok mesh)) (ha : a ∈ mesh.attributes) :
    Gives scene a.accessor.data
  | indices {index : Nat} {mesh : Mesh} {i : IndexData}
    (h : (Mesh.ofDocument scene index).value = some (.ok mesh)) (hi : mesh.indices = some i) :
    Gives scene i.data

theorem fits_of_viewBytes {r : ByteRange} (h : scene.viewBytes index = some (.ok r)) :
    r.Fits ∧ r.Bounded := by
  obtain ⟨view, chunk, -, -, hbounded, hfits, rfl⟩ := viewBytes_eq_ok_iff.1 h
  exact ⟨hfits, hbounded⟩

theorem fits_of_accessor {found : AccessorData} (h : scene.accessor index = some (.ok found)) :
    found.data.Fits ∧ found.data.Bounded := by
  obtain ⟨accessor, view, component, element, data, length, r, -, -, -, -, -, hdata, -, hr, rfl⟩ :=
    accessor_eq_ok_iff.1 h
  obtain ⟨hpart, offset, hoffset, rfl⟩ := within_eq_ok_iff.1 hr
  obtain ⟨hfits, hbounded⟩ := fits_of_viewBytes hdata
  exact ByteRange.fits_part hfits hbounded hpart hoffset

/-- The range of an accessor has just the bytes of its elements. -/
theorem length_of_accessor {found : AccessorData} (h : scene.accessor index = some (.ok found)) :
    found.data.length.toNat =
      found.count.toNat * (found.componentType.size * found.elementType.arity) := by
  obtain ⟨accessor, view, component, element, data, length, r, -, -, -, -, -, -, hlength, hr, rfl⟩ :=
    accessor_eq_ok_iff.1 h
  obtain ⟨-, offset, -, rfl⟩ := within_eq_ok_iff.1 hr
  rw [Word.mul?_eq_some_iff, toNat_elementSize] at hlength
  exact hlength

theorem chunk_of_accessor {found : AccessorData} (h : scene.accessor index = some (.ok found)) :
    found.data.chunk ∈ scene.bins := by
  obtain ⟨accessor, view, component, element, data, length, r, -, -, -, -, -, hdata, -, hr, rfl⟩ :=
    accessor_eq_ok_iff.1 h
  obtain ⟨-, offset, -, rfl⟩ := within_eq_ok_iff.1 hr
  obtain ⟨view, chunk, -, hchunk, -, -, rfl⟩ := viewBytes_eq_ok_iff.1 hdata
  exact List.mem_of_getElem? hchunk

theorem accessor_of_ofDocument {mesh : Mesh} {a : VertexAttribute}
    (h : (Mesh.ofDocument scene index).value = some (.ok mesh)) (ha : a ∈ mesh.attributes) :
    ∃ i, scene.accessor i = some (.ok a.accessor) := by
  obtain ⟨source, primitive, others, -, -, h⟩ := Mesh.ofDocument_eq_ok_iff.1 h
  obtain ⟨attributes, indices, hattributes, -, rfl⟩ := Mesh.ofPrimitive_eq_ok_iff.1 h
  exact Mesh.exists_accessor_of_mem hattributes a (List.mem_mergeSort.1 ha)

/-- The indices that are read of an accessor are the first components of its elements. -/
theorem indexRange_of_accessor {found : AccessorData} (name : String)
    (h : scene.accessor index = some (.ok found)) : ∃ size : UInt64,
      size.toNat = found.count.toNat * found.componentType.size ∧
        size.toNat ≤ found.data.length.toNat ∧
          (Mesh.indexRange name found).value =
            some ({ found.data with length := size }.truncateTo 4) := by
  have hcomponent : (UInt64.ofNat found.componentType.size).toNat = found.componentType.size := by
    cases found.componentType <;> rfl
  have hle : found.count.toNat * found.componentType.size ≤ found.data.length.toNat := by
    rw [length_of_accessor h, ← Nat.mul_assoc]
    exact Nat.le_mul_of_pos_right _ found.elementType.arity_pos
  obtain ⟨size, hsize, hproduct⟩ :=
    Word.exists_ofNat? (Nat.lt_of_le_of_lt hle found.data.length.toNat_lt_size)
  refine ⟨size, hproduct, hproduct ▸ hle, ?_⟩
  rw [Mesh.value_indexRange, Word.mul?, hcomponent, hsize, Option.map_some]

theorem fits_of_indices {mesh : Mesh} {i : IndexData}
    (h : (Mesh.ofDocument scene index).value = some (.ok mesh)) (hi : mesh.indices = some i) :
    i.data.Fits ∧ i.data.Bounded := by
  obtain ⟨source, primitive, others, -, -, h⟩ := Mesh.ofDocument_eq_ok_iff.1 h
  obtain ⟨attributes, indices, -, hindices, rfl⟩ := Mesh.ofPrimitive_eq_ok_iff.1 h
  obtain ⟨-, rfl⟩ | ⟨k, found, data, -, hfound, hdata, rfl⟩ := Mesh.readIndices_eq_ok_iff.1 hindices
  · cases hi
  · cases hi
    obtain ⟨size, -, hfront, hrange⟩ := indexRange_of_accessor _ hfound
    obtain rfl := Option.some.inj (hrange.symm.trans hdata)
    obtain ⟨hfits, hbounded⟩ := fits_of_accessor hfound
    exact ByteRange.fits_truncateTo_four hfits hbounded hfront

theorem Gives.fits {r : ByteRange} (h : scene.Gives r) : r.Fits ∧ r.Bounded := by
  cases h with
  | view h => exact fits_of_viewBytes h
  | accessor h => exact fits_of_accessor h
  | vertices h ha =>
    obtain ⟨i, hi⟩ := accessor_of_ofDocument h ha
    exact fits_of_accessor hi
  | indices h hi => exact fits_of_indices h hi

theorem Gives.isSome_bytes? {r : ByteRange} (h : scene.Gives r) : r.bytes?.isSome :=
  ByteRange.isSome_bytes? h.fits.1 h.fits.2

/-- Each range that a scene gives lies in its chunk, and all of its bytes can be read. -/
theorem gives_fits (scene : SceneData) {r : ByteRange} (h : scene.Gives r) :
    r.Fits ∧ r.bytes? = some r.slice ∧ r.slice.length = r.length.toNat := by
  obtain ⟨hfits, hbounded⟩ := h.fits
  exact ⟨hfits, ByteRange.bytes?_eq hfits hbounded, ByteRange.length_slice hfits⟩

/-- A scene with one view of two bytes. -/
def ofView (offset : UInt64) : SceneData :=
  ⟨⟨none, [], [], [], [], [⟨0, some offset, 2, none⟩], [], [], [⟨none, some 0, "image/png"⟩], []⟩,
    [[0, 1, 2, 3]]⟩

/-- A view up to the end of its chunk is read.  One whose stop is past the last word of 64 bits is
not given at all. -/
theorem gives_fits_ofView : ∃ r, (ofView 2).viewBytes 0 = some (.ok r) ∧ r.Fits ∧
    r.bytes? = some [2, 3] ∧ (ofView 0xFFFFFFFFFFFFFFFF).viewBytes 0 = none := by
  have hview : (ofView 2).viewBytes 0 = some (.ok ⟨[0, 1, 2, 3], 2, 2⟩) := rfl
  obtain ⟨hfits, hbytes, -⟩ := gives_fits (ofView 2) (.view hview)
  exact ⟨_, hview, hfits, hbytes, rfl⟩

end SceneData

end Diorama

import Diorama.Proofs.ByteRanges

/-! The elements of an accessor.  Where the sums and products that belong to an accessor are numbers
of 64 bits, there is a result, and it says what is true of unbounded numbers: the elements of an
accessor that is found lie in the view and the view in its chunk, and what is reported of any other
accessor is the first fault that it has. -/

namespace Diorama

namespace Gltf

def BufferView.start (view : BufferView) : Nat := (view.byteOffset.getD 0).toNat

def BufferView.stop (view : BufferView) : Nat := view.start + view.byteLength.toNat

/-- Where the elements start in the view. -/
def Accessor.start (a : Accessor) : Nat := (a.byteOffset.getD 0).toNat

/-- The bytes of one element, where its types are known. -/
def Accessor.elementSize? (a : Accessor) : Option Nat :=
  a.componentType.bind fun component => a.elementType.map fun element =>
    component.size * element.arity

end Gltf

namespace SceneData

variable {scene : SceneData} {index : Nat} {e : ResourceError} {a : Gltf.Accessor}

def viewOf? (scene : SceneData) (a : Gltf.Accessor) : Option Gltf.BufferView :=
  a.bufferView.bind fun v => scene.document.bufferViews[v]?

/-- The stop of the view, the bytes of all elements and their stop in the chunk are numbers of 64
bits. -/
structure InWords (scene : SceneData) (a : Gltf.Accessor) : Prop where
  view : ∀ view, scene.viewOf? a = some view → view.stop < UInt64.size
  elements : ∀ size, a.elementSize? = some size → a.count.toNat * size < UInt64.size
  stop : ∀ view size, scene.viewOf? a = some view → a.elementSize? = some size →
    view.start + a.start + a.count.toNat * size < UInt64.size

/-- What is asked of an accessor, with elements of `size` bytes in a view in a chunk. -/
structure Sound (scene : SceneData) (a : Gltf.Accessor) (view : Gltf.BufferView)
    (chunk : List UInt8) (size : Nat) : Prop where
  size_eq : a.elementSize? = some size
  view_eq : scene.viewOf? a = some view
  chunk_eq : scene.bins[view.buffer]? = some chunk
  packed : ∀ stride, view.byteStride = some stride → stride.toNat = size
  view_stop : view.stop ≤ chunk.length
  stop : a.start + a.count.toNat * size ≤ view.byteLength.toNat

/-- What is found has the accessor's count and types, and all bytes of its elements. -/
structure Covers (a : Gltf.Accessor) (view : Gltf.BufferView) (chunk : List UInt8) (size : Nat)
    (found : AccessorData) : Prop where
  count : found.count = a.count
  component : a.componentType = some found.componentType
  element : a.elementType = some found.elementType
  chunk : found.data.chunk = chunk
  offset : found.data.offset.toNat = view.start + a.start
  length : found.data.length.toNat = a.count.toNat * size

/-- The faults of accessors, in the order in which they are looked for. -/
inductive AccessorFault where
  | missing
  | sparse
  | invalid
  | interleaved
  | missingView
  | missingChunk
  | viewOutOfBounds
  | outOfBounds

def AccessorFault.order : List AccessorFault :=
  [missing, sparse, invalid, interleaved, missingView, missingChunk, viewOutOfBounds, outOfBounds]

/-- Accessor `index` has a fault, and `e` reports it. -/
def HasFault (scene : SceneData) (index : Nat) (e : ResourceError) : AccessorFault → Prop
  | .missing => scene.document.accessors[index]? = none ∧ e = .missingAccessor index
  | .sparse => ∃ a, scene.document.accessors[index]? = some a ∧ a.bufferView = none ∧
    e = .sparseAccessor index
  | .invalid => ∃ a, scene.document.accessors[index]? = some a ∧
    (a.componentType = none ∨ a.elementType = none) ∧ e = .invalidAccessor index
  | .interleaved => ∃ a view size stride, scene.document.accessors[index]? = some a ∧
    scene.viewOf? a = some view ∧ a.elementSize? = some size ∧ view.byteStride = some stride ∧
      stride.toNat ≠ size ∧ e = .interleaved index stride (UInt64.ofNat size)
  | .missingView => ∃ a v, scene.document.accessors[index]? = some a ∧ a.bufferView = some v ∧
    scene.viewOf? a = none ∧ e = .missingView v
  | .missingChunk => ∃ a view, scene.document.accessors[index]? = some a ∧
    scene.viewOf? a = some view ∧ scene.bins[view.buffer]? = none ∧ e = .missingChunk view.buffer
  | .viewOutOfBounds => ∃ a v view chunk, scene.document.accessors[index]? = some a ∧
    a.bufferView = some v ∧ scene.viewOf? a = some view ∧ scene.bins[view.buffer]? = some chunk ∧
      chunk.length < view.stop ∧
        e = .outOfBounds v (UInt64.ofNat view.stop) (UInt64.ofNat chunk.length)
  | .outOfBounds => ∃ a v view size, scene.document.accessors[index]? = some a ∧
    a.bufferView = some v ∧ scene.viewOf? a = some view ∧ a.elementSize? = some size ∧
      view.byteLength.toNat < a.start + a.count.toNat * size ∧
        e = .outOfBounds v (UInt64.ofNat (view.start + a.start + a.count.toNat * size))
          (UInt64.ofNat view.stop)

theorem elementSize?_eq {component : Gltf.ComponentType} {element : Gltf.ElementType}
    (hc : a.componentType = some component) (he : a.elementType = some element) :
    a.elementSize? = some (component.size * element.arity) := by
  rw [Gltf.Accessor.elementSize?, hc, he, Option.bind_some, Option.map_some]

theorem viewOf?_eq {v : Nat} (hv : a.bufferView = some v) :
    scene.viewOf? a = scene.document.bufferViews[v]? := by
  rw [viewOf?, hv, Option.bind_some]

/-! ### Words and numbers -/

theorem eq_ofNat {w : UInt64} {n : Nat} (h : w.toNat = n) : w = UInt64.ofNat n := by
  rw [← h, UInt64.ofNat_toNat]

theorem stride_filter_eq_none_iff {stride? : Option UInt64} {component : Gltf.ComponentType}
    {element : Gltf.ElementType} :
    stride?.filter (· ≠ elementSize component element) = none ↔
      ∀ stride, stride? = some stride → stride.toNat = component.size * element.arity := by
  rw [Option.filter_eq_none_iff]
  simp [← UInt64.toNat_inj, toNat_elementSize]

/-! ### Acceptance -/

/-- What is found has all that is asked of it. -/
theorem exists_covers {found : AccessorData} (hfound : scene.accessor index = some (.ok found)) :
    ∃ a view chunk size, scene.document.accessors[index]? = some a ∧
      scene.Sound a view chunk size ∧ Covers a view chunk size found := by
  obtain ⟨a, v, component, element, data, length, r, ha, hv, hc, he, hstride, hdata, hlength, hr,
    rfl⟩ := accessor_eq_ok_iff.1 hfound
  obtain ⟨view, chunk, hview, hchunk, -, hfits, rfl⟩ := viewBytes_eq_ok_iff.1 hdata
  obtain ⟨hpart, offset, hoffset, rfl⟩ := within_eq_ok_iff.1 hr
  rw [Word.mul?_eq_some_iff, toNat_elementSize] at hlength
  rw [stride?, hview, Option.bind_some, stride_filter_eq_none_iff] at hstride
  rw [hlength] at hpart
  exact ⟨a, view, chunk, _, ha, ⟨elementSize?_eq hc he, (viewOf?_eq hv).trans hview, hchunk, hstride,
    hfits, hpart⟩, ⟨rfl, hc, he, rfl, hoffset, hlength⟩⟩

/-- An accessor that has all that is asked of it is found, if its sums and products are words. -/
theorem accessor_of_sound {view : Gltf.BufferView} {chunk : List UInt8} {size : Nat}
    (ha : scene.document.accessors[index]? = some a) (h : scene.InWords a)
    (hsound : scene.Sound a view chunk size) :
    ∃ found, scene.accessor index = some (.ok found) := by
  obtain ⟨hsize, hviewOf, hchunk, hpacked, hfits, hpart⟩ := hsound
  have hview_stop := h.view view hviewOf
  have hstop := h.stop view size hviewOf hsize
  obtain ⟨component, hc, hsize⟩ := Option.bind_eq_some_iff.1 hsize
  obtain ⟨element, he, rfl⟩ := Option.map_eq_some_iff.1 hsize
  obtain ⟨v, hv, hview⟩ := Option.bind_eq_some_iff.1 hviewOf
  simp only [Gltf.BufferView.stop, Gltf.BufferView.start, Gltf.Accessor.start] at *
  obtain ⟨length, hlength, hproduct⟩ := Word.exists_ofNat?
    (n := a.count.toNat * (component.size * element.arity)) (by omega)
  obtain ⟨offset, -, hoffset⟩ := Word.exists_ofNat?
    (n := (view.byteOffset.getD 0).toNat + (a.byteOffset.getD 0).toNat) (by omega)
  refine ⟨_, accessor_eq_ok_iff.2 ⟨a, v, component, element, _, length, _, ha, hv, hc, he, ?_,
    viewBytes_eq_ok_iff.2 ⟨view, chunk, hview, hchunk, hview_stop, hfits, rfl⟩, ?_,
    within_eq_ok_iff.2 ⟨hproduct ▸ hpart, offset, hoffset, rfl⟩, rfl⟩⟩
  · rw [stride?, hview, Option.bind_some, stride_filter_eq_none_iff]
    exact hpacked
  · rw [Word.mul?, toNat_elementSize]
    exact hlength

/-! ### Faults -/

theorem exists_isFirst_cons_iff {α : Type} {p q : α → Prop} {first : α} {more : List α} :
    (∃ f, IsFirst p (first :: more) f ∧ q f) ↔
      p first ∧ q first ∨ ¬p first ∧ ∃ f, IsFirst p more f ∧ q f := by
  simp only [isFirst_cons_iff]
  constructor
  · rintro ⟨f, ⟨hp, rfl⟩ | ⟨hp, hf⟩, hq⟩
    · exact .inl ⟨hp, hq⟩
    · exact .inr ⟨hp, f, hf, hq⟩
  · rintro (⟨hp, hq⟩ | ⟨hp, f, hf, hq⟩)
    · exact ⟨first, .inl ⟨hp, rfl⟩, hq⟩
    · exact ⟨f, .inr ⟨hp, hf⟩, hq⟩

/-- The fault is there, and none is that is looked for before it. -/
def FirstFault (scene : SceneData) (index : Nat) (faults : List AccessorFault) (e : ResourceError) :
    Prop :=
  ∃ fault, IsFirst (fun fault => ∃ e, scene.HasFault index e fault) faults fault ∧
    scene.HasFault index e fault

theorem firstFault_here {fault : AccessorFault} {more : List AccessorFault}
    (h : scene.HasFault index e fault) : FirstFault scene index (fault :: more) e :=
  exists_isFirst_cons_iff.2 (.inl ⟨⟨e, h⟩, h⟩)

theorem firstFault_later {fault : AccessorFault} {more : List AccessorFault}
    (hnone : ∀ e, ¬scene.HasFault index e fault) (h : FirstFault scene index more e) :
    FirstFault scene index (fault :: more) e :=
  exists_isFirst_cons_iff.2 (.inr ⟨fun ⟨e, he⟩ => hnone e he, h⟩)

section Listed

variable {v : Nat} {size : Nat} (ha : scene.document.accessors[index]? = some a)
  (hv : a.bufferView = some v)

include ha hv in
/-- A view that is refused is missing, or its chunk is, or it does not lie in the chunk. -/
theorem firstFault_of_viewBytes {more : List AccessorFault}
    (herror : scene.viewBytes v = some (.error e)) :
    FirstFault scene index (.missingView :: .missingChunk :: .viewOutOfBounds :: more) e := by
  have hviewOf : scene.viewOf? a = _ := viewOf?_eq hv
  unfold viewBytes at herror
  split at herror
  next hview =>
    cases herror
    exact firstFault_here ⟨a, v, ha, hv, hviewOf.trans hview, rfl⟩
  next view hview =>
  rw [hview] at hviewOf
  apply firstFault_later
  · simp [HasFault, ha, hviewOf]
  split at herror
  next hchunk =>
    cases herror
    exact firstFault_here ⟨a, view, ha, hviewOf, hchunk, rfl⟩
  next chunk hchunk =>
  apply firstFault_later
  · simpa [HasFault, ha, hviewOf] using (List.getElem?_eq_some_iff.1 hchunk).1
  obtain ⟨stop, hstop, herror⟩ := Option.bind_eq_some_iff.1 herror
  have hstop : stop.toNat = view.stop := Word.add?_eq_some_iff.1 hstop
  split at herror
  next hover =>
    cases herror
    exact firstFault_here
      ⟨a, v, view, chunk, ha, hv, hviewOf, hchunk, hstop ▸ hover, by rw [eq_ofNat hstop]⟩
  · cases herror

include ha hv in
/-- A view that is given has none of these faults. -/
theorem firstFault_past_view {data : ByteRange} {more : List AccessorFault}
    (hdata : scene.viewBytes v = some (.ok data)) (hmore : FirstFault scene index more e) :
    FirstFault scene index (.missingView :: .missingChunk :: .viewOutOfBounds :: more) e := by
  obtain ⟨view, chunk, hview, hchunk, -, hfits, -⟩ := viewBytes_eq_ok_iff.1 hdata
  have hviewOf := (viewOf?_eq hv).trans hview
  have hstop : view.stop ≤ chunk.length := hfits
  apply firstFault_later
  · simp [HasFault, ha, hviewOf]
  apply firstFault_later
  · simpa [HasFault, ha, hviewOf] using (List.getElem?_eq_some_iff.1 hchunk).1
  apply firstFault_later
  · simp [HasFault, ha, hv, hviewOf, hchunk, Nat.not_lt.2 hstop]
  exact hmore

include ha hv in
/-- Elements are refused where they do not lie in the view. -/
theorem firstFault_of_within {component : Gltf.ComponentType} {element : Gltf.ElementType}
    {data : ByteRange} {length : UInt64} (hc : a.componentType = some component)
    (he : a.elementType = some element) (hdata : scene.viewBytes v = some (.ok data))
    (hlength : Word.mul? a.count (elementSize component element) = some length)
    (herror : within v data (a.byteOffset.getD 0) length = some (.error e)) :
    FirstFault scene index [.missingView, .missingChunk, .viewOutOfBounds, .outOfBounds] e := by
  apply firstFault_past_view ha hv hdata
  obtain ⟨view, chunk, hview, -, -, -, rfl⟩ := viewBytes_eq_ok_iff.1 hdata
  have hviewOf := (viewOf?_eq hv).trans hview
  rw [Word.mul?_eq_some_iff, toNat_elementSize] at hlength
  obtain ⟨partStop, hpartStop, herror⟩ := Option.bind_eq_some_iff.1 herror
  obtain ⟨offset, hoffset, herror⟩ := Option.bind_eq_some_iff.1 herror
  rw [Word.add?_eq_some_iff] at hpartStop hoffset
  split at herror
  next hover =>
    obtain ⟨stop, hstop, herror⟩ := Option.bind_eq_some_iff.1 herror
    obtain ⟨viewStop, hviewStop, herror⟩ := Option.bind_eq_some_iff.1 herror
    cases herror
    rw [Word.add?_eq_some_iff] at hstop hviewStop
    rw [UInt64.lt_iff_toNat_lt, hpartStop, hlength] at hover
    rw [hoffset, hlength] at hstop
    refine firstFault_here
      ⟨a, v, view, _, ha, hv, hviewOf, elementSize?_eq hc he, hover, ?_⟩
    rw [eq_ofNat hstop, eq_ofNat hviewStop]
    rfl
  · cases herror

end Listed

/-- What is reported of an accessor is the first fault that it has. -/
theorem firstFault_of_accessor (herror : scene.accessor index = some (.error e)) :
    FirstFault scene index AccessorFault.order e := by
  unfold SceneData.accessor at herror
  split at herror
  next ha =>
    cases herror
    exact firstFault_here ⟨ha, rfl⟩
  next a ha =>
  apply firstFault_later
  · simp [HasFault, ha]
  split at herror
  next hv =>
    cases herror
    exact firstFault_here ⟨a, ha, hv, rfl⟩
  next v component element hv hc he =>
    have hsize := elementSize?_eq hc he
    apply firstFault_later
    · simp [HasFault, ha, hv]
    apply firstFault_later
    · simp [HasFault, ha, hc, he]
    dsimp only at herror
    split at herror
    next stride hstride =>
      cases herror
      obtain ⟨hstride, hne⟩ := Option.filter_eq_some_iff.1 hstride
      obtain ⟨view, hview, hstride⟩ := Option.bind_eq_some_iff.1 hstride
      have hviewOf := (viewOf?_eq hv).trans hview
      refine firstFault_here ⟨a, view, _, stride, ha, hviewOf, hsize, hstride, ?_, rfl⟩
      rw [← toNat_elementSize, Ne, UInt64.toNat_inj]
      simpa using hne
    next hstride =>
      apply firstFault_later
      · rintro e ⟨a', view, size, stride, ha', hview, hsize', hs, hne, -⟩
        obtain rfl : a = a' := Option.some.inj (ha.symm.trans ha')
        obtain rfl := Option.some.inj (hsize.symm.trans hsize')
        rw [viewOf?_eq hv] at hview
        rw [stride?, hview, Option.bind_some, stride_filter_eq_none_iff] at hstride
        exact hne (hstride stride hs)
      obtain ⟨read, hread, herror⟩ := Option.bind_eq_some_iff.1 herror
      split at herror
      · cases herror
        exact firstFault_of_viewBytes ha hv hread
      next data =>
        obtain ⟨length, hlength, herror⟩ := Option.bind_eq_some_iff.1 herror
        obtain ⟨part, hpart, herror⟩ := Option.bind_eq_some_iff.1 herror
        cases part with
        | error e =>
          cases herror
          exact firstFault_of_within ha hv hc he hread hlength hpart
        | ok r => cases herror
  next v hv htypes =>
    cases herror
    apply firstFault_later
    · simp [HasFault, ha, hv]
    refine firstFault_here ⟨a, ha, ?_, rfl⟩
    cases hc : a.componentType with
    | none => exact .inl rfl
    | some component =>
      cases he : a.elementType with
      | none => exact .inr rfl
      | some element => exact (htypes component element hc he).elim

/-! ### Results -/

theorem exists_viewBytes {v : Nat}
    (h : ∀ view, scene.document.bufferViews[v]? = some view → view.stop < UInt64.size) :
    ∃ read, scene.viewBytes v = some read := by
  unfold viewBytes
  split
  · exact ⟨_, rfl⟩
  next view hview =>
  split
  · exact ⟨_, rfl⟩
  next chunk hchunk =>
  obtain ⟨stop, hstop, -⟩ := Word.exists_ofNat? (h view hview)
  by_cases hfits : chunk.length < stop.toNat
  · exact ⟨_, Option.bind_eq_some_iff.2 ⟨stop, hstop, if_pos hfits⟩⟩
  · exact ⟨_, Option.bind_eq_some_iff.2 ⟨stop, hstop, if_neg hfits⟩⟩

theorem exists_within {v : Nat} {data : ByteRange} {skip length : UInt64} (hdata : data.Bounded)
    (h : data.offset.toNat + skip.toNat + length.toNat < UInt64.size) :
    ∃ part, within v data skip length = some part := by
  obtain ⟨partStop, hpartStop, -⟩ := Word.exists_ofNat? (n := skip.toNat + length.toNat) (by omega)
  obtain ⟨offset, hoffset, hsum⟩ :=
    Word.exists_ofNat? (n := data.offset.toNat + skip.toNat) (by omega)
  obtain ⟨stop, hstop, -⟩ := Word.exists_ofNat? (hsum ▸ h)
  obtain ⟨viewStop, hviewStop, -⟩ := Word.exists_ofNat? hdata
  by_cases hfits : data.length < partStop
  · exact ⟨_, Option.bind_eq_some_iff.2 ⟨partStop, hpartStop, Option.bind_eq_some_iff.2
      ⟨offset, hoffset, (if_pos hfits).trans (Option.bind_eq_some_iff.2 ⟨stop, hstop,
        Option.bind_eq_some_iff.2 ⟨viewStop, hviewStop, rfl⟩⟩)⟩⟩⟩
  · exact ⟨_, Option.bind_eq_some_iff.2 ⟨partStop, hpartStop, Option.bind_eq_some_iff.2
      ⟨offset, hoffset, if_neg hfits⟩⟩⟩

/-- Where the sums and products of an accessor are words, it is found, or a fault is reported. -/
theorem exists_accessor (h : ∀ a, scene.document.accessors[index]? = some a → scene.InWords a) :
    ∃ result, scene.accessor index = some result := by
  unfold SceneData.accessor
  split
  · exact ⟨_, rfl⟩
  next a ha =>
  split
  · exact ⟨_, rfl⟩
  next v component element hv hc he =>
    dsimp only
    split
    · exact ⟨_, rfl⟩
    have hwords := h a ha
    have hsize := elementSize?_eq hc he
    have hview_stop (view) (hview : scene.document.bufferViews[v]? = some view) :
        view.stop < UInt64.size := hwords.view view ((viewOf?_eq hv).trans hview)
    obtain ⟨read, hread⟩ := exists_viewBytes hview_stop
    cases read with
    | error e => exact ⟨_, Option.bind_eq_some_iff.2 ⟨_, hread, rfl⟩⟩
    | ok data =>
      obtain ⟨view, chunk, hview, -, hword, -, rfl⟩ := viewBytes_eq_ok_iff.1 hread
      have hbounded : ByteRange.Bounded ⟨chunk, view.byteOffset.getD 0, view.byteLength⟩ := hword
      obtain ⟨length, hlength, hproduct⟩ := Word.exists_ofNat? (hwords.elements _ hsize)
      have hstop := hwords.stop view _ ((viewOf?_eq hv).trans hview) hsize
      rw [← hproduct] at hstop
      obtain ⟨part, hpart⟩ := exists_within (v := v) hbounded hstop
      rw [← toNat_elementSize] at hlength
      exact ⟨_, Option.bind_eq_some_iff.2 ⟨_, hread, Option.bind_eq_some_iff.2 ⟨length, hlength,
        Option.bind_eq_some_iff.2 ⟨part, hpart, rfl⟩⟩⟩⟩
  · exact ⟨_, rfl⟩

/-! ### The verdict -/

namespace Covers

variable {view : Gltf.BufferView} {chunk : List UInt8} {size : Nat} {found : AccessorData}
  (hcovers : Covers a view chunk size found)

include hcovers

theorem within_view (hsound : scene.Sound a view chunk size) :
    view.start ≤ found.data.offset.toNat ∧
      found.data.offset.toNat + found.data.length.toNat ≤ view.stop := by
  have hstop := hsound.stop
  have hoffset := hcovers.offset
  have hlength := hcovers.length
  rw [Gltf.BufferView.stop]
  omega

theorem slice_eq : found.data.slice =
    (chunk.drop (view.start + a.start)).take (a.count.toNat * size) := by
  rw [ByteRange.slice, hcovers.chunk, hcovers.offset, hcovers.length]

end Covers

/-- An accessor that is found has all that is asked of it, and what is found are the bytes of its
elements.  Any other lacks something, and its first fault is reported. -/
theorem accessor_verdict (h : ∀ a, scene.document.accessors[index]? = some a → scene.InWords a) :
    match scene.accessor index with
    | none => False
    | some (.ok found) => ∃ a view chunk size, scene.document.accessors[index]? = some a ∧
        scene.Sound a view chunk size ∧ Covers a view chunk size found ∧
          view.start ≤ found.data.offset.toNat ∧
            found.data.offset.toNat + found.data.length.toNat ≤ view.stop ∧
              found.data.bytes? =
                some ((chunk.drop (view.start + a.start)).take (a.count.toNat * size))
    | some (.error e) => (¬∃ a view chunk size, scene.document.accessors[index]? = some a ∧
        scene.Sound a view chunk size) ∧ FirstFault scene index AccessorFault.order e := by
  obtain ⟨result, hresult⟩ := exists_accessor h
  rw [hresult]
  cases result with
  | ok found =>
    obtain ⟨a, view, chunk, size, ha, hsound, hcovers⟩ := exists_covers hresult
    obtain ⟨hstart, hstop⟩ := hcovers.within_view hsound
    obtain ⟨hfits, hbounded⟩ := fits_of_accessor hresult
    refine ⟨a, view, chunk, size, ha, hsound, hcovers, hstart, hstop, ?_⟩
    rw [ByteRange.bytes?_eq hfits hbounded, hcovers.slice_eq]
  | error e =>
    refine ⟨?_, firstFault_of_accessor hresult⟩
    rintro ⟨a, view, chunk, size, ha, hsound⟩
    obtain ⟨found, hfound⟩ := accessor_of_sound ha (h a ha) hsound
    cases hresult.symm.trans hfound

/-- A view up to the end of its chunk, with elements of two bytes up to its own end and elements of
four bytes past it. -/
def twoBytesApart : SceneData :=
  ⟨⟨none, [], [], [], [⟨some 0, some 2, 2, some .u16, some .scalar⟩,
    ⟨some 0, some 2, 2, some .u16, some .vec2⟩], [⟨0, some 1, 6, some 2⟩], [], [], [], []⟩,
    [[0, 1, 2, 3, 4, 5, 6]]⟩

theorem accessor_verdict_twoBytesApart :
    (∀ (index : Nat) a, twoBytesApart.document.accessors[index]? = some a → twoBytesApart.InWords a) ∧
      (∃ found, twoBytesApart.accessor 0 = some (.ok found) ∧ found.data.bytes? = some [3, 4, 5, 6]) ∧
        FirstFault twoBytesApart 1 AccessorFault.order (.interleaved 1 2 4) := by
  have hwords : ∀ a ∈ twoBytesApart.document.accessors, twoBytesApart.InWords a := by
    refine List.forall_mem_cons.2 ⟨?_, List.forall_mem_singleton.2 ?_⟩
    all_goals
      refine ⟨?_, ?_, ?_⟩
      · rintro view ⟨⟩
        decide
      · rintro size ⟨⟩
        decide
      · rintro view size ⟨⟩ ⟨⟩
        decide
  have hindex : ∀ (index : Nat) a, twoBytesApart.document.accessors[index]? = some a →
      twoBytesApart.InWords a := fun _ a ha => hwords a (List.mem_of_getElem? ha)
  refine ⟨hindex, ?_, (accessor_verdict (hindex 1)).2⟩
  obtain ⟨a, view, chunk, size, ha, hsound, -, -, -, hbytes⟩ := accessor_verdict (hindex 0)
  refine ⟨_, rfl, hbytes.trans ?_⟩
  obtain ⟨hsize, hview, hchunk, -, -, -⟩ := hsound
  cases ha
  cases hsize
  cases hview
  cases hchunk
  rfl

end SceneData

end Diorama

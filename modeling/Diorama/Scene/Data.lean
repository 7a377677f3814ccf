import Diorama.Container
import Diorama.Gltf.Reader
import Diorama.Graph.Walk
import Diorama.Linear.Matrix
import Diorama.Outcome
import Diorama.Scene.Error
import Diorama.Word

/-! A decoded scene: its document and its binary chunks.  Here the document's numbers become nodes
of a graph and ranges of bytes.  Offsets and lengths are words of 64 bits.  Where a sum or a product
of them is no such word, there is no result. -/

namespace Diorama

structure ByteRange where
  chunk : List UInt8
  offset : UInt64
  length : UInt64
deriving DecidableEq

namespace ByteRange

/-- Whether the range lies in its chunk. -/
def Fits (r : ByteRange) : Prop := r.offset.toNat + r.length.toNat ≤ r.chunk.length

instance (r : ByteRange) : Decidable r.Fits := by
  unfold Fits
  infer_instance

/-- The bytes in the range.  A read past the end of the chunk has no result. -/
def bytes? (r : ByteRange) : Option (List UInt8) := do
  let stop ← Word.add? r.offset r.length
  if stop.toNat ≤ r.chunk.length then
    some ((r.chunk.drop r.offset.toNat).take r.length.toNat)
  else none

/-- Drops bytes at the end, so that the length is a multiple of `alignment`. -/
def truncateTo (r : ByteRange) (alignment : UInt64) : ByteRange :=
  { r with length := r.length - r.length % alignment }

end ByteRange

structure AccessorData where
  count : UInt64
  componentType : Gltf.ComponentType
  elementType : Gltf.ElementType
  data : ByteRange
deriving DecidableEq

/-- A document and the chunks that its buffers stand for. -/
structure SceneData where
  document : Gltf.Document
  bins : List (List UInt8)

/-- The matrix of a node: the one that it gives, or the one of its parts. -/
def Gltf.Node.localMatrix (node : Gltf.Node) : Mat4 :=
  let vec3? : List Float32 → Option Vec3
    | [x, y, z] => some ⟨x, y, z⟩
    | _ => none
  let quaternion? : List Float32 → Option Quaternion
    | [x, y, z, s] => some ⟨x, y, z, s⟩
    | _ => none
  (node.matrix.bind Mat4.ofList?).getD (Mat4.ofParts (node.translation.bind vec3?)
    (node.rotation.bind quaternion?) (node.scale.bind vec3?))

def Gltf.graph (nodes : List Gltf.Node) : List (Graph.Node Mat4) :=
  nodes.map fun node => ⟨node.localMatrix, node.mesh, node.children⟩

namespace SceneData

def ofContainer (container : Container) : Except DecodeError SceneData :=
  match Gltf.Document.ofBytes? container.json with
  | none => .error .json
  | some document => .ok ⟨document, container.bins⟩

def decode (bytes : List UInt8) : Except DecodeError SceneData :=
  (Container.decode bytes).bind ofContainer

def graph (scene : SceneData) : List (Graph.Node Mat4) := Gltf.graph scene.document.nodes

/-- The nodes that are no node's child. -/
def orphans (nodes : List (Graph.Node Mat4)) : List Nat :=
  (List.range nodes.length).filter fun i => nodes.all fun node => !node.children.contains i

/-- The top-level nodes of a scene: the one asked for, or the one that the document names, or the
first.  Where there is no such scene, they are the nodes that are no node's child. -/
def roots (scene : SceneData) (index : Option Nat) : List Nat :=
  match scene.document.scenes[(index.or scene.document.scene).getD 0]? with
  | some chosen => chosen.nodes
  | none => orphans scene.graph

def walk (scene : SceneData) (index : Option Nat) : Except GraphError (List (Graph.Visit Mat4)) := do
  Graph.check scene.graph (scene.roots index) (some scene.document.meshes.length)
  Graph.walk scene.graph (scene.roots index)

def viewBytes (scene : SceneData) (index : Nat) : Option (Except ResourceError ByteRange) :=
  match scene.document.bufferViews[index]? with
  | none => some (.error (.missingView index))
  | some view =>
    match scene.bins[view.buffer]? with
    | none => some (.error (.missingChunk view.buffer))
    | some chunk => do
      let offset := view.byteOffset.getD 0
      let stop ← Word.add? offset view.byteLength
      if chunk.length < stop.toNat then
        some (.error (.outOfBounds index stop (UInt64.ofNat chunk.length)))
      else some (.ok ⟨chunk, offset, view.byteLength⟩)

/-- The bytes of one element. -/
def elementSize (component : Gltf.ComponentType) (element : Gltf.ElementType) : UInt64 :=
  UInt64.ofNat (component.size * element.arity)

theorem toNat_elementSize (component : Gltf.ComponentType) (element : Gltf.ElementType) :
    (elementSize component element).toNat = component.size * element.arity := by
  apply UInt64.toNat_ofNat_of_lt'
  cases component <;> cases element <;> decide

def stride? (scene : SceneData) (view : Nat) : Option UInt64 :=
  scene.document.bufferViews[view]?.bind (·.byteStride)

/-- The part of a view that holds `length` bytes from `skip` on. -/
def within (view : Nat) (data : ByteRange) (skip length : UInt64) :
    Option (Except ResourceError ByteRange) := do
  let stop ← Word.add? skip length
  let offset ← Word.add? data.offset skip
  if data.length < stop then
    let stop ← Word.add? offset length
    let viewStop ← Word.add? data.offset data.length
    return .error (.outOfBounds view stop viewStop)
  else return .ok { data with offset, length }

/-- The elements of an accessor, which have to lie side by side in a view. -/
def accessor (scene : SceneData) (index : Nat) : Option (Except ResourceError AccessorData) :=
  match scene.document.accessors[index]? with
  | none => some (.error (.missingAccessor index))
  | some accessor =>
    match accessor.bufferView, accessor.componentType, accessor.elementType with
    | none, _, _ => some (.error (.sparseAccessor index))
    | some view, some component, some element =>
      let size := elementSize component element
      match (scene.stride? view).filter (· ≠ size) with
      | some stride => some (.error (.interleaved index stride size))
      | none => do
        match ← scene.viewBytes view with
        | .error e => return .error e
        | .ok data =>
          let length ← Word.mul? accessor.count size
          let part ← within view data (accessor.byteOffset.getD 0) length
          return part.map fun data => ⟨accessor.count, component, element, data⟩
    | some _, _, _ => some (.error (.invalidAccessor index))

section Ranges

variable {scene : SceneData} {index : Nat}

theorem viewBytes_eq_ok_iff {r : ByteRange} : scene.viewBytes index = some (.ok r) ↔
    ∃ view chunk, scene.document.bufferViews[index]? = some view ∧
      scene.bins[view.buffer]? = some chunk ∧
        (view.byteOffset.getD 0).toNat + view.byteLength.toNat < UInt64.size ∧
          (view.byteOffset.getD 0).toNat + view.byteLength.toNat ≤ chunk.length ∧
            ⟨chunk, view.byteOffset.getD 0, view.byteLength⟩ = r := by
  unfold viewBytes
  constructor
  · intro h
    split at h
    · cases h
    next view hview =>
    split at h
    · cases h
    next chunk hchunk =>
    obtain ⟨stop, hstop, h⟩ := Option.bind_eq_some_iff.1 h
    rw [Word.add?_eq_some_iff] at hstop
    split at h
    · cases h
    next hfits =>
    cases h
    exact ⟨view, chunk, hview, hchunk, hstop ▸ stop.toNat_lt_size, hstop ▸ Nat.not_lt.1 hfits, rfl⟩
  · rintro ⟨view, chunk, hview, hchunk, hword, hfits, rfl⟩
    obtain ⟨stop, hstop, hsum⟩ := Word.exists_ofNat? hword
    simp only [hview, hchunk]
    exact Option.bind_eq_some_iff.2 ⟨stop, hstop, if_neg (Nat.not_lt.2 (hsum ▸ hfits))⟩

theorem within_eq_ok_iff {view : Nat} {data r : ByteRange} {skip length : UInt64} :
    within view data skip length = some (.ok r) ↔
      skip.toNat + length.toNat ≤ data.length.toNat ∧ ∃ offset,
        offset.toNat = data.offset.toNat + skip.toNat ∧ { data with offset, length } = r := by
  unfold within
  constructor
  · intro h
    obtain ⟨stop, hstop, h⟩ := Option.bind_eq_some_iff.1 h
    obtain ⟨offset, hoffset, h⟩ := Option.bind_eq_some_iff.1 h
    rw [Word.add?_eq_some_iff] at hstop hoffset
    split at h
    · obtain ⟨_, -, h⟩ := Option.bind_eq_some_iff.1 h
      obtain ⟨_, -, h⟩ := Option.bind_eq_some_iff.1 h
      cases h
    next hfits =>
    cases h
    rw [UInt64.not_lt, UInt64.le_iff_toNat_le, hstop] at hfits
    exact ⟨hfits, offset, hoffset, rfl⟩
  · rintro ⟨hfits, offset, hoffset, rfl⟩
    have hword := Nat.lt_of_le_of_lt hfits data.length.toNat_lt_size
    obtain ⟨stop, hstop, hsum⟩ := Word.exists_ofNat? hword
    refine Option.bind_eq_some_iff.2 ⟨stop, hstop, Option.bind_eq_some_iff.2
      ⟨offset, Word.add?_eq_some_iff.2 hoffset, if_neg ?_⟩⟩
    rwa [UInt64.not_lt, UInt64.le_iff_toNat_le, hsum]

theorem accessor_eq_ok_iff {found : AccessorData} : scene.accessor index = some (.ok found) ↔
    ∃ accessor view component element data length r,
      scene.document.accessors[index]? = some accessor ∧ accessor.bufferView = some view ∧
        accessor.componentType = some component ∧ accessor.elementType = some element ∧
          (scene.stride? view).filter (· ≠ elementSize component element) = none ∧
            scene.viewBytes view = some (.ok data) ∧
              Word.mul? accessor.count (elementSize component element) = some length ∧
                within view data (accessor.byteOffset.getD 0) length = some (.ok r) ∧
                  ⟨accessor.count, component, element, r⟩ = found := by
  unfold SceneData.accessor
  constructor
  · intro h
    split at h
    · cases h
    next accessor haccessor =>
    split at h
    · cases h
    next view component element hview hcomponent helement =>
      dsimp only at h
      split at h
      · cases h
      next hstride =>
      obtain ⟨read, hdata, h⟩ := Option.bind_eq_some_iff.1 h
      split at h
      · cases h
      next data =>
      obtain ⟨length, hlength, h⟩ := Option.bind_eq_some_iff.1 h
      obtain ⟨part, hpart, h⟩ := Option.bind_eq_some_iff.1 h
      obtain ⟨r, rfl, hr⟩ := map_eq_ok_iff.1 (Option.some.inj h)
      exact ⟨accessor, view, component, element, data, length, r, haccessor, hview, hcomponent,
        helement, hstride, hdata, hlength, hpart, hr⟩
    · cases h
  · rintro ⟨accessor, view, component, element, data, length, r, haccessor, hview, hcomponent,
      helement, hstride, hdata, hlength, hpart, rfl⟩
    simp only [haccessor, hview, hcomponent, helement, hstride]
    exact Option.bind_eq_some_iff.2 ⟨_, hdata, Option.bind_eq_some_iff.2
      ⟨length, hlength, Option.bind_eq_some_iff.2 ⟨_, hpart, rfl⟩⟩⟩

end Ranges

end SceneData

end Diorama

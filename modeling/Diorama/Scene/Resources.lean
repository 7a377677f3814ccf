import Diorama.Load.Latch
import Diorama.Scene.Image
import Diorama.Scene.Mesh
import Diorama.Scene.Sampler
import Diorama.Uid.Registry

/-! The resources of a loaded scene: its meshes and images by identifier, its textures and
samplers, and what of them is on the graphics processor. -/

namespace Diorama

structure SceneResources where
  meshes : Registry Mesh
  images : Registry SceneImage
  samplers : List SamplerConfig
  textures : List Gltf.Texture
  /-- The identifiers of meshes and images, in the order of the document. -/
  meshUids : List Uid
  imageUids : List Uid
  /-- Waits for an attempt to decode each image. -/
  decoded : Latch
  gpuSamplers : List Handle
  /-- The sampler of textures that name none. -/
  defaultSampler : Option Handle

namespace SceneResources

/-- Reads the images of a document from number `index` on. -/
def readImages (scene : SceneData) (index : Nat) : List Gltf.Image → Registry SceneImage →
    Option (Except ResourceError (List Uid × Registry SceneImage))
  | [], images => some (.ok ([], images))
  | image :: rest, images =>
    match image.bufferView with
    | none => some (.error (.externalImage index))
    | some view => do
      match ← scene.viewBytes view with
      | .error e => return .error e
      | .ok data =>
        let name := image.name.getD s!"image_{index}"
        let (uid, images) :=
          images.insertWith fun uid => SceneImage.new uid index name image.mimeType data
        return (← readImages scene (index + 1) rest images).map fun (uids, images) =>
          (uid :: uids, images)

def readMeshes (scene : SceneData) : List Nat → Registry Mesh →
    Logged (Option (Except ResourceError (List Uid × Registry Mesh)))
  | [], meshes => pure (some (.ok ([], meshes)))
  | index :: rest, meshes => do
    Logged.proceed (← Mesh.ofDocument scene index) fun mesh => do
      let (uid, meshes) := meshes.insertWith fun uid => { mesh with uid }
      return (← readMeshes scene rest meshes).map (·.map fun (uids, meshes) => (uid :: uids, meshes))

/-- Reads the resources of a scene, first its images and then its meshes.  Images are not decoded
yet. -/
def new (scene : SceneData) : Logged (Option (Except ResourceError SceneResources)) :=
  let document := scene.document
  Logged.proceed (readImages scene 0 document.images .empty) fun (imageUids, images) => do
    let meshes ← readMeshes scene (List.range document.meshes.length) .empty
    return meshes.map (·.map fun (meshUids, meshes) =>
      ⟨meshes, images, document.samplers.map .ofSampler, document.textures, meshUids, imageUids,
        Latch.new document.images.length, [], none⟩)

def meshUid? (r : SceneResources) (index : Nat) : Option Uid := r.meshUids[index]?

def imageUid? (r : SceneResources) (index : Nat) : Option Uid := r.imageUids[index]?

def mesh? (r : SceneResources) (index : Nat) : Option Mesh := do
  r.meshes.get? (← r.meshUid? index)

def setBitmap (r : SceneResources) (index : Nat) (bitmap : Bitmap) : SceneResources :=
  match r.imageUid? index with
  | some uid =>
    { r with images := r.images.modify uid fun image => { image with bitmap := some bitmap } }
  | none => r

/-- Takes in the result of decoding one image, which counts as an attempt either way. -/
def finishDecode (r : SceneResources) (index : Nat) (bitmap : Option Bitmap) :
    Logged SceneResources := do
  let r ← match bitmap with
    | some bitmap => pure (r.setBitmap index bitmap)
    | none => do
      Logged.warn (.undecodable index)
      pure r
  return { r with decoded := (← r.decoded.arrive).2 }

/-- Takes in the results of decoding several images, in their order. -/
def finishDecodes (r : SceneResources) : List (Nat × Option Bitmap) → Logged SceneResources
  | [] => pure r
  | (index, bitmap) :: rest => do finishDecodes (← r.finishDecode index bitmap) rest

/-- Decodes the images that have no pixels yet.  There is no result where the bytes of one of them
cannot be read. -/
def decodeImages (r : SceneResources) (decoder : ImageDecoder) : Option (Logged SceneResources) := do
  let results ← (r.images.objects.filter (!·.isDecoded)).mapM fun image =>
    (image.decode? decoder).map (image.index, ·)
  return r.finishDecodes results

/-- Whether an attempt was made to decode each image. -/
def imagesReady (r : SceneResources) : Bool := r.decoded.isOpen

def load (scene : SceneData) (decoder : ImageDecoder) :
    Logged (Option (Except ResourceError SceneResources)) := do
  Logged.proceed (← new scene) fun r =>
    match r.decodeImages decoder with
    | none => pure none
    | some decoded => do return some (.ok (← decoded))

/-- A change of the graphics processor that counts what it makes. -/
abbrev Storing := StateT (Nat × Gpu)

def storeMesh (mesh : Mesh) : Storing Option Mesh := do
  let (count, gpu) ← get
  let (stored, mesh, gpu) ← mesh.store gpu
  set (if stored then count + 1 else count, gpu)
  return mesh

/-- Stores one image if it is decoded. -/
def storeImage (image : SceneImage) : Storing Id SceneImage := do
  let (count, gpu) ← get
  match image.store gpu with
  | .error _ => return image
  | .ok (stored, image, gpu) =>
    set (if stored then count + 1 else count, gpu)
    return image

/-- Stores the meshes that are not stored yet, and counts them.  There is no result where bytes of
one of them cannot be read. -/
def storeMeshes (r : SceneResources) (gpu : Gpu) : Option (Nat × SceneResources × Gpu) := do
  let (meshes, count, gpu) ← (r.meshes.mapM fun _ mesh => storeMesh mesh).run (0, gpu)
  return (count, { r with meshes }, gpu)

/-- Stores the decoded images that are not stored yet, and counts them. -/
def storeImages (r : SceneResources) (gpu : Gpu) : Nat × SceneResources × Gpu :=
  let (images, count, gpu) := (r.images.mapM fun _ image => storeImage image).run (0, gpu)
  (count, { r with images }, gpu)

/-- Makes samplers, the first of which is number `index`. -/
def createSamplers (index : Nat) : List SamplerConfig → Gpu → List Handle × Gpu
  | [], gpu => ([], gpu)
  | _ :: rest, gpu =>
    let (handle, gpu) := gpu.createSampler s!"sampler_{index}"
    let (handles, gpu) := createSamplers (index + 1) rest gpu
    (handle :: handles, gpu)

/-- Makes all samplers if that was not done before. -/
def storeSamplers (r : SceneResources) (gpu : Gpu) : SceneResources × Gpu :=
  match r.defaultSampler with
  | some _ => (r, gpu)
  | none =>
    let (handle, gpu) := gpu.createSampler "default_sampler"
    let (gpuSamplers, gpu) := createSamplers 0 r.samplers gpu
    ({ r with defaultSampler := some handle, gpuSamplers }, gpu)

/-- Stores what is ready and not stored yet, and counts the images and meshes among it. -/
def storeAll (r : SceneResources) (gpu : Gpu) : Option (Nat × SceneResources × Gpu) := do
  let (r, gpu) := r.storeSamplers gpu
  let (images, r, gpu) := r.storeImages gpu
  let (meshes, r, gpu) ← r.storeMeshes gpu
  return (images + meshes, r, gpu)

def imageOf (r : SceneResources) (texture : Nat) : Except ResourceError SceneImage :=
  match r.textures[texture]? with
  | none => .error (.notReady s!"texture {texture}")
  | some t =>
    match r.imageUid? t.source with
    | none => .error (.externalImage t.source)
    | some uid =>
      match r.images.get? uid with
      | none => .error (.unknownUid uid)
      | some image => .ok image

/-- What a texture of the document is on the graphics processor. -/
def textureView (r : SceneResources) (texture : Nat) : Except ResourceError Texture := do
  (← r.imageOf texture).view

/-- The sampler of a texture of the document, where it has been made. -/
def sampler? (r : SceneResources) (texture : Nat) : Option Handle := do
  match (← r.textures[texture]?).sampler with
  | some index => r.gpuSamplers[index]?
  | none => r.defaultSampler

def sampler (r : SceneResources) (texture : Nat) : Except ResourceError Handle :=
  match r.sampler? texture with
  | some handle => .ok handle
  | none => .error (.notReady s!"sampler of texture {texture}")

end SceneResources

end Diorama

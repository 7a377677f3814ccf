import Diorama.Gpu
import Diorama.Image.Bitmap
import Diorama.Scene.Data

/-! Images of a scene: their bytes, their pixels once these are decoded, and their texture once
that is made. -/

namespace Diorama

/-- A texture with its size, which is at least one pixel each way. -/
structure Texture where
  handle : Handle
  width : Nat
  height : Nat
deriving DecidableEq, Repr

structure SceneImage where
  uid : Uid
  name : String
  /-- The place of the image in the document. -/
  index : Nat
  mimeType : Option String
  data : ByteRange
  bitmap : Option Bitmap
  texture : Option Texture

namespace SceneImage

/-- An image that is not decoded yet. -/
def new (uid : Uid) (index : Nat) (name : String) (mimeType : Option String) (data : ByteRange) :
    SceneImage :=
  ⟨uid, name, index, mimeType, data, none, none⟩

def isDecoded (image : SceneImage) : Bool := image.bitmap.isSome

def isLoaded (image : SceneImage) : Bool := image.texture.isSome

/-- The pixels that the decoder finds in the image's bytes, if it finds any.  There is no result
where the bytes cannot be read. -/
def decode? (image : SceneImage) (decoder : ImageDecoder) : Option (Option Bitmap) :=
  image.data.bytes?.map (decoder.decode? · image.mimeType)

/-- Makes the texture of a decoded image if that was not done before, and says whether it did. -/
def store (image : SceneImage) (gpu : Gpu) : Except ResourceError (Bool × SceneImage × Gpu) :=
  match image.texture, image.bitmap with
  | some _, _ => .ok (false, image, gpu)
  | none, none => .error (.notReady s!"bitmap of image {image.name}")
  | none, some bitmap =>
    let (width, height) := (max bitmap.width 1, max bitmap.height 1)
    let (handle, gpu) := gpu.createTexture image.name width height
    .ok (true, { image with texture := some ⟨handle, width, height⟩ }, gpu)

def view (image : SceneImage) : Except ResourceError Texture :=
  match image.texture with
  | some texture => .ok texture
  | none => .error (.notReady s!"texture of image {image.name}")

end SceneImage

end Diorama

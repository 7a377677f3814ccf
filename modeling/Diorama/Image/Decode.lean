import Diorama.Image.Bmp
import Diorama.Image.Png

/-! A decoder of two formats: PNG with eight bits a channel, and BMP with three bytes a pixel. -/

namespace Diorama.Image

/-- Media types of other formats.  This decoder leaves them out: under their names it reads
nothing. -/
def otherTypes : List String :=
  ["avif", "jpeg", "gif", "webp", "tiff", "x-targa", "x-tga", "vnd-ms.dds", "x-icon",
    "vnd.microsoft.icon", "vnd.radiance", "x-exr", "x-portable-bitmap", "x-portable-graymap",
    "x-portable-pixmap", "x-portable-anymap", "x-qoi"].map ("image/" ++ ·)

/-- The reader of the format that the first bytes show. -/
def guess? (s : List UInt8) : Option ImageReader :=
  if Png.signature.isPrefixOf s then some Png.decode?
  else if Bmp.signature.isPrefixOf s then some Bmp.decode?
  else none

def decoder : ImageDecoder where
  ofMediaType? type :=
    if type = "image/png" then some Png.decode?
    else if type = "image/bmp" then some Bmp.decode?
    else if otherTypes.contains type then some fun _ => none
    else none
  ofBytes? s := guess? s >>= (· s)

end Diorama.Image

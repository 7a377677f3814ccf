/-! Bitmaps: the pixels of an image, and the decoders that find them in bytes. -/

namespace Diorama

/-- Pixels of red, green, blue and alpha, a byte each, row by row from the top. -/
structure Bitmap where
  width : Nat
  height : Nat
  pixels : List UInt8
deriving DecidableEq, Repr

namespace Bitmap

inductive Layout where
  | grey
  | greyAlpha
  | rgb
  | rgba
deriving DecidableEq, Repr

def Layout.channels : Layout → Nat
  | grey => 1
  | greyAlpha => 2
  | rgb => 3
  | rgba => 4

/-- The alpha of a pixel that is written without one. -/
def alphaOf (clear : Option (List UInt8)) (pixel : List UInt8) : UInt8 :=
  if clear = some pixel then 0 else 255

/-- The pixels of whole rows.  Grey stands for three equal colours, and pixels without alpha are
opaque, except those of the colour `clear`. -/
def expand (clear : Option (List UInt8)) : Layout → List UInt8 → List UInt8
  | .grey, g :: rest => g :: g :: g :: alphaOf clear [g] :: expand clear .grey rest
  | .greyAlpha, g :: a :: rest => g :: g :: g :: a :: expand clear .greyAlpha rest
  | .rgb, r :: g :: b :: rest => r :: g :: b :: alphaOf clear [r, g, b] :: expand clear .rgb rest
  | .rgba, rest => rest
  | _, _ => []

end Bitmap

/-- Reads the pixels of an image, if its bytes hold any. -/
abbrev ImageReader := List UInt8 → Option Bitmap

/-- The formats of images that can be told apart, and their readers. -/
structure ImageDecoder where
  /-- The reader of the format that a media type names, where it names one. -/
  ofMediaType? : String → Option ImageReader
  /-- Reads an image in the format that its bytes show. -/
  ofBytes? : ImageReader

/-- The pixels that bytes hold.  A media type that names a format decides on it; without one, the
bytes do. -/
def ImageDecoder.decode? (decoder : ImageDecoder) (bytes : List UInt8) (mimeType : Option String) :
    Option Bitmap :=
  match mimeType.bind decoder.ofMediaType? with
  | some read => read bytes
  | none => decoder.ofBytes? bytes

end Diorama

import Diorama.Image.Bitmap
import Diorama.Container

/-! BMP images of 24 bits a pixel, in one plane, uncompressed and from the bottom up. -/

namespace Diorama.Bmp

def signature : List UInt8 := [0x42, 0x4D]

/-- The little-endian number of `size` bytes at an offset. -/
def numberAt (s : List UInt8) (offset size : Nat) : Nat :=
  Container.ofLittle ((s.drop offset).take size)

/-- Turns pixels of blue, green and red around. -/
def swapColours : List UInt8 → List UInt8
  | b :: g :: r :: rest => r :: g :: b :: swapColours rest
  | _ => []

/-- `rows` rows of `size` bytes, each filled up to `stride` bytes. -/
def splitRows (size stride : Nat) : (rows : Nat) → List UInt8 → List (List UInt8)
  | 0, _ => []
  | rows + 1, s => s.take size :: splitRows size stride rows (s.drop stride)

/-- How wide and how high an image is at most. -/
def maxSide : Nat := 65535

def decode? (s : List UInt8) : Option Bitmap := do
  guard (54 ≤ s.length ∧ s.take 2 = signature)
  guard (numberAt s 14 4 = 40 ∧ numberAt s 26 2 = 1 ∧ numberAt s 28 2 = 24 ∧ numberAt s 30 4 = 0)
  let width := numberAt s 18 4
  let height := numberAt s 22 4
  guard (0 < width ∧ width ≤ maxSide ∧ height ≤ maxSide)
  let pixels := s.drop (numberAt s 10 4)
  let stride := (3 * width + 3) / 4 * 4
  guard (height * stride ≤ pixels.length)
  let rows := (splitRows (3 * width) stride height pixels).reverse
  return ⟨width, height, Bitmap.expand none .rgb (rows.flatMap swapColours)⟩

end Diorama.Bmp

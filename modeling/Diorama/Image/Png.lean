import Diorama.Image.Bitmap
import Diorama.Image.Inflate

/-! PNG images of 8 bits a channel, whose pixels are written without palette and interlacing.  A file
is a list of chunks.  The header comes first, and nothing behind the data is looked at. -/

namespace Diorama.Png

def signature : List UInt8 := [0x89, 0x50, 0x4E, 0x47, 0x0D, 0x0A, 0x1A, 0x0A]

/-- The number that bytes denote, the highest byte first. -/
def ofBig (s : List UInt8) : Nat := s.foldl (fun n b => 256 * n + b.toNat) 0

/-- One bit of the division behind the check sum. -/
def crcStep (crc : UInt32) : UInt32 :=
  if crc &&& 1 = 1 then (crc >>> 1) ^^^ 0xEDB88320 else crc >>> 1

def crc (s : List UInt8) : UInt32 :=
  (s.foldl (fun c b => Nat.repeat crcStep 8 (c ^^^ b.toUInt32)) 0xFFFFFFFF) ^^^ 0xFFFFFFFF

structure Chunk where
  tag : List UInt8
  contents : List UInt8
  /-- Whether the check sum is right. -/
  sound : Bool

def headerTag : List UInt8 := [0x49, 0x48, 0x44, 0x52]

def paletteTag : List UInt8 := [0x50, 0x4C, 0x54, 0x45]

def transparencyTag : List UInt8 := [0x74, 0x52, 0x4E, 0x53]

def frameTag : List UInt8 := [0x66, 0x64, 0x41, 0x54]

def dataTag : List UInt8 := [0x49, 0x44, 0x41, 0x54]

/-- Whether an image cannot be shown without knowing what the chunk says.  Such tags start with a
capital letter. -/
def Chunk.isCritical (chunk : Chunk) : Bool := !(chunk.tag.headD 0).toNat.testBit 5

def readChunk? (s : List UInt8) : Option (Chunk × List UInt8) :=
  let size := ofBig (s.take 4)
  let tagged := (s.drop 4).take (4 + size)
  let rest := s.drop (8 + size)
  if 12 + size ≤ s.length then
    some (⟨tagged.take 4, tagged.drop 4, ofBig (rest.take 4) = (crc tagged).toNat⟩, rest.drop 4)
  else none

theorem length_lt_of_readChunk? {s rest : List UInt8} {chunk : Chunk}
    (h : readChunk? s = some (chunk, rest)) : rest.length < s.length := by
  simp only [readChunk?] at h
  split at h
  · obtain ⟨-, rfl⟩ := Prod.mk.inj (Option.some.inj h)
    simp only [List.length_drop]
    omega
  · cases h

structure Header where
  width : Nat
  height : Nat
  layout : Bitmap.Layout

def layout? : Nat → Option Bitmap.Layout
  | 0 => some .grey
  | 2 => some .rgb
  | 4 => some .greyAlpha
  | 6 => some .rgba
  | _ => none

def Header.ofChunk? (chunk : Chunk) : Option Header := do
  guard (chunk.tag = headerTag ∧ chunk.sound)
  match chunk.contents.drop 8 with
  | [depth, colour, compression, filter, interlacing] =>
    guard (depth = 8 ∧ compression = 0 ∧ filter = 0 ∧ interlacing = 0)
    let width := ofBig (chunk.contents.take 4)
    let height := ofBig ((chunk.contents.drop 4).take 4)
    guard (0 < width ∧ 0 < height)
    return ⟨width, height, ← layout? colour.toNat⟩
  | _ => none

/-- The colour that a transparency chunk makes clear, of which each channel takes two bytes. -/
def clear? : Bitmap.Layout → (contents : List UInt8) → Option (List UInt8)
  | .grey, _ :: g :: _ => some [g]
  | .rgb, _ :: r :: _ :: g :: _ :: b :: _ => some [r, g, b]
  | _, _ => none

structure Preface where
  hasPalette : Bool
  clear : Option (List UInt8)

/-- Whether a chunk may be the only palette of an image. -/
def Chunk.isPalette (chunk : Chunk) : Bool :=
  chunk.tag = paletteTag && chunk.contents.length % 3 = 0 && chunk.contents.length ≤ 768

/-- Takes up a chunk.  Of the critical ones only a palette may stand here.  Others are passed over
if they are damaged or unknown, but parts of an animation have no place before the image. -/
def Preface.add? (layout : Bitmap.Layout) (preface : Preface) (chunk : Chunk) : Option Preface :=
  if chunk.tag = frameTag then none
  else if chunk.isCritical then
    if chunk.sound && chunk.isPalette && !preface.hasPalette then
      some { preface with hasPalette := true }
    else none
  else if chunk.sound && chunk.tag = transparencyTag then
    some { preface with clear := preface.clear.or (clear? layout chunk.contents) }
  else some preface

/-- Whether the chunk at the front has a tag. -/
def startsWith (tag s : List UInt8) : Bool := (s.drop 4).take 4 = tag

/-- The contents of the data chunks, which follow each other, up to the head of the chunk behind
them. -/
def readData (s : List UInt8) : Option (List (List UInt8)) :=
  if startsWith dataTag s then
    match _h : readChunk? s with
    | none => none
    | some (chunk, rest) => if chunk.sound then (chunk.contents :: ·) <$> readData rest else none
  else if 8 ≤ s.length then some []
  else none
termination_by s.length
decreasing_by exact length_lt_of_readChunk? _h

/-- Reads chunks up to the last of the data chunks. -/
def readChunks (layout : Bitmap.Layout) (preface : Preface) (s : List UInt8) :
    Option (Preface × List (List UInt8)) :=
  if startsWith dataTag s then (preface, ·) <$> readData s
  else
    match _h : readChunk? s with
    | none => none
    | some (chunk, rest) =>
      match preface.add? layout chunk with
      | none => none
      | some preface => readChunks layout preface rest
termination_by s.length
decreasing_by exact length_lt_of_readChunk? _h

/-- Of the bytes to the left, above, and above to the left, the one nearest to their linear
prediction. -/
def nearest (left above corner : UInt8) : UInt8 :=
  let p : Int := left.toNat + above.toNat - corner.toNat
  let distance (b : UInt8) : Nat := (p - b.toNat).natAbs
  if distance left ≤ distance above ∧ distance left ≤ distance corner then left
  else if distance above ≤ distance corner then above
  else corner

/-- What a filter predicts from the bytes to the left, above, and above to the left. -/
def predict? (filter : UInt8) : Option (UInt8 → UInt8 → UInt8 → UInt8) :=
  if filter = 0 then some fun _ _ _ => 0
  else if filter = 1 then some fun left _ _ => left
  else if filter = 2 then some fun _ above _ => above
  else if filter = 3 then some fun left above _ => UInt8.ofNat ((left.toNat + above.toNat) / 2)
  else if filter = 4 then some nearest
  else none

/-- Adds the predictions to a row, of which a pixel takes `step` bytes. -/
def restoreRow (step : Nat) (predict : UInt8 → UInt8 → UInt8 → UInt8) (above : Array UInt8)
    (row : List UInt8) : Array UInt8 :=
  row.foldl (fun done b =>
    let i := done.size
    let back (a : Array UInt8) : UInt8 := if step ≤ i then a[i - step]?.getD 0 else 0
    done.push (b + predict (back done) (above[i]?.getD 0) (back above))) #[]

/-- Restores `rows` rows of `size` bytes, each of which has its filter before it. -/
def restoreRows (step size : Nat) :
    (rows : Nat) → (above : Array UInt8) → List UInt8 → Option (List UInt8)
  | 0, _, _ => some []
  | rows + 1, above, s =>
    match s with
    | [] => none
    | filter :: s => do
      guard (size ≤ s.length)
      let row := restoreRow step (← predict? filter) above (s.take size)
      return row.toList ++ (← restoreRows step size rows row (s.drop size))

def decode? (s : List UInt8) : Option Bitmap := do
  guard (s.take 8 = signature)
  let (chunk, rest) ← readChunk? (s.drop 8)
  let header ← Header.ofChunk? chunk
  let (preface, pieces) ← readChunks header.layout ⟨false, none⟩ rest
  let step := header.layout.channels
  let size := header.width * step
  let data ← Inflate.inflate? (header.height * (1 + size)) [] pieces
  let rows ← restoreRows step size header.height #[] data.toList
  return ⟨header.width, header.height, Bitmap.expand preface.clear header.layout rows⟩

end Diorama.Png

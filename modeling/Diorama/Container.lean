/-! The binary container of a scene: a header of 12 bytes, and chunks that fill the rest of the
file.  The header is a magic word, the version and the size of the file; a chunk is its size, a tag
of four bytes and its contents.  The first chunk holds the document, each further one binary data.
Numbers are little-endian words of 32 bits. -/

namespace Diorama

inductive DecodeError where
  | tooSmall (size : Nat)
  | badMagic
  | unsupportedVersion (version : Nat)
  | lengthMismatch (declared actual : Nat)
  | firstChunkNotJson
  | corruptChunkSize (chunk : Nat)
  | chunkNotBin (chunk : Nat)
  | json
deriving DecidableEq, Repr

def DecodeError.message : DecodeError → String
  | tooSmall size => s!"file not big enough for a glTF header ({size} bytes)"
  | badMagic => "file is not in glTF format"
  | unsupportedVersion version => s!"glTF version {version} is not supported, expected version 2"
  | lengthMismatch declared actual =>
    s!"glb header declares {declared} bytes but the file has {actual}"
  | firstChunkNotJson => "first chunk was not of type JSON"
  | corruptChunkSize chunk => s!"untrustworthy size for chunk {chunk}"
  | chunkNotBin chunk => s!"chunk {chunk} was not of type BIN"
  | json => "JSON chunk could not be parsed"

structure Container where
  json : List UInt8
  bins : List (List UInt8)
deriving DecidableEq, Repr

namespace Container

/-- The number that bytes denote, the lowest byte first. -/
def ofLittle (s : List UInt8) : Nat := s.foldr (fun b n => b.toNat + 256 * n) 0

/-- The lowest 32 bits of a number in four bytes, the lowest first. -/
def little32 (n : Nat) : List UInt8 :=
  [UInt8.ofNat n, UInt8.ofNat (n / 0x100), UInt8.ofNat (n / 0x10000), UInt8.ofNat (n / 0x1000000)]

@[simp] theorem length_little32 (n : Nat) : (little32 n).length = 4 := rfl

theorem ofLittle_little32 (n : Nat) : ofLittle (little32 n) = n % UInt32.size := by
  simp only [ofLittle, little32, List.foldr_cons, List.foldr_nil, UInt8.toNat_ofNat', UInt32.size]
  omega

def magic : List UInt8 := [0x67, 0x6C, 0x54, 0x46]

def jsonTag : List UInt8 := [0x4A, 0x53, 0x4F, 0x4E]

/-- What the tag of a binary chunk starts with; its fourth byte is free. -/
def binMark : List UInt8 := [0x42, 0x49, 0x4E]

def version : Nat := 2

/-- `count` bytes from `start` on.  A read past the end of the file has no result. -/
def slice? (bytes : List UInt8) (start count : Nat) : Option (List UInt8) :=
  if start + count ≤ bytes.length then some ((bytes.drop start).take count) else none

/-- The number in the word from `start` on. -/
def word? (bytes : List UInt8) (start : Nat) : Option Nat := (slice? bytes start 4).map ofLittle

/-- The bytes that are left from `start` on.  There is no such number past the end of the file. -/
def room? (bytes : List UInt8) (start : Nat) : Option Nat :=
  if start ≤ bytes.length then some (bytes.length - start) else none

/-- The contents of the binary chunks from `start` on, the first of which is chunk number `chunk`.
There is no result where something is read that is not there. -/
def scanBins (bytes : List UInt8) (chunk start : Nat) :
    Option (Except DecodeError (List (List UInt8))) :=
  if _h : start < bytes.length then do
    if (← room? bytes start) < 8 then return .error (.corruptChunkSize chunk)
    let size ← word? bytes start
    let tag ← slice? bytes (start + 4) 4
    if tag.take 3 ≠ binMark then return .error (.chunkNotBin chunk)
    if (← room? bytes (start + 8)) < size then return .error (.corruptChunkSize chunk)
    let bin ← slice? bytes (start + 8) size
    let bins ← scanBins bytes (chunk + 1) (start + 8 + size)
    return bins.map (bin :: ·)
  else return .ok []
termination_by bytes.length - start
decreasing_by omega

/-- Splits a file into its chunks.  There is no result where something is read that is not there. -/
def scan (bytes : List UInt8) : Option (Except DecodeError Container) := do
  if bytes.length < 12 then return .error (.tooSmall bytes.length)
  if (← slice? bytes 0 4) ≠ magic then return .error .badMagic
  let found ← word? bytes 4
  if found ≠ version then return .error (.unsupportedVersion found)
  let declared ← word? bytes 8
  if declared ≠ bytes.length then return .error (.lengthMismatch declared bytes.length)
  if declared < 20 then return .error (.corruptChunkSize 0)
  let size ← word? bytes 12
  if (← slice? bytes 16 4) ≠ jsonTag then return .error .firstChunkNotJson
  if (← room? bytes 20) < size then return .error (.corruptChunkSize 0)
  let json ← slice? bytes 20 size
  let bins ← scanBins bytes 1 (20 + size)
  return bins.map (⟨json, ·⟩)

section Scan

variable {bytes : List UInt8} {start : Nat}

theorem slice?_eq {count : Nat} (h : start + count ≤ bytes.length) :
    slice? bytes start count = some ((bytes.drop start).take count) := if_pos h

theorem word?_eq (h : start + 4 ≤ bytes.length) :
    word? bytes start = some (ofLittle ((bytes.drop start).take 4)) := by
  rw [word?, slice?_eq h, Option.map_some]

theorem room?_eq (h : start ≤ bytes.length) : room? bytes start = some (bytes.length - start) :=
  if_pos h

theorem scanBins_end {chunk : Nat} (h : bytes.length ≤ start) :
    scanBins bytes chunk start = some (.ok []) := by
  rw [scanBins, dif_neg (by omega)]
  rfl

theorem scanBins_short {chunk : Nat} (h : start < bytes.length) (hroom : bytes.length < start + 8) :
    scanBins bytes chunk start = some (.error (.corruptChunkSize chunk)) := by
  rw [scanBins, dif_pos h, room?_eq (by omega)]
  simp [show bytes.length - start < 8 by omega]

theorem scanBins_chunk {chunk : Nat} (h : start + 8 ≤ bytes.length) :
    scanBins bytes chunk start =
      if ((bytes.drop (start + 4)).take 4).take 3 ≠ binMark then
        some (.error (.chunkNotBin chunk))
      else if bytes.length - (start + 8) < ofLittle ((bytes.drop start).take 4) then
        some (.error (.corruptChunkSize chunk))
      else
        (scanBins bytes (chunk + 1) (start + 8 + ofLittle ((bytes.drop start).take 4))).map
          (·.map (((bytes.drop (start + 8)).take (ofLittle ((bytes.drop start).take 4))) :: ·)) := by
  rw [scanBins, dif_pos (by omega), room?_eq (by omega), word?_eq (by omega), slice?_eq (by omega),
    room?_eq h]
  have hroom : ¬bytes.length - start < 8 := by omega
  simp only [Option.bind_eq_bind, Option.bind_some, hroom, if_false]
  split
  · rfl
  · split
    · rfl
    · rw [slice?_eq (by omega), Option.bind_some]
      cases scanBins bytes (chunk + 1) _ <;> rfl

theorem isSome_scanBins (bytes : List UInt8) (chunk start : Nat) :
    (scanBins bytes chunk start).isSome := by
  induction hn : bytes.length - start using Nat.strongRecOn generalizing chunk start with
  | _ n ih =>
    by_cases hend : bytes.length ≤ start
    · simp [scanBins_end hend]
    · by_cases hroom : bytes.length < start + 8
      · simp [scanBins_short (by omega) hroom]
      · rw [scanBins_chunk (by omega)]
        split
        · rfl
        · split
          · rfl
          · rw [Option.isSome_map]
            exact ih _ (by omega) _ _ rfl

theorem scan_eq (bytes : List UInt8) : scan bytes =
    if bytes.length < 12 then some (.error (.tooSmall bytes.length))
    else if bytes.take 4 ≠ magic then some (.error .badMagic)
    else if ofLittle ((bytes.drop 4).take 4) ≠ version then
      some (.error (.unsupportedVersion (ofLittle ((bytes.drop 4).take 4))))
    else if ofLittle ((bytes.drop 8).take 4) ≠ bytes.length then
      some (.error (.lengthMismatch (ofLittle ((bytes.drop 8).take 4)) bytes.length))
    else if bytes.length < 20 then some (.error (.corruptChunkSize 0))
    else if (bytes.drop 16).take 4 ≠ jsonTag then some (.error .firstChunkNotJson)
    else if bytes.length - 20 < ofLittle ((bytes.drop 12).take 4) then
      some (.error (.corruptChunkSize 0))
    else (scanBins bytes 1 (20 + ofLittle ((bytes.drop 12).take 4))).map
      (·.map (⟨(bytes.drop 20).take (ofLittle ((bytes.drop 12).take 4)), ·⟩)) := by
  unfold scan
  by_cases hsize : bytes.length < 12
  · simp [hsize]
  simp only [hsize, if_false]
  rw [slice?_eq (by omega), word?_eq (by omega), word?_eq (by omega)]
  simp only [Option.bind_eq_bind, Option.bind_some, List.drop_zero]
  split; · rfl
  split; · rfl
  split; · rfl
  next hdeclared =>
  rw [Decidable.not_not.1 hdeclared]
  split; · rfl
  rw [word?_eq (by omega), slice?_eq (by omega), room?_eq (by omega)]
  simp only [Option.bind_some]
  split; · rfl
  split; · rfl
  rw [slice?_eq (by omega), Option.bind_some]
  cases scanBins bytes 1 _ <;> rfl

theorem isSome_scan (bytes : List UInt8) : (scan bytes).isSome := by
  rw [scan_eq]
  iterate 7 (split; · rfl)
  rw [Option.isSome_map]
  exact isSome_scanBins bytes 1 _

end Scan

/-- Splits a file into its chunks.  All that is read is there, so there is a result. -/
def decode (bytes : List UInt8) : Except DecodeError Container := (scan bytes).get (isSome_scan bytes)

/-- The least multiple of four from `n` on. -/
def roundUp (n : Nat) : Nat := (n + 3) / 4 * 4

theorem le_roundUp (n : Nat) : n ≤ roundUp n := by
  unfold roundUp
  omega

theorem roundUp_le (n : Nat) : roundUp n ≤ n + 3 := by
  unfold roundUp
  omega

@[simp] theorem roundUp_mod_four (n : Nat) : roundUp n % 4 = 0 := Nat.mul_mod_left _ 4

theorem roundUp_eq_self {n : Nat} (h : n % 4 = 0) : roundUp n = n := by
  unfold roundUp
  omega

/-- Fills the last word of four bytes with `fill`. -/
def pad (fill : UInt8) (s : List UInt8) : List UInt8 :=
  s ++ List.replicate (roundUp s.length - s.length) fill

@[simp] theorem length_pad (fill : UInt8) (s : List UInt8) :
    (pad fill s).length = roundUp s.length := by
  have := le_roundUp s.length
  rw [pad, List.length_append, List.length_replicate]
  omega

theorem pad_eq_self {fill : UInt8} {s : List UInt8} (h : s.length % 4 = 0) : pad fill s = s := by
  simp [pad, roundUp_eq_self h]

def frame (tag contents : List UInt8) : List UInt8 :=
  little32 contents.length ++ tag ++ contents

@[simp] theorem length_frame (tag contents : List UInt8) :
    (frame tag contents).length = 4 + (tag.length + contents.length) := by
  simp [frame]

/-- The chunks of a file.  The document is filled up with spaces, binary data with zeros. -/
def body (json : List UInt8) (bins : List (List UInt8)) : List UInt8 :=
  frame jsonTag (pad 0x20 json) ++ bins.flatMap fun bin => frame (binMark ++ [0]) (pad 0 bin)

/-- The size of the file for a document and binary data, counted from their sizes. -/
def framedSize (json : List UInt8) (bins : List (List UInt8)) : Nat :=
  bins.foldr (fun bin size => 8 + roundUp bin.length + size) (20 + roundUp json.length)

def encode (json : List UInt8) (bins : List (List UInt8)) : List UInt8 :=
  magic ++ little32 version ++ little32 (framedSize json bins) ++ body json bins

end Container

end Diorama

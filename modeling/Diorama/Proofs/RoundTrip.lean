import Diorama.Proofs.Tiling
import Mathlib.Data.List.Forall2

/-! What is encoded is read back: a file of less than 2^32 bytes gives the document and the binary
data, each filled up to whole words of four bytes, and these encode to the same file.  The header of
a larger file holds its size without the high bits, so it is refused. -/

namespace Diorama.Container

variable {json : List UInt8} {bins : List (List UInt8)}

/-- `filled` is `s`, filled up with as few bytes `fill` as make a multiple of four. -/
def Filled (fill : UInt8) (s filled : List UInt8) : Prop :=
  (∃ count ≤ 3, filled = s ++ List.replicate count fill) ∧ filled.length % 4 = 0

theorem filled_pad (fill : UInt8) (s : List UInt8) : Filled fill s (pad fill s) := by
  have := roundUp_le s.length
  exact ⟨⟨_, by omega, rfl⟩, by simp⟩

theorem pad_pad (fill : UInt8) (s : List UInt8) : pad fill (pad fill s) = pad fill s :=
  pad_eq_self (by simp)

/-- The bytes of a text, filled up with spaces, are those of a text. -/
theorem pad_flatMap_utf8EncodeChar (text : List Char) :
    ∃ count, pad 0x20 (text.flatMap String.utf8EncodeChar) =
      (text ++ List.replicate count ' ').flatMap String.utf8EncodeChar := by
  have hspaces (count : Nat) :
      (List.replicate count ' ').flatMap String.utf8EncodeChar = List.replicate count 0x20 := by
    induction count with
    | zero => rfl
    | succ count ih => rw [List.replicate_succ, List.flatMap_cons, ih]; rfl
  exact ⟨_, by rw [pad, List.flatMap_append, hspaces]⟩

theorem framedSize_pad (json : List UInt8) (bins : List (List UInt8)) :
    framedSize (pad 0x20 json) (bins.map (pad 0)) = framedSize json bins := by
  simp [framedSize, roundUp_eq_self, List.foldr_map]

theorem encode_pad (json : List UInt8) (bins : List (List UInt8)) :
    encode (pad 0x20 json) (bins.map (pad 0)) = encode json bins := by
  simp only [encode, body, framedSize_pad, pad_pad, List.flatMap_map]

theorem encode_eq (json : List UInt8) (bins : List (List UInt8)) :
    encode json bins = magic ++ (little32 version ++ (little32 (framedSize json bins) ++
      (frame jsonTag (pad 0x20 json) ++ binChunks (bins.map fun bin => (0, pad 0 bin))))) := by
  simp only [encode, body, binChunks, List.flatMap_map, List.append_assoc]

theorem length_binChunks_pad (json : List UInt8) (bins : List (List UInt8)) :
    20 + roundUp json.length + (binChunks (bins.map fun bin => (0, pad 0 bin))).length =
      framedSize json bins := by
  induction bins with
  | nil => rfl
  | cons bin bins ih =>
    have hsize : framedSize json (bin :: bins) =
      8 + roundUp bin.length + framedSize json bins := rfl
    rw [List.map_cons, binChunks_cons, List.length_append, length_frame, length_pad, hsize, ← ih]
    simp only [binMark, List.length_append, List.length_cons, List.length_nil]
    omega

theorem length_encode (json : List UInt8) (bins : List (List UInt8)) :
    (encode json bins).length = framedSize json bins := by
  have hchunks := length_binChunks_pad json bins
  rw [encode_eq]
  simp only [List.length_append, length_little32, length_frame, length_pad, magic, jsonTag,
    List.length_cons, List.length_nil]
  omega

/-- How a file is read that is made of a header with some size, a document and a rest: the size is
compared before anything else of it is read. -/
theorem scan_of_eq {bytes rest : List UInt8} {size : Nat}
    (h : bytes = magic ++ (little32 version ++ (little32 size ++ (frame jsonTag json ++ rest)))) :
    scan bytes =
      if size % UInt32.size ≠ bytes.length then
        some (.error (.lengthMismatch (size % UInt32.size) bytes.length))
      else (scanBins bytes 1 (20 + json.length)).map (·.map (⟨json, ·⟩)) := by
  have hlength := congrArg List.length h
  simp [magic, jsonTag] at hlength
  obtain ⟨hmagic, hversion, hsize, hcount, htag, hjson, -⟩ := eq_tiles_iff.1 h
  rw [scan_eq, if_neg (by omega), if_neg (not_not_intro hmagic), hversion, hsize,
    ofLittle_little32, ofLittle_little32, if_neg (by decide)]
  split
  · rfl
  next hdeclared =>
  have hlt : json.length < UInt32.size := by
    have := Nat.mod_lt size (show 0 < UInt32.size by decide)
    omega
  rw [if_neg (by omega), if_neg (not_not_intro htag), hcount, ofLittle_little32,
    Nat.mod_eq_of_lt hlt, if_neg (by omega), hjson]

theorem decode_encode_of_lt (h : framedSize json bins < UInt32.size) :
    decode (encode json bins) = .ok ⟨pad 0x20 json, bins.map (pad 0)⟩ := by
  have hlength := length_encode json bins
  have hrest := (eq_tiles_iff.1 (encode_eq json bins)).2.2.2.2.2.2
  have hbins : scanBins (encode json bins) 1 (20 + (pad 0x20 json).length) =
      some (.ok (bins.map (pad 0))) :=
    (scanBins_eq_ok_iff (by omega)).2 ⟨_, by simp, hrest⟩
  apply Option.get_of_eq_some
  rw [scan_of_eq (encode_eq json bins), hbins, hlength, Nat.mod_eq_of_lt h,
    if_neg (not_not_intro rfl)]
  rfl

theorem decode_encode_of_le (h : UInt32.size ≤ framedSize json bins) :
    decode (encode json bins) =
      .error (.lengthMismatch (framedSize json bins % UInt32.size) (framedSize json bins)) := by
  have hlt := Nat.mod_lt (framedSize json bins) (show 0 < UInt32.size by decide)
  apply Option.get_of_eq_some
  rw [scan_of_eq (encode_eq json bins), length_encode, if_pos (by omega)]

/-- A file is as long as the size that is counted for its header.  Below 2^32 bytes it is read back:
the document filled up with spaces, which is a text if the document is one, and as many pieces of
binary data as there were, in their order, filled up with zeros; encoded again these give the same
file.  From 2^32 bytes on it is refused for its size. -/
theorem decode_encode (json : List UInt8) (bins : List (List UInt8)) :
    (encode json bins).length = framedSize json bins ∧
      if framedSize json bins < UInt32.size then
        ∃ container, decode (encode json bins) = .ok container ∧
          Filled 0x20 json container.json ∧ List.Forall₂ (Filled 0) bins container.bins ∧
            (∀ text, json = text.flatMap String.utf8EncodeChar → ∃ count, container.json =
              (text ++ List.replicate count ' ').flatMap String.utf8EncodeChar) ∧
              encode container.json container.bins = encode json bins
      else decode (encode json bins) =
        .error (.lengthMismatch (framedSize json bins % UInt32.size) (framedSize json bins)) := by
  refine ⟨length_encode json bins, ?_⟩
  split
  next h =>
    have hbins : List.Forall₂ (Filled 0) bins (bins.map (pad 0)) := by
      rw [List.forall₂_map_right_iff, List.forall₂_same]
      exact fun bin _ => filled_pad 0 bin
    refine ⟨_, decode_encode_of_lt h, filled_pad 0x20 json, hbins, ?_, encode_pad json bins⟩
    rintro text rfl
    exact pad_flatMap_utf8EncodeChar text
  next h => exact decode_encode_of_le (Nat.le_of_not_lt h)

end Diorama.Container

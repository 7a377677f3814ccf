import Diorama.Proofs.RoundTrip

/-! A file with a valid header and a complete document is refused exactly where what follows its
complete binary chunks does not start another one.  The chunk that is blamed is the one that should
stand there, and nothing behind its header of eight bytes decides about it. -/

namespace Diorama.Container

variable {bytes json rest s tail other : List UInt8} {start chunk : Nat} {e : DecodeError}
  {chunks : List (UInt8 × List UInt8)}

/-- The file has a valid header and a complete document, and `rest` follows. -/
structure Opens (bytes json rest : List UInt8) : Prop where
  size : bytes.length < UInt32.size
  eq : bytes = magic ++ (little32 version ++ (little32 bytes.length ++ (frame jsonTag json ++ rest)))

def StartsBin (s : List UInt8) : Prop := ∃ mark bin after, s = frame (binMark ++ [mark]) bin ++ after

/-- What is wrong with the chunk of number `chunk`, which should stand at the front of `tail`. -/
inductive Broken (chunk : Nat) (tail : List UInt8) : DecodeError → Prop
  | fragment (hne : tail ≠ []) (hshort : tail.length < 8) :
    Broken chunk tail (.corruptChunkSize chunk)
  | foreign (hlong : 8 ≤ tail.length) (htag : (tail.drop 4).take 3 ≠ binMark) :
    Broken chunk tail (.chunkNotBin chunk)
  | oversized (hlong : 8 ≤ tail.length) (htag : (tail.drop 4).take 3 = binMark)
    (hsize : tail.length - 8 < ofLittle (tail.take 4)) : Broken chunk tail (.corruptChunkSize chunk)

/-! ### One chunk -/

theorem length_frame_bin (mark : UInt8) (bin : List UInt8) :
    (frame (binMark ++ [mark]) bin).length = 8 + bin.length := by
  simp [binMark]
  omega

/-- The header of a complete chunk: its size, and its tag. -/
theorem header_of_frame {mark : UInt8} {bin after : List UInt8} (hsize : bin.length < UInt32.size)
    (h : s = frame (binMark ++ [mark]) bin ++ after) :
    ofLittle (s.take 4) = bin.length ∧ (s.drop 4).take 3 = binMark ∧
      8 + bin.length + after.length = s.length := by
  have hlength := congrArg List.length h
  rw [List.length_append, length_frame_bin] at hlength
  rw [← List.drop_zero (l := s), drop_eq_frame_append_iff rfl] at h
  obtain ⟨hcount, htag, -, -⟩ := h
  rw [List.drop_zero] at hcount
  refine ⟨?_, ?_, hlength.symm⟩
  · rw [hcount, ofLittle_little32, Nat.mod_eq_of_lt hsize]
  · have htake := congrArg (List.take 3) htag
    rw [List.take_take] at htake
    simpa [binMark] using htake

theorem startsBin_of_header (hlong : 8 ≤ s.length) (htag : (s.drop 4).take 3 = binMark)
    (hsize : ofLittle (s.take 4) ≤ s.length - 8) : StartsBin s := by
  have hword : (s.take 4).length = 4 := List.length_take_of_le (by omega)
  have htake : ((s.drop 4).take 4).length = 4 := length_take_drop (by omega)
  obtain ⟨mark, hmark⟩ := (take_eq_binMark_iff htake).1 (by rw [List.take_take]; exact htag)
  refine ⟨mark, (s.drop 8).take (ofLittle (s.take 4)), s.drop (8 + ofLittle (s.take 4)), ?_⟩
  have hbin : ((s.drop 8).take (ofLittle (s.take 4))).length = ofLittle (s.take 4) :=
    length_take_drop (by omega)
  rw [← List.drop_zero (l := s), drop_eq_frame_append_iff rfl]
  simp only [List.drop_zero, Nat.zero_add, hbin]
  exact ⟨(little32_ofLittle hword).symm, hmark, trivial, trivial⟩

/-- The rest of a file is empty, or a complete chunk stands at its front, or a broken one. -/
theorem exists_broken_iff (hsize : tail.length < UInt32.size) :
    (∃ e, Broken chunk tail e) ↔ tail ≠ [] ∧ ¬StartsBin tail := by
  constructor
  · rintro ⟨e, hbroken⟩
    have hchunk : ∀ mark bin after, tail = frame (binMark ++ [mark]) bin ++ after →
        ofLittle (tail.take 4) = bin.length ∧ (tail.drop 4).take 3 = binMark ∧
          8 + bin.length + after.length = tail.length := by
      intro mark bin after h
      refine header_of_frame ?_ h
      have hlength := congrArg List.length h
      rw [List.length_append, length_frame_bin] at hlength
      omega
    cases hbroken with
    | fragment hne hshort =>
      refine ⟨hne, ?_⟩
      rintro ⟨mark, bin, after, h⟩
      have := hchunk mark bin after h
      omega
    | foreign hlong htag =>
      refine ⟨?_, ?_⟩
      · rintro rfl
        simp at hlong
      · rintro ⟨mark, bin, after, h⟩
        exact htag (hchunk mark bin after h).2.1
    | oversized hlong htag hover =>
      refine ⟨?_, ?_⟩
      · rintro rfl
        simp at hlong
      · rintro ⟨mark, bin, after, h⟩
        have := hchunk mark bin after h
        omega
  · rintro ⟨hne, hstarts⟩
    by_cases hlong : 8 ≤ tail.length
    · by_cases htag : (tail.drop 4).take 3 = binMark
      · refine ⟨_, .oversized hlong htag (Nat.lt_of_not_le fun hfits => ?_)⟩
        exact hstarts (startsBin_of_header hlong htag hfits)
      · exact ⟨_, .foreign hlong htag⟩
    · exact ⟨_, .fragment hne (Nat.lt_of_not_le hlong)⟩

/-- Only the size and the header decide about a broken chunk. -/
theorem Broken.of_take (h : Broken chunk tail e) (hlength : s.length = tail.length)
    (htake : s.take 8 = tail.take 8) : Broken chunk s e := by
  have hword : s.take 4 = tail.take 4 := by
    simpa [List.take_take] using congrArg (List.take 4) htake
  have htag : (s.drop 4).take 3 = (tail.drop 4).take 3 := by
    have h7 := congrArg (List.take 7) htake
    rw [List.take_take, List.take_take] at h7
    simpa [List.drop_take] using congrArg (List.drop 4) h7
  cases h with
  | fragment hne hshort =>
    refine .fragment ?_ (by omega)
    rintro rfl
    exact hne (List.length_eq_zero_iff.1 hlength.symm)
  | foreign hlong hmark => exact .foreign (by omega) (by rwa [htag])
  | oversized hlong hmark hover =>
    refine .oversized (by omega) (by rwa [htag]) ?_
    rw [hword]
    omega

/-! ### The scan -/

theorem scanBins_of_broken (h : Broken chunk (bytes.drop start) e) :
    scanBins bytes chunk start = some (.error e) := by
  cases h with
  | fragment hne hshort =>
    rw [List.length_drop] at hshort
    have hlt : start < bytes.length := by
      apply Nat.lt_of_not_le
      intro hle
      exact hne (List.drop_eq_nil_of_le hle)
    exact scanBins_short hlt (by omega)
  | foreign hlong htag =>
    rw [List.length_drop] at hlong
    rw [List.drop_drop] at htag
    rw [scanBins_chunk (by omega), if_pos]
    rwa [List.take_take]
  | oversized hlong htag hover =>
    rw [List.length_drop] at hlong hover
    rw [List.drop_drop] at htag
    rw [scanBins_chunk (by omega), if_neg, if_pos]
    · omega
    · rw [List.take_take]
      exact not_not_intro htag

/-- The scan goes on behind a complete chunk. -/
theorem scanBins_of_frame {mark : UInt8} {bin after : List UInt8}
    (hsize : bytes.length < UInt32.size)
    (h : bytes.drop start = frame (binMark ++ [mark]) bin ++ after) :
    scanBins bytes chunk start =
      (scanBins bytes (chunk + 1) (start + 8 + bin.length)).map (·.map (bin :: ·)) := by
  have hlength := congrArg List.length h
  rw [List.length_append, length_frame_bin, List.length_drop] at hlength
  have hcount := (header_of_frame (by omega) h).1
  obtain ⟨-, htag, hbin, -⟩ := (drop_eq_frame_append_iff rfl).1 h
  have hmark := (take_eq_binMark_iff (by rw [htag]; rfl)).2 ⟨mark, htag⟩
  rw [scanBins_chunk (by omega), hcount, hbin, if_neg (not_not_intro hmark), if_neg (by omega)]

theorem scanBins_error_of_broken (hsize : bytes.length < UInt32.size)
    (hrest : bytes.drop start = binChunks chunks ++ tail)
    (hbroken : Broken (chunk + chunks.length) tail e) :
    scanBins bytes chunk start = some (.error e) := by
  induction chunks generalizing chunk start with
  | nil =>
    rw [binChunks_nil, List.nil_append] at hrest
    exact scanBins_of_broken (hrest ▸ hbroken)
  | cons first chunks ih =>
    obtain ⟨mark, bin⟩ := first
    rw [binChunks_cons, List.append_assoc] at hrest
    have hdrop := ((drop_eq_frame_append_iff rfl).1 hrest).2.2.2
    have hnumber : chunk + (chunks.length + 1) = chunk + 1 + chunks.length := by omega
    rw [List.length_cons, hnumber] at hbroken
    rw [scanBins_of_frame hsize hrest, ih hdrop hbroken]
    rfl

/-- Taking complete chunks off the front comes to an end. -/
theorem exists_chunks (s : List UInt8) :
    ∃ chunks tail, s = binChunks chunks ++ tail ∧ ¬StartsBin tail := by
  induction hn : s.length using Nat.strongRecOn generalizing s with
  | _ n ih =>
    by_cases hstarts : StartsBin s
    · obtain ⟨mark, bin, after, rfl⟩ := hstarts
      rw [List.length_append, length_frame_bin] at hn
      obtain ⟨chunks, tail, rfl, htail⟩ := ih after.length (by omega) after rfl
      exact ⟨(mark, bin) :: chunks, tail, by rw [binChunks_cons, List.append_assoc], htail⟩
    · exact ⟨[], s, rfl, hstarts⟩

/-! ### The file -/

namespace Opens

theorem drop_eq (h : Opens bytes json rest) : bytes.drop (20 + json.length) = rest :=
  (eq_tiles_iff.1 h.eq).2.2.2.2.2.2

theorem decode_eq_error_iff (h : Opens bytes json rest) :
    decode bytes = .error e ↔ scanBins bytes 1 (20 + json.length) = some (.error e) := by
  have hscan : scan bytes = some (decode bytes) := (Option.some_get _).symm
  rw [scan_of_eq h.eq, Nat.mod_eq_of_lt h.size, if_neg (not_not_intro rfl)] at hscan
  rw [← Option.some_inj, ← hscan]
  rcases scanBins bytes 1 (20 + json.length) with _ | _ | _ <;> simp [Except.map]

theorem decode_of_broken (h : Opens bytes json rest) (hrest : rest = binChunks chunks ++ tail)
    (hbroken : Broken (chunks.length + 1) tail e) : decode bytes = .error e := by
  rw [h.decode_eq_error_iff]
  apply scanBins_error_of_broken h.size (h.drop_eq.trans hrest)
  rwa [Nat.add_comm]

theorem length_eq (h : Opens bytes json rest) :
    bytes.length = 20 + json.length + rest.length := by
  have hlength := congrArg List.length h.eq
  simp [magic, jsonTag] at hlength
  omega

/-- A file of the same size that is the same up to some place opens in the same way. -/
theorem of_take {front : List UInt8} (h : Opens bytes json (front ++ tail))
    (hlength : other.length = bytes.length)
    (htake : other.take (bytes.length - tail.length) = bytes.take (bytes.length - tail.length)) :
    Opens other json (front ++ other.drop (bytes.length - tail.length)) := by
  have heq : bytes = magic ++ (little32 version ++ (little32 bytes.length ++
      (frame jsonTag json ++ front))) ++ tail := by
    simpa only [List.append_assoc] using h.eq
  have hsize := congrArg List.length heq
  rw [List.length_append] at hsize
  have hfront := congrArg (List.take (bytes.length - tail.length)) heq
  rw [List.take_left' (by omega), ← htake] at hfront
  refine ⟨hlength ▸ h.size, ?_⟩
  rw [hlength]
  have hsplit := (List.take_append_drop (bytes.length - tail.length) other).symm
  rw [hfront] at hsplit
  simpa only [List.append_assoc] using hsplit

end Opens

/-- A file with a valid header and a complete document is refused exactly where its complete binary
chunks are followed by something that starts no other one.  It is refused for this chunk, counted
from 1 on, and any file of the same size that is the same up to the end of this chunk's header is
refused alike. -/
theorem decode_error_of_broken (h : Opens bytes json rest) :
    ((∃ e, decode bytes = .error e) ↔
      ∃ chunks tail, rest = binChunks chunks ++ tail ∧ tail ≠ [] ∧ ¬StartsBin tail) ∧
      ∀ chunks tail, rest = binChunks chunks ++ tail → tail ≠ [] → ¬StartsBin tail →
        ∃ e, Broken (chunks.length + 1) tail e ∧ decode bytes = .error e ∧
          ∀ other : List UInt8, other.length = bytes.length →
            other.take (bytes.length - tail.length + 8) =
              bytes.take (bytes.length - tail.length + 8) → decode other = .error e := by
  have hsize : rest.length < UInt32.size := by
    have := h.size
    have := h.length_eq
    omega
  have hbroken : ∀ chunks tail, rest = binChunks chunks ++ tail → tail ≠ [] → ¬StartsBin tail →
      ∃ e, Broken (chunks.length + 1) tail e := by
    intro chunks tail hrest hne hstarts
    refine (exists_broken_iff ?_).2 ⟨hne, hstarts⟩
    rw [hrest, List.length_append] at hsize
    omega
  refine ⟨⟨?_, ?_⟩, ?_⟩
  · rintro ⟨e, he⟩
    obtain ⟨chunks, tail, hrest, hstarts⟩ := exists_chunks rest
    refine ⟨chunks, tail, hrest, ?_, hstarts⟩
    rintro rfl
    -- Complete chunks up to the end are all that the scan looks for.
    have hok : scanBins bytes 1 (20 + json.length) = some (.ok (chunks.map (·.2))) :=
      (scanBins_eq_ok_iff h.size).2 ⟨chunks, rfl, h.drop_eq.trans (hrest.trans (List.append_nil _))⟩
    rw [h.decode_eq_error_iff, hok] at he
    simp at he
  · rintro ⟨chunks, tail, hrest, hne, hstarts⟩
    obtain ⟨e, he⟩ := hbroken chunks tail hrest hne hstarts
    exact ⟨e, h.decode_of_broken hrest he⟩
  · intro chunks tail hrest hne hstarts
    obtain ⟨e, he⟩ := hbroken chunks tail hrest hne hstarts
    refine ⟨e, he, h.decode_of_broken hrest he, ?_⟩
    intro other hlength htake
    subst hrest
    have hdrop : bytes.drop (bytes.length - tail.length) = tail := by
      have hlast := congrArg (List.drop (binChunks chunks).length) h.drop_eq
      have := h.length_eq
      rw [List.length_append] at this
      rw [List.drop_drop, List.drop_left] at hlast
      rwa [show bytes.length - tail.length = 20 + json.length + (binChunks chunks).length by omega]
    have hopens := h.of_take hlength (by
      simpa [List.take_take] using congrArg (List.take (bytes.length - tail.length)) htake)
    apply hopens.decode_of_broken rfl
    apply he.of_take
    · have := congrArg List.length hdrop
      rw [List.length_drop] at this ⊢
      omega
    · have hheader := congrArg (List.drop (bytes.length - tail.length)) htake
      rwa [List.drop_take, List.drop_take, hdrop, Nat.add_sub_cancel_left] at hheader

/-- A file with one complete binary chunk, and behind it a chunk of two bytes that lacks one. -/
def overrun : List UInt8 :=
  magic ++ (little32 version ++ (little32 41 ++ (frame jsonTag [0x7B, 0x7D] ++
    (binChunks [(0x20, [1, 2])] ++ (little32 2 ++ (binMark ++ [0, 7]))))))

/-- The second chunk is blamed, whatever the one byte of its contents is. -/
theorem decode_error_of_broken_overrun :
    Opens overrun [0x7B, 0x7D] (binChunks [(0x20, [1, 2])] ++ (little32 2 ++ (binMark ++ [0, 7]))) ∧
      decode overrun = .error (.corruptChunkSize 2) ∧
        ∀ last, decode (overrun.dropLast ++ [last]) = .error (.corruptChunkSize 2) := by
  have hopens : Opens overrun [0x7B, 0x7D]
      (binChunks [(0x20, [1, 2])] ++ (little32 2 ++ (binMark ++ [0, 7]))) := ⟨by decide, rfl⟩
  have hover : Broken 2 (little32 2 ++ (binMark ++ [0, 7])) (.corruptChunkSize 2) :=
    .oversized (by decide) (by decide) (by decide)
  obtain ⟨hne, hstarts⟩ := (exists_broken_iff (by decide)).1 ⟨_, hover⟩
  obtain ⟨e, hbroken, hdecode, hother⟩ :=
    (decode_error_of_broken hopens).2 [(0x20, [1, 2])] _ rfl hne hstarts
  obtain rfl : e = .corruptChunkSize 2 := by
    cases hbroken with
    | fragment hne hshort => rfl
    | foreign hlong htag => exact absurd rfl htag
    | oversized hlong htag hsize => rfl
  exact ⟨hopens, hdecode, fun last => hother _ rfl rfl⟩

end Diorama.Container

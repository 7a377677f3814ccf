import Diorama.Container

/-! A file is accepted exactly where its chunks tile it, and nothing is read that is not there. -/

namespace Diorama.Container

variable {bytes : List UInt8} {start : Nat}

theorem eq_append_iff {α : Type} {s a b : List α} {n : Nat} (h : a.length = n) :
    s = a ++ b ↔ s.take n = a ∧ s.drop n = b := by
  subst h
  constructor
  · rintro rfl
    simp
  · rintro ⟨ha, hb⟩
    have hs := List.take_append_drop a.length s
    rw [ha, hb] at hs
    exact hs.symm

theorem little32_ofLittle {w : List UInt8} (h : w.length = 4) : little32 (ofLittle w) = w := by
  match w, h with
  | [a, b, c, d], _ =>
    have := a.toNat_lt
    have := b.toNat_lt
    have := c.toNat_lt
    have := d.toNat_lt
    simp only [ofLittle, little32, List.foldr_cons, List.foldr_nil, List.cons.injEq, and_true,
      ← UInt8.toNat_inj, UInt8.toNat_ofNat']
    omega

theorem ofLittle_lt {w : List UInt8} (h : w.length = 4) : ofLittle w < UInt32.size := by
  rw [← little32_ofLittle h, ofLittle_little32]
  exact Nat.mod_lt _ (by decide)

/-- A word holds a number of 32 bits exactly where the number is what the word denotes. -/
theorem eq_little32_iff {w : List UInt8} {n : Nat} (hw : w.length = 4) (hn : n < UInt32.size) :
    w = little32 n ↔ ofLittle w = n := by
  constructor
  · rintro rfl
    rw [ofLittle_little32, Nat.mod_eq_of_lt hn]
  · rintro rfl
    exact (little32_ofLittle hw).symm

theorem length_take_drop {n : Nat} (h : start + n ≤ bytes.length) :
    ((bytes.drop start).take n).length = n := by
  rw [List.length_take, List.length_drop]
  omega

/-- A chunk stands at `start` where its size, its tag and its contents stand there in turn. -/
theorem drop_eq_frame_append_iff {tag contents rest : List UInt8} (htag : tag.length = 4) :
    bytes.drop start = frame tag contents ++ rest ↔
      (bytes.drop start).take 4 = little32 contents.length ∧ (bytes.drop (start + 4)).take 4 = tag ∧
        (bytes.drop (start + 8)).take contents.length = contents ∧
          bytes.drop (start + 8 + contents.length) = rest := by
  rw [frame, List.append_assoc, List.append_assoc, eq_append_iff (length_little32 _), List.drop_drop,
    eq_append_iff htag, List.drop_drop, eq_append_iff rfl, List.drop_drop]

/-- Binary chunks, each given as the fourth byte of its tag and its contents. -/
def binChunks (chunks : List (UInt8 × List UInt8)) : List UInt8 :=
  chunks.flatMap fun chunk => frame (binMark ++ [chunk.1]) chunk.2

@[simp] theorem binChunks_nil : binChunks [] = [] := rfl

theorem binChunks_cons (mark : UInt8) (bin : List UInt8) (chunks : List (UInt8 × List UInt8)) :
    binChunks ((mark, bin) :: chunks) = frame (binMark ++ [mark]) bin ++ binChunks chunks := rfl

/-- There are no chunks in fewer than eight bytes. -/
theorem eq_nil_of_length_lt {chunks : List (UInt8 × List UInt8)}
    (h : (binChunks chunks).length < 8) : chunks = [] := by
  cases chunks with
  | nil => rfl
  | cons first chunks =>
    rw [binChunks_cons first.1 first.2] at h
    simp [binMark] at h
    omega

/-- A tag is that of a binary chunk where its first three bytes are. -/
theorem take_eq_binMark_iff {tag : List UInt8} (h : tag.length = 4) :
    tag.take 3 = binMark ↔ ∃ mark, tag = binMark ++ [mark] := by
  match tag, h with
  | [a, b, c, d], _ => simp [binMark]

theorem map_eq_ok_iff {α β : Type} {f : α → β} {result : Option (Except DecodeError α)} {b : β} :
    result.map (·.map f) = some (.ok b) ↔ ∃ a, result = some (.ok a) ∧ f a = b := by
  rcases result with _ | _ | a <;> simp [Except.map]

section Chunks

variable {chunk : Nat} {bins : List (List UInt8)}

/-- One round of the scan takes one binary chunk off the rest of the file. -/
theorem scanBins_chunk_eq_ok_iff (hsize : bytes.length < UInt32.size) (h : start + 8 ≤ bytes.length) :
    scanBins bytes chunk start = some (.ok bins) ↔ ∃ mark bin rest,
      bytes.drop start = frame (binMark ++ [mark]) bin ++ bytes.drop (start + 8 + bin.length) ∧
        scanBins bytes (chunk + 1) (start + 8 + bin.length) = some (.ok rest) ∧
          bin :: rest = bins := by
  have hword : ((bytes.drop start).take 4).length = 4 := length_take_drop (by omega)
  have htag : ((bytes.drop (start + 4)).take 4).length = 4 := length_take_drop (by omega)
  rw [scanBins_chunk h]
  constructor
  · intro hok
    split at hok
    · simp at hok
    next hmark =>
    split at hok
    · simp at hok
    next hfits =>
    obtain ⟨mark, hmark⟩ := (take_eq_binMark_iff htag).1 (Decidable.not_not.1 hmark)
    obtain ⟨rest, hrest, rfl⟩ := map_eq_ok_iff.1 hok
    refine ⟨mark, _, rest, ?_, ?_, rfl⟩
    · rw [drop_eq_frame_append_iff rfl, length_take_drop (by omega)]
      exact ⟨(little32_ofLittle hword).symm, hmark, rfl, rfl⟩
    · rw [length_take_drop (by omega)]
      exact hrest
  · rintro ⟨mark, bin, rest, hdrop, hrest, rfl⟩
    obtain ⟨hcount, hmark, hbin, -⟩ := (drop_eq_frame_append_iff rfl).1 hdrop
    have hlength := congrArg List.length hbin
    rw [List.length_take, List.length_drop] at hlength
    rw [eq_little32_iff hword (by omega)] at hcount
    rw [hcount, hmark, hbin, if_neg (by simp [binMark]), if_neg (by omega), map_eq_ok_iff]
    exact ⟨rest, hrest, rfl⟩

/-- The rest of a file is read as binary chunks exactly where it is made of them. -/
theorem scanBins_eq_ok_iff (hsize : bytes.length < UInt32.size) :
    scanBins bytes chunk start = some (.ok bins) ↔
      ∃ chunks, chunks.map (·.2) = bins ∧ bytes.drop start = binChunks chunks := by
  induction hn : bytes.length - start using Nat.strongRecOn generalizing chunk start bins with
  | _ n ih =>
    by_cases hend : bytes.length ≤ start
    · rw [scanBins_end hend, List.drop_eq_nil_of_le hend]
      constructor
      · rintro ⟨⟩
        exact ⟨[], rfl, rfl⟩
      · rintro ⟨chunks, rfl, hchunks⟩
        obtain rfl : chunks = [] := eq_nil_of_length_lt (by simp [← hchunks])
        rfl
    by_cases hroom : bytes.length < start + 8
    · rw [scanBins_short (by omega) hroom]
      refine iff_of_false (by simp) ?_
      rintro ⟨chunks, -, hchunks⟩
      have hlength := congrArg List.length hchunks
      rw [List.length_drop] at hlength
      obtain rfl : chunks = [] := eq_nil_of_length_lt (by omega)
      rw [binChunks_nil, List.length_nil] at hlength
      omega
    rw [scanBins_chunk_eq_ok_iff hsize (by omega)]
    constructor
    · rintro ⟨mark, bin, rest, hdrop, hrest, rfl⟩
      obtain ⟨chunks, rfl, hchunks⟩ := (ih _ (by omega) rfl).1 hrest
      exact ⟨(mark, bin) :: chunks, rfl, by rw [hdrop, hchunks, binChunks_cons]⟩
    · rintro ⟨chunks, rfl, hchunks⟩
      cases chunks with
      | nil =>
        have hlength := congrArg List.length hchunks
        rw [List.length_drop, binChunks_nil, List.length_nil] at hlength
        omega
      | cons first chunks =>
        obtain ⟨mark, bin⟩ := first
        rw [binChunks_cons] at hchunks
        have hrest := ((drop_eq_frame_append_iff rfl).1 hchunks).2.2.2
        exact ⟨mark, bin, _, hrest ▸ hchunks, (ih _ (by omega) rfl).2 ⟨chunks, rfl, hrest⟩, rfl⟩

theorem length_le_of_mem_binChunks {bin : List UInt8} {chunks : List (UInt8 × List UInt8)}
    (h : bin ∈ chunks.map (·.2)) : bin.length ≤ (binChunks chunks).length := by
  induction chunks with
  | nil => cases h
  | cons first chunks ih =>
    obtain ⟨mark, contents⟩ := first
    rw [binChunks_cons, List.length_append, length_frame]
    rw [List.map_cons, List.mem_cons] at h
    rcases h with rfl | hmem
    · omega
    · have := ih hmem
      omega

end Chunks

/-- The binary chunks of a file that is accepted are parts of a file of fewer than 2^32 bytes. -/
theorem length_of_decode {container : Container} (h : decode bytes = .ok container) :
    bytes.length < UInt32.size ∧ ∀ bin ∈ container.bins, bin.length ≤ bytes.length := by
  have hscan : scan bytes = some (.ok container) := by
    rw [← h]
    exact (Option.some_get _).symm
  rw [scan_eq] at hscan
  iterate 7
    split at hscan
    · simp at hscan
  next hlong _ _ hdeclared _ _ _ =>
  obtain ⟨bins, hbins, rfl⟩ := map_eq_ok_iff.1 hscan
  have hsize : bytes.length < UInt32.size := by
    rw [← Decidable.not_not.1 hdeclared]
    exact ofLittle_lt (length_take_drop (by omega))
  obtain ⟨chunks, rfl, hrest⟩ := (scanBins_eq_ok_iff hsize).1 hbins
  refine ⟨hsize, fun bin hbin => ?_⟩
  calc
    bin.length ≤ (binChunks chunks).length := length_le_of_mem_binChunks hbin
    _ = (bytes.drop _).length := by rw [hrest]
    _ ≤ bytes.length := by
      rw [List.length_drop]
      exact Nat.sub_le _ _

/-- A file is a header with the size of the file, and the chunks of a container.  All sizes are
numbers of 32 bits. -/
def Tiled (bytes : List UInt8) (container : Container) : Prop :=
  bytes.length < UInt32.size ∧ ∃ chunks, chunks.map (·.2) = container.bins ∧
    bytes = magic ++ (little32 version ++ (little32 bytes.length ++
      (frame jsonTag container.json ++ binChunks chunks)))

theorem eq_tiles_iff {json rest : List UInt8} {size : Nat} :
    bytes = magic ++ (little32 version ++ (little32 size ++ (frame jsonTag json ++ rest))) ↔
      bytes.take 4 = magic ∧ (bytes.drop 4).take 4 = little32 version ∧
        (bytes.drop 8).take 4 = little32 size ∧ (bytes.drop 12).take 4 = little32 json.length ∧
          (bytes.drop 16).take 4 = jsonTag ∧ (bytes.drop 20).take json.length = json ∧
            bytes.drop (20 + json.length) = rest := by
  have hmagic : magic.length = 4 := rfl
  have htag : jsonTag.length = 4 := rfl
  rw [eq_append_iff hmagic, eq_append_iff (length_little32 _), List.drop_drop,
    eq_append_iff (length_little32 _), List.drop_drop, drop_eq_frame_append_iff htag]

/-- All that the decoder reads is there, on any file.  It accepts a file exactly where a header and
chunks tile it, and it gives the contents of these chunks in their order. -/
theorem decode_eq_ok_iff_tiled (bytes : List UInt8) : scan bytes = some (decode bytes) ∧
    ∀ container, decode bytes = .ok container ↔ Tiled bytes container := by
  have hscan : scan bytes = some (decode bytes) := (Option.some_get _).symm
  refine ⟨hscan, fun container => ?_⟩
  rw [← Option.some_inj, ← hscan, scan_eq]
  constructor
  · intro h
    iterate 7
      split at h
      · simp at h
    next hlong hmagic hversion hdeclared hroom htag hfits =>
    obtain ⟨bins, hbins, rfl⟩ := map_eq_ok_iff.1 h
    rw [Decidable.not_not] at hmagic hversion hdeclared htag
    have hword (start : Nat) (h : start + 4 ≤ bytes.length) := length_take_drop h
    have hsize : bytes.length < UInt32.size := hdeclared ▸ ofLittle_lt (hword 8 (by omega))
    obtain ⟨chunks, hchunks, hrest⟩ := (scanBins_eq_ok_iff hsize).1 hbins
    refine ⟨hsize, chunks, hchunks, eq_tiles_iff.2 ?_⟩
    rw [length_take_drop (by omega)]
    exact ⟨hmagic, (eq_little32_iff (hword 4 (by omega)) (by decide)).2 hversion,
      (eq_little32_iff (hword 8 (by omega)) hsize).2 hdeclared,
      (little32_ofLittle (hword 12 (by omega))).symm, htag, rfl, hrest⟩
  · rintro ⟨hsize, chunks, hbins, hbytes⟩
    have hlength := congrArg List.length hbytes
    simp [magic, jsonTag] at hlength
    obtain ⟨hmagic, hversion, hdeclared, hcount, htag, hjson, hrest⟩ := eq_tiles_iff.1 hbytes
    have hword (start : Nat) (h : start + 4 ≤ bytes.length) := length_take_drop h
    rw [eq_little32_iff (hword 4 (by omega)) (by decide)] at hversion
    rw [eq_little32_iff (hword 8 (by omega)) hsize] at hdeclared
    rw [eq_little32_iff (hword 12 (by omega)) (by omega)] at hcount
    rw [if_neg (by omega), if_neg (not_not_intro hmagic), if_neg (not_not_intro hversion),
      if_neg (not_not_intro hdeclared), if_neg (by omega), if_neg (not_not_intro htag), hcount, hjson,
      if_neg (by omega), map_eq_ok_iff]
    exact ⟨container.bins, (scanBins_eq_ok_iff hsize).2 ⟨chunks, hbins, hrest⟩, rfl⟩

end Diorama.Container

import Diorama.Image.PrefixCode

/-! Inflation: the decompression of deflated data in its zlib wrapper.  A compressed text consists
of blocks, and each block of symbols that stand for bytes or for repetitions of what was written
before.  How many bytes are wanted is known beforehand: the text may end as soon as they are
written, and its check sum is not looked at. -/

namespace Diorama.Inflate

open BitReader

/-- The shortest length for each symbol of a repetition, and how many bits are added to it. -/
def lengthTable : List (Nat × Nat) :=
  [(3, 0), (4, 0), (5, 0), (6, 0), (7, 0), (8, 0), (9, 0), (10, 0), (11, 1), (13, 1), (15, 1),
    (17, 1), (19, 2), (23, 2), (27, 2), (31, 2), (35, 3), (43, 3), (51, 3), (59, 3), (67, 4),
    (83, 4), (99, 4), (115, 4), (131, 5), (163, 5), (195, 5), (227, 5), (258, 0)]

/-- The shortest distance for each symbol, and how many bits are added to it. -/
def distanceTable : List (Nat × Nat) :=
  [(1, 0), (2, 0), (3, 0), (4, 0), (5, 1), (7, 1), (9, 2), (13, 2), (17, 3), (25, 3), (33, 4),
    (49, 4), (65, 5), (97, 5), (129, 6), (193, 6), (257, 7), (385, 7), (513, 8), (769, 8),
    (1025, 9), (1537, 9), (2049, 10), (3073, 10), (4097, 11), (6145, 11), (8193, 12), (12289, 12),
    (16385, 13), (24577, 13)]

/-- The value of a table's symbol, with the bits that are added to it. -/
def readTable (table : List (Nat × Nat)) (symbol : Nat) : BitReader Nat := do
  let (base, extra) ← lift table[symbol]?
  let more ← number extra
  return base + more

theorem nonGrowing_readTable (table : List (Nat × Nat)) (symbol : Nat) :
    (readTable table symbol).NonGrowing :=
  (nonGrowing_lift _).bind fun _ => (nonGrowing_number _).bind fun _ => nonGrowing_pure _

structure Codes where
  literals : PrefixCode
  distances : PrefixCode

/-- The symbol that ends a block.  Smaller ones are bytes, and larger ones repetitions. -/
def stopSymbol : Nat := 256

/-- The codes with words of the given lengths.  Literals need a complete code with an end; distances
may also have no word, or a single one. -/
def Codes.ofLengths? (literals distances : List Nat) : Option Codes := do
  guard (literals[stopSymbol]?.getD 0 ≠ 0)
  let literals ← PrefixCode.ofLengths? literals
  let distances ← PrefixCode.ofLengths? distances
  guard (literals.isComplete ∧ (distances.isComplete || distances.isTrivial))
  return ⟨literals, distances⟩

/-- The codes of blocks that bring none. -/
def fixedCodes : Codes where
  literals := (PrefixCode.ofLengths? (List.replicate 144 8 ++ List.replicate 112 9 ++
    List.replicate 24 7 ++ List.replicate 8 8)).getD .unused
  distances := (PrefixCode.ofLengths? (List.replicate 30 5)).getD .unused

/-- One step of a block: a byte, its end, or a repetition. -/
inductive Step where
  | byte (b : UInt8)
  | stop
  | copy (distance count : Nat)

/-- Two bytes whose words have twelve bits together at most are read at one time.  So the first
waits for the second as long as the missing bits of its word might be zeros. -/
def demandPair (literals : PrefixCode) : BitReader Unit := fun s =>
  if (s.drop 11).isEmpty then
    let pair : BitReader Bool := do
      let first ← literals.read
      let second ← literals.read
      return first < stopSymbol && second < stopSymbol
    match pair (s ++ List.replicate 12 false) with
    | .value true rest =>
      if s.length ≤ rest.length ∧ rest.length < 12 then .starved else .value () s
    | _ => .value () s
  else .value () s

theorem nonGrowing_demandPair (literals : PrefixCode) : (demandPair literals).NonGrowing := by
  intro s rest _ h
  simp only [demandPair] at h
  repeat' split at h
  all_goals cases h <;> exact Nat.le_refl _

/-- Reads the distance of a repetition whose length has the given symbol. -/
def readCopy (distances : PrefixCode) (length : Nat) : BitReader Step := do
  let count ← readTable lengthTable length
  let distance ← distances.read
  let distance ← readTable distanceTable distance
  return .copy distance count

theorem nonGrowing_readCopy (distances : PrefixCode) (length : Nat) :
    (readCopy distances length).NonGrowing :=
  (nonGrowing_readTable _ _).bind fun _ => distances.progressing_read.nonGrowing.bind fun _ =>
    (nonGrowing_readTable _ _).bind fun _ => nonGrowing_pure _

/-- The step that starts with a symbol. -/
def stepOf (distances : PrefixCode) (symbol : Nat) : BitReader Step :=
  if symbol < stopSymbol then pure (.byte (UInt8.ofNat symbol))
  else if symbol = stopSymbol then pure .stop
  else readCopy distances (symbol - stopSymbol - 1)

theorem nonGrowing_stepOf (distances : PrefixCode) (symbol : Nat) :
    (stepOf distances symbol).NonGrowing := by
  unfold stepOf
  split
  · exact nonGrowing_pure _
  · split
    · exact nonGrowing_pure _
    · exact nonGrowing_readCopy _ _

def readStep (codes : Codes) : BitReader Step := do
  demandPair codes.literals
  stepOf codes.distances (← codes.literals.read)

/-- A step takes one bit at least. -/
theorem progressing_readStep (codes : Codes) : (readStep codes).Progressing :=
  (nonGrowing_demandPair _).bind_progressing fun _ =>
    codes.literals.progressing_read.bind fun _ => nonGrowing_stepOf _ _

/-- Where the contents of a block lead to. -/
inductive Progress where
  | finished (rest : List Bool) (out : Array UInt8)
  /-- There is no more to read, or no room for what is read. -/
  | halted (out : Array UInt8)
  | bad

/-- Whether a block, if it is over, leaves at most the bits that it was given. -/
def Progress.Within (s : List Bool) : Progress → Prop
  | finished rest _ => rest.length ≤ s.length
  | halted _ | bad => True

theorem Progress.Within.mono {s t : List Bool} {p : Progress} (h : p.Within s)
    (hl : s.length ≤ t.length) : p.Within t := by
  cases p with
  | finished rest out => exact Nat.le_trans h hl
  | halted out => trivial
  | bad => trivial

/-- Writes again what stands `distance` bytes back, byte by byte. -/
def repeatFrom (distance : Nat) : (count : Nat) → Array UInt8 → Array UInt8
  | 0, out => out
  | count + 1, out => repeatFrom distance count (out.push (out[out.size - distance]?.getD 0))

/-- When there is no more room, the end of the block is read if 15 bits are there. -/
def readStop (literals : PrefixCode) (s : List Bool) (out : Array UInt8) : Progress :=
  let symbol : BitReader Nat := do
    demand 15
    literals.read
  match symbol s with
  | .value n rest => if n = stopSymbol then .finished rest out else .halted out
  | _ => .halted out

theorem within_readStop (literals : PrefixCode) (s : List Bool) (out : Array UInt8) :
    (readStop literals s out).Within s := by
  unfold readStop
  dsimp only
  split
  · rename_i h
    split
    · exact (nonGrowing_demand 15).bind (fun _ => literals.progressing_read.nonGrowing) h
    · trivial
  · trivial

/-- Reads steps up to the end of a block, or until there are `limit` bytes. -/
def readSteps (codes : Codes) (limit : Nat) (s : List Bool) (out : Array UInt8) : Progress :=
  if limit ≤ out.size then readStop codes.literals s out
  else
    match _h : readStep codes s with
    | .starved => .halted out
    | .bad => .bad
    | .value .stop rest => .finished rest out
    | .value (.byte b) rest => readSteps codes limit rest (out.push b)
    | .value (.copy distance count) rest =>
      if out.size < distance then .bad
      else if limit < out.size + count then .halted (repeatFrom distance (limit - out.size) out)
      else readSteps codes limit rest (repeatFrom distance count out)
termination_by s.length
decreasing_by all_goals exact progressing_readStep codes _h

theorem within_readSteps (codes : Codes) (limit : Nat) (s : List Bool) (out : Array UInt8) :
    (readSteps codes limit s out).Within s := by
  fun_induction readSteps codes limit s out with
  | case1 => exact within_readStop _ _ _
  | case2 | case3 | case6 | case7 => trivial
  | case4 s out _ rest h => exact (progressing_readStep codes).nonGrowing h
  | case5 s out _ b rest h ih => exact ih.mono ((progressing_readStep codes).nonGrowing h)
  | case8 s out _ distance count rest h _ _ ih =>
    exact ih.mono ((progressing_readStep codes).nonGrowing h)

/-- The order in which the lengths of the code for lengths are written. -/
def lengthOrder : List Nat := [16, 17, 18, 0, 8, 7, 9, 6, 10, 5, 11, 4, 12, 3, 13, 2, 14, 1, 15]

/-- Reads `count` numbers of three bits. -/
def readShort : (count : Nat) → BitReader (List Nat)
  | 0 => pure []
  | count + 1 => do
    let n ← number 3
    let more ← readShort count
    return n :: more

theorem nonGrowing_readShort (count : Nat) : (readShort count).NonGrowing := by
  induction count with
  | zero => exact nonGrowing_pure _
  | succ count ih =>
    exact (nonGrowing_number 3).bind fun _ => ih.bind fun _ => nonGrowing_pure _

/-- The lengths that a symbol of the code for lengths stands for: itself, or a run of the length
before it, or a short or a long run of zeros. -/
def readRun (before : Option Nat) (symbol : Nat) : BitReader (List Nat) :=
  if symbol < 16 then pure [symbol]
  else if symbol = 16 then do
    let n ← number 2
    let length ← lift before
    return List.replicate (3 + n) length
  else if symbol = 17 then do
    let n ← number 3
    return List.replicate (3 + n) 0
  else do
    let n ← number 7
    return List.replicate (11 + n) 0

theorem nonGrowing_readRun (before : Option Nat) (symbol : Nat) :
    (readRun before symbol).NonGrowing := by
  unfold readRun
  split
  · exact nonGrowing_pure _
  · split
    · exact (nonGrowing_number 2).bind fun _ => (nonGrowing_lift _).bind fun _ => nonGrowing_pure _
    · split <;> exact (nonGrowing_number _).bind fun _ => nonGrowing_pure _

/-- Reads the lengths that one word of the code for lengths stands for. -/
def readLengthWord (code : PrefixCode) (before : Option Nat) : BitReader (List Nat) := do
  demand 7
  readRun before (← code.read)

theorem progressing_readLengthWord (code : PrefixCode) (before : Option Nat) :
    (readLengthWord code before).Progressing :=
  (nonGrowing_demand 7).bind_progressing fun _ =>
    code.progressing_read.bind fun _ => nonGrowing_readRun _ _

/-- Reads lengths until there are `count`. -/
def readLengths (code : PrefixCode) (count : Nat) (done : List Nat) (s : List Bool) :
    Outcome (List Nat) :=
  if done.length = count then .value done s
  else if count < done.length then .bad
  else
    match _h : readLengthWord code done.getLast? s with
    | .value lengths rest => readLengths code count (done ++ lengths) rest
    | .starved => .starved
    | .bad => .bad
termination_by s.length
decreasing_by exact progressing_readLengthWord code _ _h

theorem nonGrowing_readLengths (code : PrefixCode) (count : Nat) (done : List Nat) :
    BitReader.NonGrowing (readLengths code count done) := by
  intro s rest lengths h
  fun_induction readLengths code count done s with
  | case1 =>
    cases h
    exact Nat.le_refl _
  | case2 | case4 | case5 => cases h
  | case3 done s _ _ more middle hm ih =>
    exact Nat.le_trans (ih h) ((progressing_readLengthWord code _).nonGrowing hm)

def readCodes : BitReader Codes := do
  let literals ← number 5
  let distances ← number 5
  let short ← number 4
  lift (guard (literals + 257 ≤ 286 ∧ distances + 1 ≤ 30))
  let lengths ← readShort (short + 4)
  let code ← lift (PrefixCode.ofLengths? ((List.range 19).map fun i =>
    ((lengthOrder.zip lengths).lookup i).getD 0))
  lift (guard code.isComplete)
  let all ← readLengths code (literals + 257 + distances + 1) []
  lift (Codes.ofLengths? (all.take (literals + 257)) (all.drop (literals + 257)))

theorem nonGrowing_readCodes : readCodes.NonGrowing :=
  (nonGrowing_number 5).bind fun _ => (nonGrowing_number 5).bind fun _ =>
    (nonGrowing_number 4).bind fun _ => (nonGrowing_lift _).bind fun _ =>
      (nonGrowing_readShort _).bind fun _ => (nonGrowing_lift _).bind fun _ =>
        (nonGrowing_lift _).bind fun _ => (nonGrowing_readLengths _ _ _).bind fun _ =>
          nonGrowing_lift _

/-- Reads the size of a block that is not compressed, and its complement. -/
def readSize : BitReader Nat := do
  demand 32
  let size ← number 16
  let check ← number 16
  lift (guard (size + check = 65535))
  return size

theorem nonGrowing_readSize : readSize.NonGrowing :=
  (nonGrowing_demand 32).bind fun _ => (nonGrowing_number 16).bind fun _ =>
    (nonGrowing_number 16).bind fun _ => (nonGrowing_lift _).bind fun _ => nonGrowing_pure _

/-- Reads `count` bytes, or until there are `limit`. -/
def readBytes (limit : Nat) : (count : Nat) → List Bool → Array UInt8 → Progress
  | 0, s, out => .finished s out
  | count + 1, s, out =>
    if limit ≤ out.size then .halted out
    else
      match number 8 s with
      | .value b rest => readBytes limit count rest (out.push (UInt8.ofNat b))
      | _ => .halted out

theorem within_readBytes (limit count : Nat) (s : List Bool) (out : Array UInt8) :
    (readBytes limit count s out).Within s := by
  fun_induction readBytes limit count s out with
  | case1 => exact Nat.le_refl _
  | case2 | case4 => trivial
  | case3 s out count _ b rest h ih => exact ih.mono (nonGrowing_number 8 h)

/-- Reads a block that is not compressed, from the next whole byte on. -/
def readStored (limit : Nat) (s : List Bool) (out : Array UInt8) : Progress :=
  match readSize (s.drop (s.length % 8)) with
  | .value size rest => readBytes limit size rest out
  | .starved => .halted out
  | .bad => .bad

theorem within_readStored (limit : Nat) (s : List Bool) (out : Array UInt8) :
    (readStored limit s out).Within s := by
  unfold readStored
  split
  · rename_i h
    refine (within_readBytes limit _ _ out).mono (Nat.le_trans (nonGrowing_readSize h) ?_)
    rw [List.length_drop]
    exact Nat.sub_le _ _
  · trivial
  · trivial

def readBlock (kind limit : Nat) (s : List Bool) (out : Array UInt8) : Progress :=
  match kind with
  | 0 => readStored limit s out
  | 1 =>
    if s.take 7 = List.replicate 7 false then .finished (s.drop 7) out
    else readSteps fixedCodes limit s out
  | 2 =>
    match readCodes s with
    | .value codes rest => readSteps codes limit rest out
    | .starved => .halted out
    | .bad => .bad
  | _ => .bad

theorem within_readBlock (kind limit : Nat) (s : List Bool) (out : Array UInt8) :
    (readBlock kind limit s out).Within s := by
  unfold readBlock
  split
  · exact within_readStored _ _ _
  · split
    · change (s.drop 7).length ≤ s.length
      rw [List.length_drop]
      exact Nat.sub_le _ _
    · exact within_readSteps _ _ _ _
  · split
    · exact (within_readSteps _ _ _ _).mono (nonGrowing_readCodes (by assumption))
    · trivial
    · trivial
  · trivial

theorem length_le_of_readBlock {kind limit : Nat} {s rest : List Bool} {out done : Array UInt8}
    (h : readBlock kind limit s out = .finished rest done) : rest.length ≤ s.length := by
  have hw := within_readBlock kind limit s out
  rw [h] at hw
  exact hw

/-- Reads whether a block is the last, and its kind.  No block is shorter than ten bits. -/
def readHead : BitReader (Bool × Nat) := do
  demand 10
  let last ← bit
  let kind ← number 2
  return (last, kind)

theorem progressing_readHead : readHead.Progressing :=
  (nonGrowing_demand 10).bind_progressing fun _ => progressing_bit.bind fun _ =>
    (nonGrowing_number 2).bind fun _ => nonGrowing_pure _

/-- The bytes of all blocks up to the last, or as many of them as could be read. -/
def readBlocks (limit : Nat) (s : List Bool) (out : Array UInt8) : Option (Array UInt8) :=
  match _h : readHead s with
  | .starved => some out
  | .bad => none
  | .value (last, kind) rest =>
    match _hb : readBlock kind limit rest out with
    | .bad => none
    | .halted out => some out
    | .finished rest out => if last then some out else readBlocks limit rest out
termination_by s.length
decreasing_by exact Nat.lt_of_le_of_lt (length_le_of_readBlock _hb) (progressing_readHead _h)

/-- The first bytes, `limit` at most, of those that a zlib text or the start of one stands for. -/
def inflateStart? (limit : Nat) : List UInt8 → Option (Array UInt8)
  | method :: flags :: s => do
    guard (method.toNat % 16 = 8 ∧ method.toNat / 16 ≤ 7)
    guard ((256 * method.toNat + flags.toNat) % 31 = 0 ∧ !flags.toNat.testBit 5)
    readBlocks limit (bitsOf s) #[]
  | _ => some #[]

/-- The `size` bytes of a zlib text that comes in pieces, of which `start` has come before.  Pieces
after those that hold the bytes are not looked at. -/
def inflate? (size : Nat) (start : List UInt8) : (pieces : List (List UInt8)) → Option (Array UInt8)
  | [] => none
  | piece :: pieces => do
    let out ← inflateStart? size (start ++ piece)
    if out.size = size then some out else inflate? size (start ++ piece) pieces

end Diorama.Inflate

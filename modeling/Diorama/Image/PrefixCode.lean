import Diorama.Image.BitReader

/-! Codes in which no word starts with another, so that their words can be read one after the other
without marks between them. -/

namespace Diorama

open BitReader

/-- A code as a tree of decisions. -/
inductive PrefixCode where
  | unused
  | symbol (n : Nat)
  | branch (zero one : PrefixCode)

namespace PrefixCode

/-- Adds a word for a symbol, unless it starts with another word or another starts with it. -/
def insert? : (word : List Bool) → Nat → PrefixCode → Option PrefixCode
  | [], n, unused => some (symbol n)
  | true :: word, n, unused => (branch unused ·) <$> insert? word n unused
  | false :: word, n, unused => (branch · unused) <$> insert? word n unused
  | true :: word, n, branch zero one => (branch zero ·) <$> insert? word n one
  | false :: word, n, branch zero one => (branch · one) <$> insert? word n zero
  | _, _, _ => none

/-- The bits of a word, the highest first. -/
def wordOf (length value : Nat) : List Bool := (List.range length).reverse.map value.testBit

/-- The canonical code in which symbol `i` has a word of `lengths[i]` bits, and none for 0: shorter
words come before longer ones, and words of one length are numbered by their symbols. -/
def ofLengths? (lengths : List Nat) : Option PrefixCode := do
  let words := (lengths.zipIdx.filter fun (length, _) => length ≠ 0).mergeSort fun a b => a.1 ≤ b.1
  let (code, _, _) ← words.foldlM (fun (code, next, previous) (length, n) => do
    let value := next * Nat.pow 2 (length - previous)
    guard (value < Nat.pow 2 length)
    return (← code.insert? (wordOf length value) n, value + 1, length)) (unused, 0, 0)
  return code

/-- Whether all bits lead to a symbol. -/
def isComplete : PrefixCode → Bool
  | unused => false
  | symbol _ => true
  | branch zero one => zero.isComplete && one.isComplete

/-- Whether there is no word, or only the word of one zero. -/
def isTrivial : PrefixCode → Bool
  | unused | branch (symbol _) unused => true
  | _ => false

/-- The symbol at the end of the way that bits lead through a code. -/
def follow : PrefixCode → BitReader Nat
  | symbol n, s => .value n s
  | unused, _ => .bad
  | branch zero one, b :: s => if b then follow one s else follow zero s
  | branch _ _, [] => .starved

/-- The symbol of the word at the front, which has one bit at least. -/
def read : PrefixCode → BitReader Nat
  | branch zero one => do follow (if ← bit then one else zero)
  | _ => lift none

theorem nonGrowing_follow (code : PrefixCode) : code.follow.NonGrowing := by
  intro s rest n h
  fun_induction follow code s <;> grind

theorem progressing_read (code : PrefixCode) : code.read.Progressing := by
  cases code with
  | branch zero one => exact progressing_bit.bind fun _ => nonGrowing_follow _
  | _ => nofun

end PrefixCode

end Diorama

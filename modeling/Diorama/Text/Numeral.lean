import Diorama.Text.Blank

/-! Decimal numerals of 32-bit words. -/

namespace Diorama.Text

/-- The number that decimal digits denote, for a list of digits only. -/
def digits? : List Char → Option Nat :=
  fun s => s.foldl (fun n c => do
    let n ← n
    if c.isDigit then some (10 * n + (c.toNat - '0'.toNat)) else none) (some 0)

/-- Reads a 32-bit word: at least one decimal digit, with or without a plus sign before the
digits, and a value below `2^32`. -/
def word32? (s : List Char) : Option UInt32 := do
  let digits := match s with
    | '+' :: rest => rest
    | _ => s
  guard (!digits.isEmpty)
  let n ← digits? digits
  if h : n < UInt32.size then some (UInt32.ofNatLT n h) else none

end Diorama.Text

import Diorama.Json.Basic
import Diorama.Json.Token

/-! What scalars mean: strings with their escapes resolved, and numbers as words and as floats. -/

namespace Diorama.Json

/-- The first half of a pair of escapes for one character beyond the basic plane. -/
def isLeadingSurrogate (n : Nat) : Bool := 0xD800 ≤ n && n ≤ 0xDBFF

def isTrailingSurrogate (n : Nat) : Bool := 0xDC00 ≤ n && n ≤ 0xDFFF

def escaped (b : UInt8) : UInt8 :=
  if b == ascii 'b' then 8
  else if b == ascii 'f' then 12
  else if b == ascii 'n' then 10
  else if b == ascii 'r' then 13
  else if b == ascii 't' then 9
  else b

/-- The bytes of a character in UTF-8. -/
def utf8Bytes (n : Nat) : List UInt8 := String.utf8EncodeChar (Char.ofNat n)

/-- The bytes that a string stands for.  Surrogates have to come in pairs. -/
def unescape? : List UInt8 → Option (List UInt8)
  | [] => some []
  | b :: rest =>
    if b != ascii '\\' then (unescape? rest).map (b :: ·)
    else
      match rest with
      | [] => none
      | e :: rest =>
        if e != ascii 'u' then (unescape? rest).map (escaped e :: ·)
        else
          match rest with
          | c :: d :: f :: g :: rest => do
            let n ← hexWord? c d f g
            if isTrailingSurrogate n then none
            else if isLeadingSurrogate n then
              match rest with
              | x :: y :: c :: d :: f :: g :: rest =>
                guard (x == ascii '\\' && y == ascii 'u')
                let m ← hexWord? c d f g
                guard (isTrailingSurrogate m)
                (unescape? rest).map
                  (utf8Bytes (0x10000 + (n - 0xD800) * 0x400 + (m - 0xDC00)) ++ ·)
              | _ => none
            else (unescape? rest).map (utf8Bytes n ++ ·)
          | _ => none

/-- The text that a string stands for, which has to be UTF-8. -/
def text? (quoted : List UInt8) : Option String := do
  String.fromUTF8? ⟨(← unescape? quoted).toArray⟩

namespace Number

/-- Reads digits behind `n` as far as the number stays below `2^64`, and returns the digits that
are left. -/
def absorb (n : Nat) : List Nat → Nat × List Nat
  | [] => (n, [])
  | d :: rest => if 10 * n + d < UInt64.size then absorb (10 * n + d) rest else (n, d :: rest)

/-- The value of a natural number below `2^64` that is written with digits alone. -/
def toNat? (n : Number) : Option Nat :=
  if n.negative || !n.fraction.isEmpty || n.exponent.isSome then none
  else
    match absorb 0 n.whole with
    | (value, []) => some value
    | _ => none

/-- `significand * 10 ^ exponent` with one rounding for the significand and one for each product
or quotient; nothing where the value is too large. -/
def scale? (significand : Nat) (exponent : Int) : Option Float :=
  let f := significand.toUInt64.toFloat
  if 308 < exponent then if significand = 0 then some f else none
  else if 0 ≤ exponent then
    let g := f * Float.ofScientific 1 false exponent.toNat
    if g.isInf then none else some g
  else if -308 ≤ exponent then some (f / Float.ofScientific 1 false exponent.natAbs)
  else if -616 ≤ exponent then
    some (f / Float.ofScientific 1 false 308 / Float.ofScientific 1 false (exponent.natAbs - 308))
  else some 0

/-- The greatest exponent that a number can be written with. -/
def maxExponent : Nat := 2147483647

/-- The number without its sign.  Digits beyond the range of 64 bits only count as a power of ten
before the point, and not at all behind it. -/
def magnitude? (n : Number) : Option Float :=
  let (whole, dropped) := absorb 0 n.whole
  let (significand, ignored) := absorb whole n.fraction
  let shift : Int := dropped.length - (n.fraction.length - ignored.length : Nat)
  match n.exponent with
  | none => scale? significand shift
  | some (below, digits) =>
    let e := digits.foldl (fun e d => 10 * e + d) 0
    if maxExponent < e then
      if significand ≠ 0 ∧ !below then none else some 0
    else scale? significand (if below then shift - e else shift + e)

def toFloat? (n : Number) : Option Float :=
  if n.negative then (-·) <$> n.magnitude? else n.magnitude?

/-- The single-precision float that a number denotes.  A whole number of 64 bits is rounded once,
any other number first to a double. -/
def toFloat32? (n : Number) : Option Float32 :=
  match { n with negative := false }.toNat? with
  | some value =>
    if !n.negative then some value.toUInt64.toFloat32
    else if 0 < value ∧ value ≤ Nat.pow 2 63 then some (-value.toUInt64.toFloat32)
    else (·.toFloat32) <$> n.toFloat?
  | none => (·.toFloat32) <$> n.toFloat?

end Number

end Diorama.Json

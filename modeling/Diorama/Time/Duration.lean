/-! Lengths of time in nanoseconds. -/

namespace Diorama

/-- A number of nanoseconds. -/
abbrev Duration := Nat

namespace Duration

def second : Duration := 1000000000

/-- The digits of a fraction `n / 10 ^ places` behind the point, without zeros at their end. -/
def fractionDigits (places n : Nat) : List Char :=
  let digits := Nat.toDigits 10 n
  let padded := List.replicate (places - digits.length) '0' ++ digits
  (padded.reverse.dropWhile (· == '0')).reverse

/-- `n / 10 ^ places` in decimal, exactly. -/
def decimal (places n : Nat) : String :=
  let fraction := if places = 0 then [] else fractionDigits places (n % Nat.pow 10 places)
  toString (n / Nat.pow 10 places) ++ String.ofList (if fraction.isEmpty then [] else '.' :: fraction)

/-- A duration in the greatest unit of which it holds one, without rounding. -/
def text (d : Duration) : String :=
  if second ≤ d then decimal 9 d ++ "s"
  else if 1000000 ≤ d then decimal 6 d ++ "ms"
  else if 1000 ≤ d then decimal 3 d ++ "µs"
  else decimal 0 d ++ "ns"

/-- The nearest whole number to `n / d`, the even one of two. -/
def roundDiv (n d : Nat) : Nat :=
  let q := n / d
  let r := n % d
  if 2 * r < d then q else if d < 2 * r then q + 1 else if q % 2 = 0 then q else q + 1

/-- The nearest whole number of nanoseconds to a number of seconds between 0 and 1. -/
def ofSeconds (seconds : Float) : Duration :=
  let bits := seconds.toBits.toNat
  let exponent := bits / Nat.pow 2 52 % 2048
  let mantissa := bits % Nat.pow 2 52 + if exponent = 0 then 0 else Nat.pow 2 52
  roundDiv (mantissa * second) (Nat.pow 2 (1075 - max exponent 1))

end Duration

end Diorama

/-! JSON values as they are written.  A string is kept as the bytes between its quotation marks and
a number as its digits, because a value that nobody asks for is checked for its form only. -/

namespace Diorama

def ascii (c : Char) : UInt8 := UInt8.ofNat c.toNat

def asciiBytes (s : String) : List UInt8 := s.toList.map ascii

namespace Json

/-- A number as it is written.  `fraction` is empty where there is no point. -/
structure Number where
  negative : Bool
  whole : List Nat
  fraction : List Nat
  /-- The sign of the exponent, `true` for minus, and its digits. -/
  exponent : Option (Bool × List Nat)
deriving DecidableEq, Repr

end Json

/-- A value.  Members of an object keep their order, and names may repeat. -/
inductive Json where
  | null
  | bool (b : Bool)
  | number (n : Json.Number)
  | string (quoted : List UInt8)
  | array (items : List Json)
  | object (members : List (List UInt8 × Json))

end Diorama

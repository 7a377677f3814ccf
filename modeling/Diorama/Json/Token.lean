import Diorama.Json.Basic

/-! The tokens of JSON: punctuation and scalars, with blanks between them. -/

namespace Diorama.Json

inductive Token where
  | openArray
  | closeArray
  | openObject
  | closeObject
  | colon
  | comma
  | scalar (value : Json)

/-- Space, newline, tab and carriage return. -/
def isSpace (b : UInt8) : Bool :=
  b == ascii ' ' || b == ascii '\n' || b == ascii '\t' || b == ascii '\r'

def isDigit (b : UInt8) : Bool := ascii '0' ≤ b && b ≤ ascii '9'

def hexDigit? (b : UInt8) : Option Nat :=
  if isDigit b then some (b.toNat - 48)
  else if ascii 'a' ≤ b && b ≤ ascii 'f' then some (b.toNat - 87)
  else if ascii 'A' ≤ b && b ≤ ascii 'F' then some (b.toNat - 55)
  else none

def hexWord? (a b c d : UInt8) : Option Nat := do
  return 4096 * (← hexDigit? a) + 256 * (← hexDigit? b) + 16 * (← hexDigit? c) + (← hexDigit? d)

/-- Whether a backslash may stand before the byte. -/
def isEscapable (b : UInt8) : Bool :=
  (asciiBytes "\"\\/bfnrt").contains b

/-- Splits a text behind an opening quotation mark into the string and what follows its closing
mark.  Control characters and unknown escapes have no place in a string. -/
def splitString? : List UInt8 → Option (List UInt8 × List UInt8)
  | [] => none
  | b :: rest =>
    if b == ascii '"' then some ([], rest)
    else if b == ascii '\\' then
      match rest with
      | [] => none
      | e :: rest =>
        if isEscapable e then
          (splitString? rest).map fun (quoted, after) => (b :: e :: quoted, after)
        else if e == ascii 'u' then
          match rest with
          | c :: d :: f :: g :: rest =>
            if (hexWord? c d f g).isSome then
              (splitString? rest).map fun (quoted, after) =>
                (b :: e :: c :: d :: f :: g :: quoted, after)
            else none
          | _ => none
        else none
    else if b < 32 then none
    else (splitString? rest).map fun (quoted, after) => (b :: quoted, after)

def spanDigits (s : List UInt8) : List Nat × List UInt8 :=
  ((s.takeWhile isDigit).map (·.toNat - 48), s.dropWhile isDigit)

/-- Reads a number that fills the whole text: no leading zeros, and digits on either side of a
point and in an exponent. -/
def Number.ofBytes? (s : List UInt8) : Option Number := do
  let (negative, s) := match s with
    | b :: rest => if b == ascii '-' then (true, rest) else (false, s)
    | [] => (false, s)
  let (whole, s) := spanDigits s
  guard (whole ≠ [] ∧ (whole.head? = some 0 → whole = [0]))
  let (fraction, s) ← match s with
    | b :: rest =>
      if b == ascii '.' then
        let (digits, rest) := spanDigits rest
        if digits.isEmpty then none else some (digits, rest)
      else some ([], s)
    | [] => some ([], s)
  match s with
  | [] => return ⟨negative, whole, fraction, none⟩
  | b :: rest =>
    guard (b == ascii 'e' || b == ascii 'E')
    let (below, rest) := match rest with
      | c :: more =>
        if c == ascii '-' then (true, more) else if c == ascii '+' then (false, more)
        else (false, rest)
      | [] => (false, rest)
    let (digits, rest) := spanDigits rest
    guard (!digits.isEmpty && rest.isEmpty)
    return ⟨negative, whole, fraction, some (below, digits)⟩

def isNumberByte (b : UInt8) : Bool := isDigit b || (asciiBytes "+-.eE").contains b

def isNameByte (b : UInt8) : Bool := ascii 'a' ≤ b && b ≤ ascii 'z'

def constant? (name : List UInt8) : Option Json :=
  if name = asciiBytes "null" then some .null
  else if name = asciiBytes "true" then some (.bool true)
  else if name = asciiBytes "false" then some (.bool false)
  else none

def punctuation? (b : UInt8) : Option Token :=
  if b == ascii '[' then some .openArray
  else if b == ascii ']' then some .closeArray
  else if b == ascii '{' then some .openObject
  else if b == ascii '}' then some .closeObject
  else if b == ascii ':' then some .colon
  else if b == ascii ',' then some .comma
  else none

/-- The token at the front of a text that starts with `b`, and the text behind the token. -/
def Token.next? (b : UInt8) (rest : List UInt8) : Option (Token × List UInt8) :=
  match punctuation? b with
  | some token => some (token, rest)
  | none =>
    if b == ascii '"' then
      (splitString? rest).map fun (quoted, after) => (.scalar (.string quoted), after)
    else if isNumberByte b then
      (Number.ofBytes? (b :: rest.takeWhile isNumberByte)).map fun n =>
        (.scalar (.number n), rest.dropWhile isNumberByte)
    else
      (constant? (b :: rest.takeWhile isNameByte)).map fun value =>
        (.scalar value, rest.dropWhile isNameByte)

theorem length_of_splitString? {s quoted after : List UInt8}
    (h : splitString? s = some (quoted, after)) : after.length < s.length := by
  fun_induction splitString? s generalizing quoted <;> grind [Option.map_eq_some_iff]

/-- A token takes its first byte at least. -/
theorem Token.length_of_next? {b : UInt8} {rest after : List UInt8} {token : Token}
    (h : Token.next? b rest = some (token, after)) : after.length ≤ rest.length := by
  have hd (p : UInt8 → Bool) : (rest.dropWhile p).length ≤ rest.length :=
    (List.dropWhile_sublist p).length_le
  unfold next? at h
  split at h
  · simp at h; exact h.2 ▸ Nat.le_refl _
  · split at h
    · obtain ⟨⟨q, a⟩, hs, ha⟩ := Option.map_eq_some_iff.1 h
      simp at ha
      exact ha.2 ▸ Nat.le_of_lt (length_of_splitString? hs)
    · split at h <;>
      · obtain ⟨v, _, hv⟩ := Option.map_eq_some_iff.1 h
        simp at hv
        exact hv.2 ▸ hd _

/-- The tokens of a text, where it has no others. -/
def Token.scan? (s : List UInt8) : Option (List Token) :=
  match s with
  | [] => some []
  | b :: rest =>
    if isSpace b then scan? rest
    else
      match _h : Token.next? b rest with
      | none => none
      | some (token, after) => (scan? after).map (token :: ·)
termination_by s.length
decreasing_by
  · simp
  · have := Token.length_of_next? _h
    simp only [List.length_cons]
    omega

end Diorama.Json

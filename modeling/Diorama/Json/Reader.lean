import Diorama.Json.Token

/-! From tokens to a JSON value.  One token at a time is read into a stack of open arrays and
objects, so a text may be nested as deeply as it likes. -/

namespace Diorama.Json

/-- An array or object whose end is still to come, with its contents so far, the last first. -/
inductive Container where
  | array (items : List Json)
  | object (members : List (List UInt8 × Json)) (name : List UInt8)

/-- What may follow in a text, with the containers that are open, the innermost first. -/
inductive Reader where
  | atValue (stack : List Container)
  /-- The first item of an array, or its end. -/
  | atItem (stack : List Container)
  /-- The first name of an object, or its end. -/
  | atFirstName (stack : List Container)
  | atName (members : List (List UInt8 × Json)) (stack : List Container)
  | atColon (members : List (List UInt8 × Json)) (name : List UInt8) (stack : List Container)
  /-- A comma, the end of the innermost container, or the end of the text. -/
  | behind (value : Json) (stack : List Container)

namespace Reader

/-- Reads one token where a value may start. -/
def start? (stack : List Container) : Token → Option Reader
  | .openArray => some (.atItem stack)
  | .openObject => some (.atFirstName stack)
  | .scalar value => some (.behind value stack)
  | _ => none

def step? : Reader → Token → Option Reader
  | .atValue stack, token => start? stack token
  | .atItem stack, .closeArray => some (.behind (.array []) stack)
  | .atItem stack, token => start? (.array [] :: stack) token
  | .atFirstName stack, .closeObject => some (.behind (.object []) stack)
  | .atFirstName stack, .scalar (.string name) => some (.atColon [] name stack)
  | .atName members stack, .scalar (.string name) => some (.atColon members name stack)
  | .atColon members name stack, .colon => some (.atValue (.object members name :: stack))
  | .behind value (.array items :: stack), .comma =>
    some (.atValue (.array (value :: items) :: stack))
  | .behind value (.array items :: stack), .closeArray =>
    some (.behind (.array (value :: items).reverse) stack)
  | .behind value (.object members name :: stack), .comma =>
    some (.atName ((name, value) :: members) stack)
  | .behind value (.object members name :: stack), .closeObject =>
    some (.behind (.object ((name, value) :: members).reverse) stack)
  | _, _ => none

end Reader

def ofTokens? (tokens : List Token) : Option Json := do
  match ← tokens.foldlM Reader.step? (.atValue []) with
  | .behind value [] => some value
  | _ => none

/-- The value that a text holds, with blanks around it but nothing else. -/
def ofBytes? (s : List UInt8) : Option Json := do
  ofTokens? (← Token.scan? s)

end Diorama.Json

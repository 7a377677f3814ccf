import Diorama.Json.Reader
import Diorama.Json.Scalar

/-! Typed reading of JSON.  A `Record` holds the values of the fields that a type knows.  It is
written as an object, in which each known field stands at most once and other fields are ignored,
or as an array of the values in the order of the fields. -/

namespace Diorama.Json

def string? : Json → Option String
  | .string quoted => text? quoted
  | _ => none

def bool? : Json → Option Bool
  | .bool b => some b
  | _ => none

/-- A natural number of 64 bits. -/
def word64? : Json → Option UInt64
  | .number n => (·.toUInt64) <$> n.toNat?
  | _ => none

/-- A natural number of 32 bits. -/
def word32? : Json → Option UInt32
  | .number n => do
    let value ← n.toNat?
    if value < UInt32.size then some value.toUInt32 else none
  | _ => none

/-- A natural number of 64 bits, of which the lower 32 are kept. -/
def low32? (json : Json) : Option Nat := (·.toUInt32.toNat) <$> json.word64?

def float32? : Json → Option Float32
  | .number n => n.toFloat32?
  | _ => none

/-- A list, each item read by `item?`. -/
def list? {α : Type} (item? : Json → Option α) : Json → Option (List α)
  | .array items => items.mapM item?
  | _ => none

/-- A list of exactly `n` items. -/
def vector? {α : Type} (n : Nat) (item? : Json → Option α) (json : Json) : Option (List α) := do
  let items ← json.list? item?
  guard (items.length = n)
  return items

/-- `null`, or a value read by `item?`. -/
def nullable? {α : Type} (item? : Json → Option α) : Json → Option (Option α)
  | .null => some none
  | json => some <$> item? json

def null? : Json → Option Unit
  | .null => some ()
  | _ => none

def members? : Json → Option (List (String × Json))
  | .object members => members.mapM fun (name, value) => do return (← text? name, value)
  | _ => none

/-- Gives each key its last value, in the order of the last places. -/
def lastValues {κ α : Type} [BEq κ] : List (κ × α) → List (κ × α)
  | [] => []
  | (key, value) :: rest =>
    if rest.any (·.1 == key) then lastValues rest else (key, value) :: lastValues rest

/-- An object as a map, in which the last value of a repeated name counts. -/
def map? {α : Type} (item? : Json → Option α) (json : Json) : Option (List (String × α)) := do
  let entries ← (← json.members?).mapM fun (name, value) => do return (name, ← item? value)
  return lastValues entries

/-- Any value in which numbers are in range, strings are text, and containers lie at most `depth`
deep. -/
def isPlain : Nat → Json → Bool
  | _, .null | _, .bool _ => true
  | _, .number n => n.toFloat?.isSome
  | _, .string quoted => (text? quoted).isSome
  | 0, _ => false
  | depth + 1, .array items => items.all (isPlain depth)
  | depth + 1, .object members =>
    members.all fun (name, value) => (text? name).isSome && isPlain depth value

structure Record where
  fields : List (String × Json)
  /-- Whether the record is written as an array, which must not leave out optional fields. -/
  positional : Bool

namespace Record

/-- Reads the fields `names`. -/
def ofJson? (names : List String) (json : Json) : Option Record :=
  match json with
  | .array items =>
    if items.length ≤ names.length then some ⟨names.zip items, true⟩ else none
  | _ => do
    let known := (← json.members?).filter fun (name, _) => names.contains name
    if (known.map (·.1)).eraseDups.length = known.length then some ⟨known, false⟩ else none

/-- The record as one of a type with a default value, from which an array too takes what it leaves
out. -/
def relaxed (r : Record) : Record := { r with positional := false }

def required? {α : Type} (r : Record) (name : String) (item? : Json → Option α) : Option α := do
  item? (← r.fields.lookup name)

/-- A field that may be missing, and then has the value `default`. -/
def withDefault? {α : Type} (r : Record) (name : String) (default : α)
    (item? : Json → Option α) : Option α :=
  match r.fields.lookup name with
  | none => some default
  | some json => item? json

/-- A field that may be `null`, and that may be missing in an object. -/
def optional? {α : Type} (r : Record) (name : String) (item? : Json → Option α) :
    Option (Option α) :=
  match r.fields.lookup name with
  | none => if r.positional then none else some none
  | some json => nullable? item? json

end Record

end Diorama.Json

import Diorama.Shader.Document
import Diorama.Shader.Group

/-! A shader file, read: `Source`, and the search for its entries.  Declarations and vertex inputs
are gathered line by line; the rest of the text, without them, is the document that holds the code
of the stages. -/

namespace Diorama.Shader

open Text

structure AttributeSlot where
  semantic : String
  location : UInt32
  datatype : String
  format : VertexFormat
  /-- The bytes from one vertex to the next. -/
  stride : Nat
deriving DecidableEq, Repr

structure Source where
  name : String
  vertex : StageSource
  fragment : StageSource
  groupNames : List (String × UInt32)
  requires : List String
  /-- In the order of locations. -/
  attributes : List AttributeSlot
  /-- In the order in which the text names them. -/
  groups : List Group
deriving DecidableEq, Repr

/-- The declarations on lines with `@group`, with a warning for each such line that has none. -/
def declarationsIn : List (List Char) → Logged (List Declaration)
  | [] => pure []
  | line :: more =>
    if contains "@group".toList line then
      match Declaration.ofLine? line with
      | some d => return d :: (← declarationsIn more)
      | none => do
        Logged.warn (.malformedBinding (String.ofList (trim line)))
        declarationsIn more
    else declarationsIn more

/-- Adds a vertex input at the end, in place of an earlier one of its semantic. -/
def addInput (inputs : List VertexInput) (new : VertexInput) : List VertexInput :=
  inputs.filter (·.semantic ≠ new.semantic) ++ [new]

/-- Adds the vertex inputs on lines with `@attribute=` to `inputs`, with a warning for each such
line that has none, and for each that repeats a semantic. -/
def inputsIn (inputs : List VertexInput) : List (List Char) → Logged (List VertexInput)
  | [] => pure inputs
  | line :: more =>
    if contains attributeMark line then
      match VertexInput.ofLine? line with
      | some new => do
        Logged.warnIf (inputs.any (·.semantic = new.semantic)) (.repeatedAttribute new.semantic)
        inputsIn (addInput inputs new) more
      | none => do
        Logged.warn (.malformedAttribute (String.ofList (trim line)))
        inputsIn inputs more
    else inputsIn inputs more

def AttributeSlot.ofInput (input : VertexInput) : Except ShaderError AttributeSlot :=
  match VertexFormat.ofType? input.datatype with
  | some format => .ok ⟨input.semantic, input.location, input.datatype, format, format.size⟩
  | none => .error (.unsupportedAttribute input.semantic input.datatype)

/-- The slots of vertex inputs in the order of locations; inputs of one location keep theirs. -/
def slotsOf (inputs : List VertexInput) : Except ShaderError (List AttributeSlot) := do
  let slots ← inputs.mapM AttributeSlot.ofInput
  return slots.mergeSort fun a b => a.location ≤ b.location

def Document.stage (document : Document) : Stage → Except ShaderError StageSource
  | .vertex => document.vertex.elim (.error (.missingStage document.name .vertex)) .ok
  | .fragment => document.fragment.elim (.error (.missingStage document.name .fragment)) .ok

/-- What the document of a text without annotations gives, with the vertex inputs, before the groups
are made. -/
def headOf (stripped : List Char) (inputs : List VertexInput) :
    Except ShaderError (Document × StageSource × StageSource × List AttributeSlot) := do
  let document ← (Document.ofText? stripped).elim (.error .json) .ok
  let vertex ← document.stage .vertex
  let fragment ← document.stage .fragment
  return (document, vertex, fragment, ← slotsOf inputs)

namespace Source

structure Hit where
  group : UInt32
  slot : Nat
  entry : GroupEntry
deriving DecidableEq, Repr

def hitsOf (group : Group) : List Hit :=
  group.entries.zipIdx.map fun (entry, slot) => ⟨group.index, slot, entry⟩

/-- The entries for which `p` holds, group by group and slot by slot. -/
def query (source : Source) (p : GroupEntry → Bool) : List Hit :=
  (source.groups.flatMap hitsOf).filter fun hit => p hit.entry

def queryTag (source : Source) (tag : String) : List Hit :=
  source.query fun entry => entry.tag == some tag

def groupIndex? (source : Source) (name : String) : Option UInt32 :=
  source.groupNames.lookup name

def group? (source : Source) (index : UInt32) : Option Group :=
  source.groups.find? fun group => group.index == index

def attribute? (source : Source) (semantic : String) : Option AttributeSlot :=
  source.attributes.find? fun slot => slot.semantic == semantic

/-- The required tags that no entry carries. -/
def missingTags (source : Source) : List String :=
  source.requires.filter fun tag => (source.queryTag tag).isEmpty

/-- Accepts a shader that has all the tags which it requires. -/
def checked (source : Source) : Except ShaderError Source :=
  if source.missingTags.isEmpty then .ok source
  else .error (.missingTags source.name source.missingTags)

/-- The shader that a text without annotations holds, with what was gathered from it before. -/
def assemble (stripped : List Char) (declarations : List Declaration) (inputs : List VertexInput) :
    Logged (Except ShaderError Source) :=
  match headOf stripped inputs with
  | .error e => pure (.error e)
  | .ok (document, vertex, fragment, attributes) => do
    match ← groupDeclarations document.name ⟨vertex.code, fragment.code⟩ declarations with
    | .error e => return .error e
    | .ok groups =>
      return checked ⟨document.name, vertex, fragment, document.groupNames, document.requires,
        attributes, groups⟩

/-- Reads a shader.  Where the annotations cannot be stripped there is no result. -/
def parse (text : String) : Logged (Option (Except ShaderError Source)) := do
  let raw := stripComments text.toList
  let declarations ← declarationsIn (lines raw)
  let inputs ← inputsIn [] (lines raw)
  match stripAnnotations? raw with
  | none => return none
  | some stripped => return some (← assemble stripped declarations inputs)

end Source

/-- The first entry that carries a tag. -/
structure TagSlot where
  tag : Tag
  group : UInt32
  slot : Nat
  name : String
deriving DecidableEq, Repr

/-- The slots of those tags that some entry carries, in the order of the tags, with a warning for
each tag that several entries carry. -/
def tagSlots (source : Source) : List Tag → Logged (List TagSlot)
  | [] => pure []
  | tag :: more =>
    match source.queryTag tag.text with
    | [] => tagSlots source more
    | hit :: others => do
      Logged.warnIf (!others.isEmpty)
        (.repeatedTag tag.text (others.length + 1) source.name hit.entry.name)
      return ⟨tag, hit.group, hit.slot, hit.entry.name⟩ :: (← tagSlots source more)

def slotOf? (slots : List TagSlot) (tag : Tag) : Option TagSlot :=
  slots.find? fun slot => slot.tag == tag

/-- The group of a shader's per-object bindings: the one that it names `OBJECT_INDEX`, else that of
its first object tag, else 1.  The slots are those of `Tag.object`. -/
def objectGroup (source : Source) (slots : List TagSlot) : UInt32 :=
  (source.groupIndex? "OBJECT_INDEX").getD ((slots.head?.map (·.group)).getD 1)

/-- The group of a shader's per-camera bindings: the one that it names `VIEW_INDEX`, else that of
its first camera tag, else 0. -/
def viewGroup (source : Source) : UInt32 :=
  (source.groupIndex? "VIEW_INDEX").getD
    (((Tag.camera.findSome? fun tag => (source.queryTag tag.text).head?).map (·.group)).getD 0)

end Diorama.Shader

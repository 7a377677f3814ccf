import Diorama.Shader.Source
import Diorama.Word

/-! Compiled shaders: the layout of each bind group, by group index, and the resolution of a
group's entries to resources. -/

namespace Diorama.Shader

structure LayoutEntry where
  binding : Nat
  visibility : Visibility
  kind : BindingKind
deriving DecidableEq, Repr

/-- The layout of a group: one entry a slot, numbered by the slot. -/
def Group.layout (group : Group) : List LayoutEntry :=
  group.entries.zipIdx.map fun (entry, slot) => ⟨slot, entry.visibility, entry.kind⟩

/-- A shader with the layouts of its groups.  An index without a declared group has an empty
layout. -/
structure Compiled where
  source : Source
  layouts : List (List LayoutEntry)
deriving DecidableEq, Repr

namespace Source

/-- One more than the greatest group index, or 0 without groups.  The last index of all has no
successor, and with a group of that index there is no result. -/
def groupCount? (source : Source) : Option UInt32 :=
  (source.groups.mapM fun group => Word.succ? group.index).map (·.foldl max 0)

def layoutOf (source : Source) (index : Nat) : List LayoutEntry :=
  ((source.group? (UInt32.ofNat index)).map Group.layout).getD []

/-- Lays out the groups of a shader, for a device that has room for `limit` of them. -/
def compile (limit : UInt32) (source : Source) : Option (Except ShaderError Compiled) :=
  source.groupCount?.map fun count =>
    if limit < count then .error (.tooManyGroups source.name (count - 1) limit)
    else .ok ⟨source, (List.range count.toNat).map source.layoutOf⟩

end Source

def compile (limit : UInt32) (text : String) : Logged (Option (Except ShaderError Compiled)) := do
  Logged.proceed (← Source.parse text) fun source => pure (source.compile limit)

/-- The resource under the name of an entry of the group `label`, which has to have the shape that
the entry asks for. -/
def GroupEntry.pick {α : Type} (kind : α → BindingKind) (resource? : String → Option α)
    (label : String) (entry : GroupEntry) : Except ShaderError α :=
  match resource? entry.name with
  | none => .error (.missingResource label entry.name)
  | some resource =>
    if kind resource = entry.kind then .ok resource
    else .error (.resourceMismatch label entry.name entry.kind (kind resource))

/-- Pairs the slots of a group with the resources of their entries. -/
def Group.resolve {α : Type} (kind : α → BindingKind) (resource? : String → Option α)
    (group : Group) : Except ShaderError (List (Nat × α)) :=
  group.entries.zipIdx.mapM fun (entry, slot) => do
    return (slot, ← entry.pick kind resource? group.label)

namespace Compiled

def layout? (shader : Compiled) (index : UInt32) : Option (List LayoutEntry) :=
  shader.layouts[index.toNat]?

def bind {α : Type} (shader : Compiled) (kind : α → BindingKind) (resource? : String → Option α)
    (group : Group) : Except ShaderError (List (Nat × α)) :=
  match shader.layout? group.index with
  | none => .error (.unknownGroup shader.source.name group.index)
  | some _ => group.resolve kind resource?

end Compiled

end Diorama.Shader

import Diorama.Gpu
import Diorama.Scene.Error
import Diorama.Shader.Layout

/-! The binding of resources: resources under the names of a shader's variables, the groups that
are bound from them, and the errors of drawing. -/

namespace Diorama

def Resource.kind : Resource → Shader.BindingKind
  | buffer _ => .uniform
  | texture _ => .texture
  | sampler _ => .sampler

structure ResourceMap where
  entries : List (String × Resource) := []
deriving DecidableEq, Repr

namespace ResourceMap

def get? (map : ResourceMap) (name : String) : Option Resource := map.entries.lookup name

/-- Puts a resource under a name, in place of an earlier one. -/
def set (map : ResourceMap) (name : String) (resource : Resource) : ResourceMap :=
  ⟨(name, resource) :: map.entries.filter (·.1 ≠ name)⟩

theorem lookup_filter_ne {name other : String} (h : other ≠ name)
    (entries : List (String × Resource)) :
    (entries.filter (·.1 ≠ name)).lookup other = entries.lookup other := by
  induction entries with
  | nil => rfl
  | cons e rest ih =>
    obtain ⟨key, value⟩ := e
    rw [List.filter_cons]
    by_cases hk : key = name
    · subst hk
      have hb : (other == key) = false := by simpa using h
      simpa [List.lookup_cons, hb] using ih
    · simp only [ne_eq, hk, not_false_eq_true, decide_true, if_true, List.lookup_cons, ih]

theorem get?_set (map : ResourceMap) (name other : String) (resource : Resource) :
    (map.set name resource).get? other =
      if other = name then some resource else map.get? other := by
  by_cases h : other = name
  · simp [get?, set, h]
  · have hb : (other == name) = false := by simpa using h
    simp only [get?, set, List.lookup_cons, hb, if_neg h]
    exact lookup_filter_ne h map.entries

end ResourceMap

/-- A bound group: a resource for each slot, in the order of slots. -/
abbrev BindGroup := List (Nat × Resource)

inductive ComponentKind where
  | transform
  | meshInstance
  | view
deriving DecidableEq, Repr

def ComponentKind.text : ComponentKind → String
  | transform => "Transform"
  | meshInstance => "MeshInstance"
  | view => "View"

inductive RenderError where
  | notBaked (mesh : Uid)
  | missingComponent (entity : Uid) (kind : ComponentKind)
  | noFrame
  | resource (cause : ResourceError)
  | shader (cause : ShaderError)
deriving DecidableEq, Repr

def RenderError.message : RenderError → String
  | notBaked mesh => s!"mesh instance of mesh {mesh} was drawn before it was baked"
  | missingComponent entity kind => s!"entity {entity} has no {kind.text} component"
  | noFrame => "no surface texture was acquired for this frame"
  | resource cause => cause.message
  | shader cause => cause.message

/-- Binds resources to a group of a shader, which has to be declared. -/
def bindGroup (shader : Shader.Compiled) (index : UInt32) (resources : ResourceMap) :
    Except ShaderError BindGroup :=
  match shader.source.group? index with
  | none => .error (.unknownGroup shader.source.name index)
  | some group => shader.bind Resource.kind resources.get? group

end Diorama

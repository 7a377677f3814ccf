import Diorama.Warning
import Diorama.Shader.Error
import Diorama.Shader.Declaration

/-! Bind groups: the declarations of a shader collected by group and by binding.  Both stages of a
shader declare what they use, so one binding may be declared several times; the declarations of one
binding have to agree and make one entry.  Bindings are numbered anew: an entry's slot is its place
among the entries of its group, in the order of the declared bindings. -/

namespace Diorama.Shader

structure Visibility where
  vertex : Bool
  fragment : Bool
deriving DecidableEq, Repr

structure GroupEntry where
  name : String
  qualifier : String
  datatype : String
  tag : Option String
  kind : BindingKind
  visibility : Visibility
deriving DecidableEq, Repr

/-- A group of bindings: the slot of an entry is its place in `entries`. -/
structure Group where
  label : String
  index : UInt32
  entries : List GroupEntry
deriving DecidableEq, Repr

/-- The entry of a group for the variable `name`. -/
def Group.entry? (group : Group) (name : String) : Option GroupEntry :=
  group.entries.find? fun entry => entry.name == name

/-- The label of the group `index` of a shader. -/
def groupLabel (shader : String) (index : UInt32) : String := s!"{shader}_bind_group_{index}"

namespace Declaration

/-- Whether two declarations of one binding can stand together: they name the same variable of the
same type, and do not carry two different tags. -/
def Agrees (kept new : Declaration) : Prop :=
  kept.name = new.name ∧ kept.qualifier = new.qualifier ∧ kept.datatype = new.datatype ∧
    (kept.tag = none ∨ new.tag = none ∨ kept.tag = new.tag)

instance (kept new : Declaration) : Decidable (kept.Agrees new) := by
  unfold Agrees
  infer_instance

/-- Joins a further declaration to the one kept for its binding, which takes on the tag of the new
one if it has none. -/
def join (kept new : Declaration) : Except ShaderError Declaration :=
  if kept.Agrees new then .ok { kept with tag := kept.tag.or new.tag }
  else .error (.conflictingBinding new.group new.binding kept.name new.name)

theorem Agrees.refl (d : Declaration) : d.Agrees d := ⟨rfl, rfl, rfl, .inr (.inr rfl)⟩

theorem Agrees.symm {a b : Declaration} (h : a.Agrees b) : b.Agrees a := by
  obtain ⟨hname, hqualifier, hdatatype, htag⟩ := h
  refine ⟨hname.symm, hqualifier.symm, hdatatype.symm, ?_⟩
  rcases htag with h | h | h
  · exact .inr (.inl h)
  · exact .inl h
  · exact .inr (.inr h.symm)

theorem join_eq_ok_iff {kept new joined : Declaration} : kept.join new = .ok joined ↔
    kept.Agrees new ∧ { kept with tag := kept.tag.or new.tag } = joined := by
  unfold join
  split <;> simp [*]

/-- What agrees with two declarations agrees with the one that they are joined to. -/
theorem Agrees.join {kept new joined d : Declaration} (hjoin : kept.join new = .ok joined)
    (hkept : kept.Agrees d) (hnew : new.Agrees d) : joined.Agrees d := by
  obtain ⟨-, rfl⟩ := join_eq_ok_iff.1 hjoin
  refine ⟨hkept.1, hkept.2.1, hkept.2.2.1, ?_⟩
  cases htag : kept.tag with
  | none => simpa [htag] using hnew.2.2.2
  | some t => simpa [htag] using hkept.2.2.2

/-- Joins neighbours of one binding, from left to right.  `kept` stands for the declarations before
the list that belong to its binding. -/
def mergeFrom (kept : Declaration) : List Declaration → Except ShaderError (List Declaration)
  | [] => .ok [kept]
  | d :: more =>
    if kept.binding = d.binding then do mergeFrom (← kept.join d) more
    else (kept :: ·) <$> mergeFrom d more

/-- One declaration for each run of declarations of one binding. -/
def mergeRuns : List Declaration → Except ShaderError (List Declaration)
  | [] => .ok []
  | first :: more => mergeFrom first more

/-- Adds a declaration to the members of its group.  A group without members yet comes last. -/
def addMember : List (UInt32 × List Declaration) → Declaration → List (UInt32 × List Declaration)
  | [], d => [(d.group, [d])]
  | (index, members) :: more, d =>
    if index = d.group then (index, members ++ [d]) :: more
    else (index, members) :: addMember more d

/-- The groups that are declared, with their members. -/
def byGroup (declarations : List Declaration) : List (UInt32 × List Declaration) :=
  declarations.foldl addMember []

/-- Puts declarations in the order of bindings; those of one binding keep theirs. -/
def sortByBinding (declarations : List Declaration) : List Declaration :=
  declarations.mergeSort fun a b => a.binding ≤ b.binding

end Declaration

/-- The code of the two stages, as a declaration's visibility depends on it. -/
structure StageCode where
  vertex : String
  fragment : String

/-- The stages whose code holds `name` as a whole identifier. -/
def StageCode.visibility (code : StageCode) (name : String) : Visibility :=
  ⟨Text.mentions code.vertex.toList name.toList, Text.mentions code.fragment.toList name.toList⟩

/-- The entry of a declaration, with a warning if no stage mentions it. -/
def GroupEntry.ofDeclaration (shader : String) (code : StageCode) (d : Declaration) :
    Logged (Except ShaderError GroupEntry) :=
  match BindingKind.classify? d.qualifier d.datatype with
  | none => pure (.error (.unsupportedBinding d.name d.datatype))
  | some kind => do
    let visibility := code.visibility d.name
    Logged.warnIf (visibility = ⟨false, false⟩) (.unusedBinding d.name shader)
    return .ok ⟨d.name, d.qualifier, d.datatype, d.tag, kind, visibility⟩

/-- The group `index` of a shader, which has the given members. -/
def Group.ofMembers (shader : String) (code : StageCode) (index : UInt32)
    (members : List Declaration) : Logged (Except ShaderError Group) :=
  match Declaration.mergeRuns (Declaration.sortByBinding members) with
  | .error e => pure (.error e)
  | .ok merged => do
    return (⟨groupLabel shader index, index, ·⟩) <$>
      (← Logged.traverse (GroupEntry.ofDeclaration shader code) merged)

/-- The groups of a shader, in the order in which the declarations name them. -/
def groupDeclarations (shader : String) (code : StageCode) (declarations : List Declaration) :
    Logged (Except ShaderError (List Group)) :=
  Logged.traverse (fun (index, members) => Group.ofMembers shader code index members)
    (Declaration.byGroup declarations)

end Diorama.Shader

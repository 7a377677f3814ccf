import Diorama.Proofs.Faults
import Diorama.Proofs.Reordering
import Diorama.Proofs.Slots

/-! When a shader text is accepted, and what is reported when it is not.  Everything that a text
declares is gathered first; then the document, its stages, the vertex inputs, the groups and the
required tags are looked at in this order, and the first fault ends it. -/

namespace Diorama.Shader

open Declaration Text

variable {raw stripped : List Char} {document : Document} {vertex fragment : StageSource}
  {inputs found : List VertexInput} {attributes : List AttributeSlot} {groups groups' : List Group}
  {e : ShaderError} {text tag : String}

/-! ### What the lines of a text declare -/

def declarationOn? (line : List Char) : Option Declaration :=
  if contains "@group".toList line then Declaration.ofLine? line else none

def declarationsOf (raw : List Char) : List Declaration := (lines raw).filterMap declarationOn?

theorem value_declarationsIn (listed : List (List Char)) :
    (declarationsIn listed).value = listed.filterMap declarationOn? := by
  induction listed with
  | nil => rfl
  | cons line more ih =>
    rw [declarationsIn, List.filterMap_cons, declarationOn?]
    by_cases hgroup : contains "@group".toList line
    · rw [if_pos hgroup, if_pos hgroup]
      cases Declaration.ofLine? line with
      | none => exact ih
      | some d => exact congrArg (d :: ·) ih
    · rw [if_neg hgroup, if_neg hgroup]
      exact ih

def inputOn? (line : List Char) : Option VertexInput :=
  if contains attributeMark line then VertexInput.ofLine? line else none

/-- The last input of each semantic. -/
def lastOfEach : List VertexInput → List VertexInput
  | [] => []
  | input :: more =>
    if input.semantic ∈ more.map (·.semantic) then lastOfEach more else input :: lastOfEach more

def inputsOf (raw : List Char) : List VertexInput := lastOfEach ((lines raw).filterMap inputOn?)

theorem lastOfEach_concat (found : List VertexInput) (new : VertexInput) :
    lastOfEach (found ++ [new]) = addInput (lastOfEach found) new := by
  induction found with
  | nil => rfl
  | cons input more ih =>
    simp only [List.cons_append, lastOfEach, ih, List.map_append, List.mem_append]
    by_cases hmore : input.semantic ∈ more.map (·.semantic)
    · rw [if_pos (.inl hmore), if_pos hmore]
    · rw [if_neg hmore]
      by_cases hnew : input.semantic = new.semantic
      · simp [addInput, hnew]
      · simp [addInput, hnew, hmore]

theorem value_inputsIn (found : List VertexInput) (listed : List (List Char)) :
    (inputsIn (lastOfEach found) listed).value =
      lastOfEach (found ++ listed.filterMap inputOn?) := by
  induction listed generalizing found with
  | nil => rw [List.filterMap_nil, List.append_nil]; rfl
  | cons line more ih =>
    rw [inputsIn, List.filterMap_cons, inputOn?]
    by_cases hmark : contains attributeMark line
    · rw [if_pos hmark, if_pos hmark]
      cases VertexInput.ofLine? line with
      | none => exact ih found
      | some new =>
        have hrest := ih (found ++ [new])
        rw [lastOfEach_concat, List.append_assoc] at hrest
        exact hrest
    · rw [if_neg hmark, if_neg hmark]
      exact ih found

/-- The type of the last input counts, also where an earlier one has none that can be stored. -/
example : lastOfEach [⟨"POSITION", 0, "vec3<i32>"⟩, ⟨"COLOR", 1, "vec4f"⟩,
    ⟨"POSITION", 2, "vec3f"⟩] = [⟨"COLOR", 1, "vec4f"⟩, ⟨"POSITION", 2, "vec3f"⟩] := by decide

/-! ### The document and its stages -/

/-- The text without annotations is a document that has both stages. -/
structure Staged (stripped : List Char) (document : Document) (vertex fragment : StageSource) :
    Prop where
  read : Document.ofText? stripped = some document
  vertex : document.vertex = some vertex
  fragment : document.fragment = some fragment

theorem AttributeSlot.exists_ofInput_iff {input : VertexInput} :
    (∃ slot, ofInput input = .ok slot) ↔ (VertexFormat.ofType? input.datatype).isSome := by
  unfold ofInput
  cases VertexFormat.ofType? input.datatype <;> simp

theorem AttributeSlot.ofInput_eq_error_iff {input : VertexInput} : ofInput input = .error e ↔
    VertexFormat.ofType? input.datatype = none ∧
      e = .unsupportedAttribute input.semantic input.datatype := by
  unfold ofInput
  cases VertexFormat.ofType? input.datatype <;> simp [eq_comm]

theorem exists_slotsOf_iff : (∃ attributes, slotsOf inputs = .ok attributes) ↔
    ∀ input ∈ inputs, (VertexFormat.ofType? input.datatype).isSome := by
  simp only [← AttributeSlot.exists_ofInput_iff, ← exists_mapM_eq_ok_iff]
  unfold slotsOf
  cases inputs.mapM AttributeSlot.ofInput <;> simp [bind, Except.bind, pure, Except.pure]

theorem slotsOf_eq_error_iff : slotsOf inputs = .error e ↔
    ∃ input, IsFirst (fun input => VertexFormat.ofType? input.datatype = none) inputs input ∧
      e = .unsupportedAttribute input.semantic input.datatype := by
  have hmapM : slotsOf inputs = .error e ↔ inputs.mapM AttributeSlot.ofInput = .error e := by
    simp [slotsOf, bind_eq_error_iff, pure, Except.pure]
  rw [hmapM, mapM_eq_error_iff_isFirst]
  simp only [AttributeSlot.exists_ofInput_iff, Option.not_isSome_iff_eq_none,
    AttributeSlot.ofInput_eq_error_iff]
  constructor
  · rintro ⟨input, hfirst, -, he⟩
    exact ⟨input, hfirst, he⟩
  · rintro ⟨input, hfirst, he⟩
    obtain ⟨-, -, -, -, hnone⟩ := id hfirst
    exact ⟨input, hfirst, hnone, he⟩

theorem headOf_eq_ok_iff : headOf stripped inputs = .ok (document, vertex, fragment, attributes) ↔
    Staged stripped document vertex fragment ∧ slotsOf inputs = .ok attributes := by
  simp only [headOf, bind_eq_ok_iff, elim_eq_ok_iff, Document.stage, pure, Except.pure,
    Except.ok.injEq, Prod.mk.injEq]
  constructor
  · rintro ⟨_, hread, _, hvertex, _, hfragment, _, hslots, rfl, rfl, rfl, rfl⟩
    exact ⟨⟨hread, hvertex, hfragment⟩, hslots⟩
  · rintro ⟨⟨hread, hvertex, hfragment⟩, hslots⟩
    exact ⟨_, hread, _, hvertex, _, hfragment, _, hslots, rfl, rfl, rfl, rfl⟩

theorem headOf_eq_error_iff : headOf stripped inputs = .error e ↔
    Document.ofText? stripped = none ∧ e = .json ∨
      ∃ document, Document.ofText? stripped = some document ∧
        (document.vertex = none ∧ e = .missingStage document.name .vertex ∨
          ∃ vertex, document.vertex = some vertex ∧
            (document.fragment = none ∧ e = .missingStage document.name .fragment ∨
              ∃ fragment, document.fragment = some fragment ∧ slotsOf inputs = .error e)) := by
  simp only [headOf, bind_eq_error_iff, elim_eq_ok_iff, elim_eq_error_iff,
    Document.stage, pure, Except.pure, reduceCtorEq, and_false, exists_false, or_false]

/-! ### Tags -/

/-- Some entry of the groups carries the tag. -/
def Carries (groups : List Group) (tag : String) : Prop :=
  ∃ group ∈ groups, ∃ entry ∈ group.entries, entry.tag = some tag

instance (groups : List Group) (tag : String) : Decidable (Carries groups tag) := by
  unfold Carries
  infer_instance

def lacking (requires : List String) (groups : List Group) : List String :=
  requires.filter fun tag => ¬Carries groups tag

theorem Source.queryTag_eq_nil_iff {source : Source} :
    source.queryTag tag = [] ↔ ¬Carries source.groups tag := by
  rw [List.eq_nil_iff_forall_not_mem, ← not_exists, not_iff_not]
  simp only [queryTag, mem_query, beq_iff_eq]
  constructor
  · rintro ⟨hit, htag, group, hgroup, -, hentry⟩
    exact ⟨group, hgroup, hit.entry, List.mem_of_getElem? hentry, htag⟩
  · rintro ⟨group, hgroup, entry, hentry, htag⟩
    obtain ⟨slot, hslot⟩ := List.getElem?_of_mem hentry
    exact ⟨⟨group.index, slot, entry⟩, htag, group, hgroup, rfl, hslot⟩

theorem Source.missingTags_eq (source : Source) :
    source.missingTags = lacking source.requires source.groups := by
  refine List.filter_congr fun tag _ => ?_
  rw [Bool.eq_iff_iff, List.isEmpty_iff, queryTag_eq_nil_iff, decide_eq_true_iff]

theorem lacking_eq_nil_iff {requires : List String} :
    lacking requires groups = [] ↔ ∀ tag ∈ requires, Carries groups tag := by
  simp [lacking, List.filter_eq_nil_iff]

/-! ### Acceptance and refusal -/

/-- All is as it should be up to the groups, which are those that are declared. -/
structure Assembles (raw stripped : List Char) (document : Document) (groups : List Group) :
    Prop where
  grouped : ∃ vertex fragment, Staged stripped document vertex fragment ∧
    Grouped document.name ⟨vertex.code, fragment.code⟩ (declarationsOf raw) groups
  supported : ∀ input ∈ inputsOf raw, (VertexFormat.ofType? input.datatype).isSome
  consistent : Consistent (declarationsOf raw)
  classified : Classified (declarationsOf raw)

/-- A text is accepted with the given groups. -/
def Accepts (raw stripped : List Char) (groups : List Group) : Prop :=
  ∃ document, Assembles raw stripped document groups ∧ ∀ tag ∈ document.requires, Carries groups tag

/-- Why a text is refused.  Each cause supposes that there is none of those before it. -/
inductive Refuses (raw stripped : List Char) : ShaderError → Prop
  | json (hread : Document.ofText? stripped = none) : Refuses raw stripped .json
  | vertex {document : Document} (hread : Document.ofText? stripped = some document)
    (hvertex : document.vertex = none) :
    Refuses raw stripped (.missingStage document.name .vertex)
  | fragment {document : Document} (hread : Document.ofText? stripped = some document)
    (hvertex : document.vertex.isSome) (hfragment : document.fragment = none) :
    Refuses raw stripped (.missingStage document.name .fragment)
  | input {document : Document} {vertex fragment : StageSource} {input : VertexInput}
    (hstaged : Staged stripped document vertex fragment)
    (hfirst : IsFirst (fun input => VertexFormat.ofType? input.datatype = none) (inputsOf raw)
      input) :
    Refuses raw stripped (.unsupportedAttribute input.semantic input.datatype)
  | group {document : Document} {vertex fragment : StageSource} {index : UInt32} {e : ShaderError}
    (hstaged : Staged stripped document vertex fragment)
    (hsupported : ∀ input ∈ inputsOf raw, (VertexFormat.ofType? input.datatype).isSome)
    (hfirst : IsFirst (fun i => ¬SoundGroup (declarationsOf raw) i)
      ((declarationsOf raw).map (·.group)).eraseDups index)
    (hfault : GroupFault ((declarationsOf raw).filter fun d => d.group = index) e) :
    Refuses raw stripped e
  | tags {document : Document} {groups : List Group}
    (hassembles : Assembles raw stripped document groups)
    (hlacking : lacking document.requires groups ≠ []) :
    Refuses raw stripped (.missingTags document.name (lacking document.requires groups))

namespace Source

variable {source accepted : Source}

theorem checked_eq_ok_iff : source.checked = .ok accepted ↔
    (∀ tag ∈ source.requires, Carries source.groups tag) ∧ source = accepted := by
  unfold checked
  rw [missingTags_eq, ← lacking_eq_nil_iff]
  cases lacking source.requires source.groups <;> simp

theorem checked_eq_error_iff : source.checked = .error e ↔
    lacking source.requires source.groups ≠ [] ∧
      e = .missingTags source.name (lacking source.requires source.groups) := by
  unfold checked
  rw [missingTags_eq]
  cases lacking source.requires source.groups <;> simp [eq_comm]

/-- The result for a text, with what its lines declare and what it is without annotations. -/
def resultOf (raw stripped : List Char) : Except ShaderError Source :=
  (assemble stripped (declarationsOf raw) (inputsOf raw)).value

theorem value_parse_eq (text : String) : (parse text).value =
    (stripAnnotations? (stripComments text.toList)).map (resultOf (stripComments text.toList)) := by
  have hinputs (raw : List Char) : (inputsIn [] (lines raw)).value = inputsOf raw :=
    value_inputsIn [] (lines raw)
  have hdeclarations (raw : List Char) : (declarationsIn (lines raw)).value = declarationsOf raw :=
    value_declarationsIn (lines raw)
  simp only [value_parse, hinputs, hdeclarations]
  rfl

theorem assembles_iff : Assembles raw stripped document groups ↔
    ∃ vertex fragment attributes,
      headOf stripped (inputsOf raw) = .ok (document, vertex, fragment, attributes) ∧
        (groupDeclarations document.name ⟨vertex.code, fragment.code⟩
          (declarationsOf raw)).value = .ok groups := by
  constructor
  · rintro ⟨⟨vertex, fragment, hstaged, hgrouped⟩, hsupported, hconsistent, hclassified⟩
    obtain ⟨attributes, hattributes⟩ := exists_slotsOf_iff.2 hsupported
    obtain ⟨made, hmade⟩ := exists_groupDeclarations_iff.2 ⟨hconsistent, hclassified⟩
    rw [hgrouped.unique (grouped_of_eq_ok hmade)] at hmade
    exact ⟨vertex, fragment, attributes, headOf_eq_ok_iff.2 ⟨hstaged, hattributes⟩, hmade⟩
  · rintro ⟨vertex, fragment, attributes, hhead, hgroups⟩
    obtain ⟨hstaged, hattributes⟩ := headOf_eq_ok_iff.1 hhead
    obtain ⟨hconsistent, hclassified⟩ := exists_groupDeclarations_iff.1 ⟨groups, hgroups⟩
    exact ⟨⟨vertex, fragment, hstaged, grouped_of_eq_ok hgroups⟩,
      exists_slotsOf_iff.1 ⟨attributes, hattributes⟩, hconsistent, hclassified⟩

theorem exists_resultOf_iff : (∃ source, resultOf raw stripped = .ok source ∧
    source.groups = groups) ↔ Accepts raw stripped groups := by
  simp only [resultOf, value_assemble, bind_eq_ok_iff, Prod.exists, checked_eq_ok_iff]
  constructor
  · rintro ⟨_, ⟨document, vertex, fragment, attributes, hhead, made, hmade, hcarries, rfl⟩, rfl⟩
    have hassembles := assembles_iff.2 ⟨vertex, fragment, attributes, hhead, hmade⟩
    exact ⟨document, hassembles, hcarries⟩
  · rintro ⟨document, hassembles, hcarries⟩
    obtain ⟨vertex, fragment, attributes, hhead, hgroups⟩ := assembles_iff.1 hassembles
    exact ⟨_, ⟨document, vertex, fragment, attributes, hhead, groups, hgroups, hcarries, rfl⟩, rfl⟩

theorem resultOf_eq_error_iff : resultOf raw stripped = .error e ↔ Refuses raw stripped e := by
  simp only [resultOf, value_assemble, bind_eq_error_iff, Prod.exists, checked_eq_error_iff]
  constructor
  · rintro (hhead | ⟨document, vertex, fragment, attributes, hhead, hrest⟩)
    · obtain ⟨hread, rfl⟩ | ⟨document, hread, ⟨hvertex, rfl⟩ | ⟨vertex, hvertex,
        ⟨hfragment, rfl⟩ | ⟨fragment, hfragment, hslots⟩⟩⟩ := headOf_eq_error_iff.1 hhead
      · exact .json hread
      · exact .vertex hread hvertex
      · exact .fragment hread (by rw [hvertex]; rfl) hfragment
      · obtain ⟨input, hfirst, rfl⟩ := slotsOf_eq_error_iff.1 hslots
        exact .input ⟨hread, hvertex, hfragment⟩ hfirst
    · obtain ⟨hstaged, hattributes⟩ := headOf_eq_ok_iff.1 hhead
      rcases hrest with hgroups | ⟨groups, hgroups, hlacking, rfl⟩
      · obtain ⟨index, hfirst, hfault⟩ := groupDeclarations_eq_error_iff.1 hgroups
        exact .group hstaged (exists_slotsOf_iff.1 ⟨attributes, hattributes⟩) hfirst hfault
      · have hassembles := assembles_iff.2 ⟨vertex, fragment, attributes, hhead, hgroups⟩
        exact .tags hassembles hlacking
  · intro hrefuses
    cases hrefuses with
    | json hread => exact .inl (headOf_eq_error_iff.2 (.inl ⟨hread, rfl⟩))
    | vertex hread hvertex =>
      exact .inl (headOf_eq_error_iff.2 (.inr ⟨_, hread, .inl ⟨hvertex, rfl⟩⟩))
    | fragment hread hvertex hfragment =>
      obtain ⟨vertex, hvertex⟩ := Option.isSome_iff_exists.1 hvertex
      exact .inl (headOf_eq_error_iff.2
        (.inr ⟨_, hread, .inr ⟨vertex, hvertex, .inl ⟨hfragment, rfl⟩⟩⟩))
    | input hstaged hfirst =>
      obtain ⟨hread, hvertex, hfragment⟩ := hstaged
      have hslots := slotsOf_eq_error_iff.2 ⟨_, hfirst, rfl⟩
      exact .inl (headOf_eq_error_iff.2
        (.inr ⟨_, hread, .inr ⟨_, hvertex, .inr ⟨_, hfragment, hslots⟩⟩⟩))
    | group hstaged hsupported hfirst hfault =>
      obtain ⟨attributes, hattributes⟩ := exists_slotsOf_iff.2 hsupported
      exact .inr ⟨_, _, _, attributes, headOf_eq_ok_iff.2 ⟨hstaged, hattributes⟩,
        .inl (groupDeclarations_eq_error_iff.2 ⟨_, hfirst, hfault⟩)⟩
    | tags hassembles hlacking =>
      obtain ⟨vertex, fragment, attributes, hhead, hgroups⟩ := assembles_iff.1 hassembles
      exact .inr ⟨_, vertex, fragment, attributes, hhead, .inr ⟨_, hgroups, hlacking, rfl⟩⟩

/-- A text that can be stripped is accepted with the groups that it declares if nothing is wrong
with it, and else it is refused for its first fault. -/
theorem parse_verdict (text : String) :
    match stripAnnotations? (stripComments text.toList) with
    | none => (parse text).value = none
    | some stripped => ∃ result, (parse text).value = some result ∧
      (∀ groups, (∃ source, result = .ok source ∧ source.groups = groups) ↔
        Accepts (stripComments text.toList) stripped groups) ∧
      ∀ e, result = .error e ↔ Refuses (stripComments text.toList) stripped e := by
  cases hstrip : stripAnnotations? (stripComments text.toList) with
  | none => rw [value_parse_eq, hstrip, Option.map_none]
  | some stripped =>
    refine ⟨resultOf (stripComments text.toList) stripped, ?_, fun groups => exists_resultOf_iff,
      fun e => resultOf_eq_error_iff⟩
    rw [value_parse_eq, hstrip, Option.map_some]

/-- A vertex input that cannot be stored is reported before a tag that nothing carries. -/
example : (parse ("[\"s\",[\"v\",\"\n@location(0) @attribute=P p: i32\"],[\"f\",\"\"]," ++
    "\x7b\x7d,[\"view_matrix\"]]")).value =
      some (.error (.unsupportedAttribute "P" "i32")) := by
  decide +kernel

end Source

end Diorama.Shader

import Diorama.Proofs.Merging

/-! The groups of a shader hold one entry for each binding that is declared, which says what all
declarations of the binding say, and there are groups unless two declarations disagree or one has
no kind. -/

namespace Diorama.Shader

open Declaration

variable {shader : String} {code : StageCode} {ds members merged : List Declaration}
  {d m : Declaration} {index : UInt32} {entry : GroupEntry} {group : Group} {groups : List Group}

/-- No two declarations of one binding of one group disagree. -/
def Declaration.Consistent (ds : List Declaration) : Prop :=
  ∀ a ∈ ds, ∀ b ∈ ds, a.group = b.group → a.binding = b.binding → a.Agrees b

/-- Each declaration has a kind. -/
def Declaration.Classified (ds : List Declaration) : Prop :=
  ∀ d ∈ ds, (BindingKind.classify? d.qualifier d.datatype).isSome

/-- `entry` says what a group with the given members declares with `d`. -/
structure GroupEntry.Describes (code : StageCode) (members : List Declaration) (d : Declaration)
    (entry : GroupEntry) : Prop where
  name : entry.name = d.name
  qualifier : entry.qualifier = d.qualifier
  datatype : entry.datatype = d.datatype
  /-- The tag is that of any of the binding's declarations that has one. -/
  tag : ∀ t, entry.tag = some t ↔ ∃ e ∈ members, e.binding = d.binding ∧ e.tag = some t
  kind : BindingKind.classify? d.qualifier d.datatype = some entry.kind
  vertex : entry.visibility.vertex = Text.mentions code.vertex.toList d.name.toList
  fragment : entry.visibility.fragment = Text.mentions code.fragment.toList d.name.toList

/-- The entries of a group are those of its declared bindings, in their slots. -/
structure Group.Collects (shader : String) (code : StageCode) (members : List Declaration)
    (group : Group) : Prop where
  label : group.label = groupLabel shader group.index
  count : group.entries.length = (bindings members).length
  entry : ∀ d ∈ members, ∃ entry, group.entries[slot members d.binding]? = some entry ∧
    entry.Describes code members d
  declared : ∀ i < group.entries.length, ∃ d ∈ members, slot members d.binding = i

/-- The groups are those of the declarations, in the order of their first declarations. -/
structure Grouped (shader : String) (code : StageCode) (ds : List Declaration)
    (groups : List Group) : Prop where
  indices : groups.map (·.index) = (ds.map (·.group)).eraseDups
  distinct : (groups.map (·.index)).Nodup
  collects : ∀ group ∈ groups,
    group.Collects shader code (ds.filter fun d => d.group = group.index)

/-- What has a kind keeps it when it is merged. -/
theorem Declaration.Merges.classified_iff (h : Merges members merged) :
    Classified merged ↔ Classified members := by
  constructor
  · intro hclassified d hd
    obtain ⟨m, hm, hbinding⟩ := h.covers d hd
    obtain ⟨-, hqualifier, hdatatype⟩ := (h.stands m hm).common d hd hbinding.symm
    rw [hqualifier, hdatatype]
    exact hclassified m hm
  · intro hclassified m hm
    obtain ⟨d, hd, hbinding⟩ := (h.stands m hm).declared
    obtain ⟨-, hqualifier, hdatatype⟩ := (h.stands m hm).common d hd hbinding
    rw [← hqualifier, ← hdatatype]
    exact hclassified d hd

namespace GroupEntry

theorem value_ofDeclaration_eq_ok_iff : (ofDeclaration shader code d).value = .ok entry ↔
    ∃ kind, BindingKind.classify? d.qualifier d.datatype = some kind ∧
      ⟨d.name, d.qualifier, d.datatype, d.tag, kind, code.visibility d.name⟩ = entry := by
  unfold ofDeclaration
  cases BindingKind.classify? d.qualifier d.datatype <;> simp

theorem exists_value_ofDeclaration_iff :
    (∃ entry, (ofDeclaration shader code d).value = .ok entry) ↔
      (BindingKind.classify? d.qualifier d.datatype).isSome := by
  simp only [value_ofDeclaration_eq_ok_iff, Option.isSome_iff_exists]
  exact ⟨fun ⟨_, kind, h, _⟩ => ⟨kind, h⟩, fun ⟨kind, h⟩ => ⟨_, kind, h, rfl⟩⟩

/-- The entry of what a binding's declarations come to describes each of them. -/
theorem describes_of_stands (hm : Stands members m)
    (hentry : (ofDeclaration shader code m).value = .ok entry) (hd : d ∈ members)
    (hbinding : d.binding = m.binding) : entry.Describes code members d := by
  obtain ⟨kind, hkind, rfl⟩ := value_ofDeclaration_eq_ok_iff.1 hentry
  obtain ⟨hname, hqualifier, hdatatype⟩ := hm.common d hd hbinding
  refine ⟨hname.symm, hqualifier.symm, hdatatype.symm, ?_, ?_, ?_, ?_⟩
  · exact hbinding ▸ hm.tag
  · rw [hqualifier, hdatatype]
    exact hkind
  · rw [hname]
    rfl
  · rw [hname]
    rfl

end GroupEntry

namespace Group

theorem value_ofMembers (shader : String) (code : StageCode) (index : UInt32)
    (members : List Declaration) : (ofMembers shader code index members).value = (do
      let merged ← mergeRuns (sortByBinding members)
      let entries ← (Logged.traverse (GroupEntry.ofDeclaration shader code) merged).value
      return ⟨groupLabel shader index, index, entries⟩) := by
  unfold ofMembers
  cases mergeRuns (sortByBinding members) with
  | error e => rfl
  | ok merged =>
    simp only [Logged.value_pure, bind, Except.bind]
    cases (Logged.traverse (GroupEntry.ofDeclaration shader code) merged).value <;> rfl

theorem value_ofMembers_eq_ok_iff : (ofMembers shader code index members).value = .ok group ↔
    ∃ merged, mergeRuns (sortByBinding members) = .ok merged ∧ ∃ entries,
      (Logged.traverse (GroupEntry.ofDeclaration shader code) merged).value = .ok entries ∧
        ⟨groupLabel shader index, index, entries⟩ = group := by
  simp only [value_ofMembers, bind_eq_ok_iff, pure, Except.pure, Except.ok.injEq]

theorem index_eq (h : (ofMembers shader code index members).value = .ok group) :
    group.index = index := by
  obtain ⟨merged, -, entries, -, rfl⟩ := value_ofMembers_eq_ok_iff.1 h
  rfl

theorem collects_of_eq_ok (h : (ofMembers shader code index members).value = .ok group) :
    group.Collects shader code members := by
  obtain ⟨merged, hmerged, entries, hentries, rfl⟩ := value_ofMembers_eq_ok_iff.1 h
  have hmerges := merges_of_mergeRuns hmerged
  have hlength := Logged.length_of_value_traverse hentries
  refine ⟨rfl, hlength.symm.trans hmerges.length_eq, fun d hd => ?_, fun i hi => ?_⟩
  · obtain ⟨m, hm, hbinding⟩ := hmerges.getElem?_slot hd
    have hslot := Logged.getElem?_of_value_traverse hentries (slot members d.binding)
    rw [hm] at hslot
    obtain ⟨entry, hentry, hvalue⟩ := Option.map_eq_some_iff.1 hslot.symm
    have hstands := hmerges.stands m (List.mem_of_getElem? hm)
    exact ⟨entry, hentry,
      GroupEntry.describes_of_stands hstands hvalue.symm hd hbinding.symm⟩
  · have hm : merged[i]? = some (merged.get ⟨i, hlength ▸ hi⟩) := List.getElem?_eq_getElem _
    obtain ⟨d, hd, hbinding⟩ := (hmerges.stands _ (List.mem_of_getElem? hm)).declared
    exact ⟨d, hd, hbinding ▸ hmerges.slot_eq hm⟩

theorem exists_value_ofMembers_iff :
    (∃ group, (ofMembers shader code index members).value = .ok group) ↔
      Concord members ∧ Classified members := by
  simp only [value_ofMembers_eq_ok_iff]
  constructor
  · rintro ⟨_, merged, hmerged, entries, hentries, -⟩
    have hmerges := merges_of_mergeRuns hmerged
    have hentry := Logged.exists_value_traverse_iff.1 ⟨entries, hentries⟩
    have hclassified : Classified merged := fun m hm =>
      GroupEntry.exists_value_ofDeclaration_iff.1 (hentry m hm)
    exact ⟨hmerges.concord, hmerges.classified_iff.1 hclassified⟩
  · rintro ⟨hconcord, hclassified⟩
    obtain ⟨merged, hmerged⟩ := exists_mergeRuns_iff.2 hconcord
    rw [← (merges_of_mergeRuns hmerged).classified_iff] at hclassified
    have hentry : ∀ m ∈ merged, ∃ entry,
        (GroupEntry.ofDeclaration shader code m).value = .ok entry := fun m hm =>
      GroupEntry.exists_value_ofDeclaration_iff.2 (hclassified m hm)
    obtain ⟨entries, hentries⟩ := Logged.exists_value_traverse_iff.2 hentry
    exact ⟨_, merged, hmerged, entries, hentries, rfl⟩

end Group

/-! ### All groups -/

theorem Declaration.consistent_iff : Consistent ds ↔
    ∀ i ∈ ds.map (·.group), Concord (ds.filter fun d => d.group = i) := by
  simp only [concord_iff, List.mem_filter, decide_eq_true_eq]
  constructor
  · rintro h i - a ⟨ha, rfl⟩ b ⟨hb, hgroup⟩
    exact h a ha b hb hgroup.symm
  · intro h a ha b hb hgroup
    exact h a.group (List.mem_map_of_mem ha) a ⟨ha, rfl⟩ b ⟨hb, hgroup.symm⟩

theorem Declaration.classified_iff : Classified ds ↔
    ∀ i ∈ ds.map (·.group), Classified (ds.filter fun d => d.group = i) := by
  simp only [Classified, List.mem_filter, decide_eq_true_eq]
  constructor
  · exact fun h i _ d hd => h d hd.1
  · exact fun h d hd => h d.group (List.mem_map_of_mem hd) d ⟨hd, rfl⟩

theorem groupDeclarations_eq (shader : String) (code : StageCode) (ds : List Declaration) :
    groupDeclarations shader code ds = Logged.traverse
      (fun i => Group.ofMembers shader code i (ds.filter fun d => d.group = i))
      (ds.map (·.group)).eraseDups := by
  rw [groupDeclarations, byGroup_eq, Logged.traverse_map]
  rfl

theorem exists_groupDeclarations_iff :
    (∃ groups, (groupDeclarations shader code ds).value = .ok groups) ↔
      Consistent ds ∧ Classified ds := by
  rw [groupDeclarations_eq, Logged.exists_value_traverse_iff, consistent_iff, classified_iff]
  simp only [List.mem_eraseDups, Group.exists_value_ofMembers_iff]
  exact ⟨fun h => ⟨fun i hi => (h i hi).1, fun i hi => (h i hi).2⟩,
    fun h i hi => ⟨h.1 i hi, h.2 i hi⟩⟩

theorem grouped_of_eq_ok (h : (groupDeclarations shader code ds).value = .ok groups) :
    Grouped shader code ds groups := by
  rw [groupDeclarations_eq] at h
  have hindices := Logged.map_eq_of_value_traverse (fun _ _ => Group.index_eq) h
  refine ⟨hindices, hindices ▸ nodup_eraseDups _, fun group hgroup => ?_⟩
  have hok : (.ok group : Except ShaderError Group) ∈ groups.map .ok := List.mem_map_of_mem hgroup
  rw [← Logged.value_traverse_eq_ok_iff.1 h] at hok
  obtain ⟨i, -, hvalue⟩ := List.mem_map.1 hok
  rw [Group.index_eq hvalue]
  exact Group.collects_of_eq_ok hvalue

/-- Declarations make groups exactly when they are consistent and each has a kind, and the groups
hold what is declared. -/
theorem groupDeclarations_sound_complete (shader : String) (code : StageCode)
    (ds : List Declaration) :
    match (groupDeclarations shader code ds).value with
    | .ok groups => Consistent ds ∧ Classified ds ∧ Grouped shader code ds groups
    | .error _ => ¬ (Consistent ds ∧ Classified ds) := by
  cases h : (groupDeclarations shader code ds).value with
  | ok groups =>
    obtain ⟨hconsistent, hclassified⟩ := exists_groupDeclarations_iff.1 ⟨groups, h⟩
    exact ⟨hconsistent, hclassified, grouped_of_eq_ok h⟩
  | error e =>
    intro hok
    obtain ⟨groups, hgroups⟩ := exists_groupDeclarations_iff.2 hok
    cases h.symm.trans hgroups

end Diorama.Shader

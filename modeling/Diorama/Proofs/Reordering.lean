import Mathlib.Data.List.Nodup
import Diorama.Proofs.Grouping

/-! Declarations may stand in any order.  In another order they make the same groups with the same
entries in the same slots, or fail as well; only the groups may change places.  The codes of the
stages decide about visibility and nothing else, so a declaration may also go from one stage to the
other. -/

namespace Diorama.Shader

open Declaration

variable {shader : String} {code code' : StageCode} {ds ds' members members' : List Declaration}
  {d : Declaration} {entry entry' : GroupEntry} {group group' : Group} {groups groups' : List Group}

def GroupEntry.seenIn (code : StageCode) (entry : GroupEntry) : GroupEntry :=
  { entry with visibility := code.visibility entry.name }

/-- The group with the visibilities that its entries have in `code`. -/
def Group.seenIn (code : StageCode) (group : Group) : Group :=
  { group with entries := group.entries.map (·.seenIn code) }

/-- The groups are the same but for their order. -/
structure SameGroups (groups groups' : List Group) : Prop where
  index_iff : ∀ i, i ∈ groups.map (·.index) ↔ i ∈ groups'.map (·.index)
  entries_eq : ∀ group ∈ groups, ∀ group' ∈ groups', group.index = group'.index →
    group.entries = group'.entries
  perm : groups.Perm groups'

/-! ### One group -/

theorem perm_eraseDups {l l' : List UInt32} (h : ∀ i, i ∈ l ↔ i ∈ l') :
    l.eraseDups.Perm l'.eraseDups := by
  rw [List.perm_ext_iff_of_nodup (nodup_eraseDups l) (nodup_eraseDups l')]
  intro i
  rw [List.mem_eraseDups, List.mem_eraseDups]
  exact h i

theorem Declaration.perm_bindings_of_perm (h : members.Perm members') :
    (bindings members).Perm (bindings members') :=
  perm_eraseDups fun _ => (h.map _).mem_iff

theorem Declaration.slot_eq_of_perm (h : members.Perm members') (binding : UInt32) :
    slot members binding = slot members' binding :=
  (perm_bindings_of_perm h).countP_eq _

/-- A declaration has one description for each code. -/
theorem GroupEntry.Describes.eq_seenIn (h : entry.Describes code members d)
    (h' : entry'.Describes code' members' d) (hperm : members.Perm members') :
    entry' = entry.seenIn code' := by
  obtain ⟨name, qualifier, datatype, tag, kind, visibility⟩ := entry
  obtain ⟨name', qualifier', datatype', tag', kind', vertex', fragment'⟩ := entry'
  obtain ⟨rfl, rfl, rfl, htag, hkind, -, -⟩ := h
  obtain ⟨rfl, rfl, rfl, htag', hkind', rfl, rfl⟩ := h'
  obtain rfl : kind' = kind := Option.some.inj (hkind'.symm.trans hkind)
  obtain rfl : tag' = tag := by
    apply Option.ext
    intro t
    rw [htag t, htag' t]
    simp only [hperm.mem_iff]
  rfl

/-- The slots of a group do not depend on the order of its members, and neither do their entries. -/
theorem Group.Collects.entries_eq (h : group.Collects shader code members)
    (h' : group'.Collects shader code' members') (hperm : members.Perm members') :
    group'.entries = group.entries.map (·.seenIn code') := by
  have hlength : group'.entries.length = group.entries.length := by
    rw [h.count, h'.count, (perm_bindings_of_perm hperm).length_eq]
  apply List.ext_getElem?
  intro i
  rw [List.getElem?_map]
  by_cases hi : i < group.entries.length
  · -- Each slot is that of some member, which both groups describe.
    obtain ⟨d, hd, rfl⟩ := h.declared i hi
    obtain ⟨entry, hentry, hdescribes⟩ := h.entry d hd
    obtain ⟨entry', hentry', hdescribes'⟩ := h'.entry d (hperm.mem_iff.1 hd)
    rw [slot_eq_of_perm hperm, hentry', ← slot_eq_of_perm hperm, hentry, Option.map_some,
      hdescribes.eq_seenIn hdescribes' hperm]
  · rw [List.getElem?_eq_none (by omega), List.getElem?_eq_none (by omega), Option.map_none]

/-! ### All groups -/

namespace Grouped

theorem eq_seenIn (h : Grouped shader code ds groups) (h' : Grouped shader code' ds' groups')
    (hperm : ds.Perm ds') (hgroup : group ∈ groups) (hgroup' : group' ∈ groups')
    (hindex : group.index = group'.index) : group' = group.seenIn code' := by
  have hcollects := h.collects group hgroup
  have hcollects' := h'.collects group' hgroup'
  have hentries := hcollects.entries_eq hcollects' (hindex ▸ hperm.filter _)
  obtain ⟨label, index, entries⟩ := group
  obtain ⟨label', index', entries'⟩ := group'
  obtain rfl : index = index' := hindex
  obtain rfl : label = label' := hcollects.label.trans hcollects'.label.symm
  obtain rfl : entries' = entries.map (·.seenIn code') := hentries
  rfl

/-- To see groups in the code that they were made for changes nothing. -/
theorem map_seenIn (h : Grouped shader code ds groups) : groups.map (·.seenIn code) = groups := by
  have hgroup : ∀ group ∈ groups, group.seenIn code = id group := fun group hgroup =>
    (h.eq_seenIn h (.refl ds) hgroup hgroup rfl).symm
  rw [List.map_congr_left hgroup, List.map_id]

/-- Declarations make only these groups. -/
theorem unique (h : Grouped shader code ds groups) (h' : Grouped shader code ds groups') :
    groups' = groups := by
  have hindices : groups'.map (·.index) = groups.map (·.index) :=
    h'.indices.trans h.indices.symm
  have hlength : groups'.length = groups.length := by
    simpa using congrArg List.length hindices
  apply List.ext_getElem hlength
  intro i hi' hi
  have hindex : groups[i].index = groups'[i].index := by
    have hsame := congrArg (·[i]?) hindices
    simpa [hi, hi', eq_comm] using hsame
  have hgroup := List.getElem_mem hi
  rw [h.eq_seenIn h' (.refl ds) hgroup (List.getElem_mem hi') hindex]
  exact (h.eq_seenIn h (.refl ds) hgroup hgroup rfl).symm

theorem index_iff (h : Grouped shader code ds groups) (h' : Grouped shader code' ds' groups')
    (hperm : ds.Perm ds') (i : UInt32) :
    i ∈ groups.map (·.index) ↔ i ∈ groups'.map (·.index) := by
  rw [h.indices, h'.indices, List.mem_eraseDups, List.mem_eraseDups]
  exact (hperm.map _).mem_iff

theorem sameGroups (h : Grouped shader code ds groups) (h' : Grouped shader code' ds' groups')
    (hperm : ds.Perm ds') : SameGroups (groups.map (·.seenIn code')) groups' := by
  have hindex := h.index_iff h' hperm
  have hmap : (groups.map (·.seenIn code')).map (·.index) = groups.map (·.index) := by
    rw [List.map_map]
    rfl
  refine ⟨fun i => by rw [hmap, hindex], ?_, ?_⟩
  · intro seen hseen group' hgroup' heq
    obtain ⟨group, hgroup, rfl⟩ := List.mem_map.1 hseen
    rw [h.eq_seenIn h' hperm hgroup hgroup' heq]
  · -- No index is there twice on either side, so it is enough that the members are the same.
    have hnodup : (groups.map (·.seenIn code')).Nodup := .of_map (·.index) (hmap ▸ h.distinct)
    rw [List.perm_ext_iff_of_nodup hnodup (.of_map (·.index) h'.distinct)]
    intro found
    rw [List.mem_map]
    constructor
    · rintro ⟨group, hgroup, rfl⟩
      obtain ⟨group', hgroup', heq⟩ :=
        List.mem_map.1 ((hindex group.index).1 (List.mem_map_of_mem hgroup))
      rwa [← h.eq_seenIn h' hperm hgroup hgroup' heq.symm]
    · intro hfound
      obtain ⟨group, hgroup, heq⟩ :=
        List.mem_map.1 ((hindex found.index).2 (List.mem_map_of_mem hfound))
      exact ⟨group, hgroup, (h.eq_seenIn h' hperm hgroup hfound heq).symm⟩

end Grouped

theorem consistent_iff_of_perm (h : ds.Perm ds') : Consistent ds ↔ Consistent ds' := by
  simp only [Consistent, h.mem_iff]

theorem classified_iff_of_perm (h : ds.Perm ds') : Classified ds ↔ Classified ds' := by
  simp only [Classified, h.mem_iff]

theorem exists_groupDeclarations_iff_of_perm (shader : String) (code code' : StageCode)
    (h : ds.Perm ds') :
    (∃ groups, (groupDeclarations shader code ds).value = .ok groups) ↔
      ∃ groups, (groupDeclarations shader code' ds').value = .ok groups := by
  rw [exists_groupDeclarations_iff, exists_groupDeclarations_iff, consistent_iff_of_perm h,
    classified_iff_of_perm h]

/-- Declarations in another order make the same groups, or fail as well.  In other code they make
the groups as they are seen there. -/
theorem groupDeclarations_perm (shader : String) (code code' : StageCode) (h : ds.Perm ds') :
    match (groupDeclarations shader code ds).value, (groupDeclarations shader code' ds').value with
    | .ok groups, .ok groups' => SameGroups (groups.map (·.seenIn code')) groups' ∧
        (code' = code → SameGroups groups groups')
    | .error _, .error _ => True
    | _, _ => False := by
  have hiff := exists_groupDeclarations_iff_of_perm shader code code' h
  cases hvalue : (groupDeclarations shader code ds).value with
  | ok groups =>
    cases hvalue' : (groupDeclarations shader code' ds').value with
    | ok groups' =>
      have hgrouped := grouped_of_eq_ok hvalue
      have hsame := hgrouped.sameGroups (grouped_of_eq_ok hvalue') h
      refine ⟨hsame, ?_⟩
      rintro rfl
      rwa [hgrouped.map_seenIn] at hsame
    | error e => simp [hvalue, hvalue'] at hiff
  | error e =>
    cases hvalue' : (groupDeclarations shader code' ds').value with
    | ok groups' => simp [hvalue, hvalue'] at hiff
    | error e' => trivial

/-- A matrix that is declared twice, once without its tag, and a sampler and a texture of another
group. -/
def matrixFirst : List Declaration :=
  [⟨1, 7, "var<uniform>", "m", "mat4x4f", none⟩, ⟨0, 4, "var", "s", "sampler", none⟩,
    ⟨1, 7, "var<uniform>", "m", "mat4x4f", some "view_matrix"⟩,
    ⟨0, 2, "var", "t", "texture_2d<f32>", none⟩]

def matrixCode : StageCode := ⟨"m", "s t"⟩

def matrixGroups : List Group :=
  [⟨groupLabel "s" 1, 1,
      [⟨"m", "var<uniform>", "mat4x4f", some "view_matrix", .uniform, ⟨true, false⟩⟩]⟩,
    ⟨groupLabel "s" 0, 0,
      [⟨"t", "var", "texture_2d<f32>", none, .texture, ⟨false, true⟩⟩,
        ⟨"s", "var", "sampler", none, .sampler, ⟨false, true⟩⟩]⟩]

theorem value_groupDeclarations_matrixFirst :
    (groupDeclarations "s" matrixCode matrixFirst).value = .ok matrixGroups := by
  let matrix : Declaration := ⟨1, 7, "var<uniform>", "m", "mat4x4f", none⟩
  let tagged : Declaration := { matrix with tag := some "view_matrix" }
  let sampler : Declaration := ⟨0, 4, "var", "s", "sampler", none⟩
  let texture : Declaration := ⟨0, 2, "var", "t", "texture_2d<f32>", none⟩
  have hgroups : byGroup matrixFirst = [(1, [matrix, tagged]), (0, [sampler, texture])] := by decide
  have hmatrix : sortByBinding [matrix, tagged] = [matrix, tagged] := by
    simp [sortByBinding, List.mergeSort, matrix, tagged]
  have htextures : sortByBinding [sampler, texture] = [texture, sampler] := by
    simp [sortByBinding, List.mergeSort, sampler, texture]
  rw [groupDeclarations, hgroups]
  simp only [Logged.traverse, Group.ofMembers, hmatrix, htextures]
  decide +kernel

/-- The other way round, the groups of the matrix and of the textures are the same. -/
theorem groupDeclarations_perm_reverse : matrixFirst.Perm matrixFirst.reverse ∧
    (groupDeclarations "s" matrixCode matrixFirst).value = .ok matrixGroups ∧
      ∃ groups, (groupDeclarations "s" matrixCode matrixFirst.reverse).value = .ok groups ∧
        SameGroups matrixGroups groups := by
  have hperm : matrixFirst.Perm matrixFirst.reverse := (List.reverse_perm _).symm
  have h := groupDeclarations_perm "s" matrixCode matrixCode hperm
  rw [value_groupDeclarations_matrixFirst] at h
  refine ⟨hperm, value_groupDeclarations_matrixFirst, ?_⟩
  cases hvalue : (groupDeclarations "s" matrixCode matrixFirst.reverse).value with
  | ok groups =>
    rw [hvalue] at h
    exact ⟨groups, rfl, h.2 rfl⟩
  | error e =>
    rw [hvalue] at h
    exact h.elim

end Diorama.Shader

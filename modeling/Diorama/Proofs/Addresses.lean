import Diorama.Proofs.Verdict
import Mathlib.Data.List.Perm.Subperm

/-! Where the entries of a shader are found.  A search gives each entry that it is for once, with
the group and the slot that lead back to it, and the slot of a tag leads to an entry that carries
the tag.  Binding a group reports its resources under the same slots. -/

namespace Diorama.Shader

variable {source : Source} {group : Group} {groups : List Group} {entry : GroupEntry}
  {p : GroupEntry → Bool} {tags : List Tag} {slot : TagSlot} {text : String}

namespace Source

/-- The place of the group `index` among the groups of a shader. -/
def placeOf (source : Source) (index : UInt32) : Nat := (source.groups.map (·.index)).idxOf index

/-- A hit stands in an earlier group than another, or in an earlier slot of the same group. -/
def Hit.Precedes (source : Source) (a b : Hit) : Prop :=
  source.placeOf a.group < source.placeOf b.group ∨ a.group = b.group ∧ a.slot < b.slot

/-- A hit leads to its entry, by the index of its group and a slot of 32 bits. -/
structure Hit.Addressed (source : Source) (hit : Hit) : Prop where
  slot_lt : hit.slot < UInt32.size
  entry_eq : ∃ group, source.group? hit.group = some group ∧
    group.entries[hit.slot]? = some hit.entry

/-- The hits are the entries for which `p` holds, each once and in order. -/
structure Finds (source : Source) (p : GroupEntry → Bool) (hits : List Hit) : Prop where
  once : ∀ group ∈ source.groups, ∀ (slot : Nat) (entry : GroupEntry),
    group.entries[slot]? = some entry →
      hits.count ⟨group.index, slot, entry⟩ = if p entry then 1 else 0
  addressed : ∀ hit ∈ hits, p hit.entry ∧ hit.Addressed source
  ordered : hits.Pairwise (Hit.Precedes source)

end Source

/-- The slot of a tag leads to `entry` in `group`, which carries the tag, and where the group is
bound, there is under the slot what is kept under the name of the entry, and nothing else. -/
structure TagSlot.Leads (source : Source) (slot : TagSlot) (group : Group) (entry : GroupEntry) :
    Prop where
  group_eq : source.group? slot.group = some group
  entry_eq : group.entries[slot.slot]? = some entry
  layout_eq : group.layout[slot.slot]? = some ⟨slot.slot, entry.visibility, entry.kind⟩
  name_eq : entry.name = slot.name
  tag_eq : entry.tag = some slot.tag.text
  /-- No other entry that carries the tag comes before. -/
  first : ∀ hit ∈ source.queryTag slot.tag.text,
    hit = ⟨slot.group, slot.slot, entry⟩ ∨
      Source.Hit.Precedes source ⟨slot.group, slot.slot, entry⟩ hit
  binds_iff : ∀ {α : Type} (kind : α → BindingKind) (resource? : String → Option α),
    (∃ bound, group.resolve kind resource? = .ok bound) ↔
      ∀ e ∈ group.entries, ∃ resource, resource? e.name = some resource ∧ kind resource = e.kind
  bound : ∀ {α : Type} (kind : α → BindingKind) (resource? : String → Option α) bound,
    group.resolve kind resource? = .ok bound → ∃ resource, resource? slot.name = some resource ∧
      kind resource = entry.kind ∧ ∀ other, (slot.slot, other) ∈ bound ↔ other = resource

/-! ### Slots of 32 bits -/

theorem length_le_of_nodup {words : List UInt32} (h : words.Nodup) :
    words.length ≤ UInt32.size := by
  have hnodup : (words.map UInt32.toNat).Nodup := h.map fun _ _ => UInt32.toNat_inj.1
  have hsubset : words.map UInt32.toNat ⊆ List.range UInt32.size := by
    intro n hn
    obtain ⟨word, -, rfl⟩ := List.mem_map.1 hn
    exact List.mem_range.2 word.toNat_lt
  simpa using (List.subperm_of_subset hnodup hsubset).length_le

/-- The entries of a group can be numbered in 32 bits, since their bindings are. -/
theorem Grouped.length_entries_le {shader : String} {code : StageCode} {ds : List Declaration}
    (h : Grouped shader code ds groups) (hgroup : group ∈ groups) :
    group.entries.length ≤ UInt32.size := by
  rw [(h.collects group hgroup).count]
  exact length_le_of_nodup (Declaration.nodup_eraseDups _)

namespace Source

/-! ### Searches -/

theorem Hit.Precedes.ne {a b : Hit} (h : Hit.Precedes source a b) : a ≠ b := by
  rintro rfl
  rcases h with hlt | ⟨-, hlt⟩
  · exact Nat.lt_irrefl _ hlt
  · exact Nat.lt_irrefl _ hlt

theorem Distinct.pairwise_placeOf (h : source.Distinct) :
    source.groups.Pairwise fun a b => source.placeOf a.index < source.placeOf b.index := by
  have hplace : ∀ (i : Nat) (hi : i < source.groups.length),
      source.placeOf source.groups[i].index = i := by
    intro i hi
    have hidx := List.Nodup.idxOf_getElem h i (by rwa [List.length_map])
    rwa [List.getElem_map] at hidx
  refine List.pairwise_iff_getElem.2 fun i j hi hj hlt => ?_
  rwa [hplace i hi, hplace j hj]

/-- The entries of the groups are hit in the order in which they stand. -/
theorem Distinct.pairwise_hits (h : source.Distinct) :
    (source.groups.flatMap hitsOf).Pairwise (Hit.Precedes source) := by
  refine List.pairwise_flatMap.2 ⟨fun group _ => ?_, h.pairwise_placeOf.imp fun hlt a ha b hb => ?_⟩
  · have hnumbers : (group.entries.zipIdx.map (·.2)).Pairwise (· < ·) := by
      rw [List.zipIdx_map_snd]
      exact List.pairwise_lt_range' 1
    rw [hitsOf, List.pairwise_map]
    exact (List.pairwise_map.1 hnumbers).imp fun hlt => .inr ⟨rfl, hlt⟩
  · rw [← (mem_hitsOf.1 ha).1, ← (mem_hitsOf.1 hb).1] at hlt
    exact .inl hlt

theorem Distinct.pairwise_query (h : source.Distinct) (p : GroupEntry → Bool) :
    (source.query p).Pairwise (Hit.Precedes source) :=
  h.pairwise_hits.filter _

theorem Distinct.finds (h : source.Distinct)
    (hnarrow : ∀ group ∈ source.groups, group.entries.length ≤ UInt32.size)
    (p : GroupEntry → Bool) : source.Finds p (source.query p) := by
  refine ⟨fun group hgroup slot entry hentry => ?_, fun hit hhit => ?_, h.pairwise_query p⟩
  · have hnodup : (source.query p).Nodup := (h.pairwise_query p).imp Hit.Precedes.ne
    have hmem : (⟨group.index, slot, entry⟩ : Hit) ∈ source.query p ↔ p entry = true := by
      rw [mem_query]
      exact ⟨fun hp => hp.1, fun hp => ⟨hp, group, hgroup, rfl, hentry⟩⟩
    rw [hnodup.count]
    simp only [hmem]
  · obtain ⟨hp, group, hgroup, hindex, hentry⟩ := mem_query.1 hhit
    obtain ⟨hlt, -⟩ := List.getElem?_eq_some_iff.1 hentry
    refine ⟨hp, Nat.lt_of_lt_of_le hlt (hnarrow group hgroup), group, ?_, hentry⟩
    rw [hindex, h.group?_index hgroup]

end Source

/-! ### Tags -/

theorem tag_eq_of_mem_queryTag {hit : Source.Hit} {tag : String}
    (h : hit ∈ source.queryTag tag) : hit.entry.tag = some tag := by
  simpa using (Source.mem_query.1 h).1

theorem map_tag_tagSlots (source : Source) (tags : List Tag) :
    (tagSlots source tags).value.map (·.tag) =
      tags.filter fun tag => Carries source.groups tag.text := by
  induction tags with
  | nil => rfl
  | cons tag tags ih =>
    rw [tagSlots_cons, List.map_append, ih, List.filter_cons]
    cases hhits : source.queryTag tag.text with
    | nil =>
      have hnone := Source.queryTag_eq_nil_iff.1 hhits
      simp [hnone]
    | cons hit hits =>
      have hcarries : Carries source.groups tag.text := by
        by_contra hnone
        cases hhits.symm.trans (Source.queryTag_eq_nil_iff.2 hnone)
      simp [hcarries]

/-- A bound group has one resource under the number of each of its slots. -/
theorem Group.Holds.mem_iff {α : Type} {kind : α → BindingKind} {resource? : String → Option α}
    {bound : List (Nat × α)} {i : Nat} (h : group.Holds kind resource? bound)
    (hentry : group.entries[i]? = some entry) :
    ∃ resource, resource? entry.name = some resource ∧ kind resource = entry.kind ∧
      ∀ other, (i, other) ∈ bound ↔ other = resource := by
  obtain ⟨resource, hslot, hresource, hkind⟩ := h.slot i entry hentry
  refine ⟨resource, hresource, hkind, fun other => ⟨fun hmem => ?_, ?_⟩⟩
  · -- A pair with the number `i` stands at `i`.
    obtain ⟨j, hj⟩ := List.getElem?_of_mem hmem
    obtain ⟨hlt, -⟩ := List.getElem?_eq_some_iff.1 hj
    rw [h.length_eq] at hlt
    obtain ⟨found, hfound, -⟩ := h.slot j _ (List.getElem?_eq_getElem hlt)
    have hpair := Option.some.inj (hfound.symm.trans hj)
    obtain rfl : j = i := congrArg Prod.fst hpair
    exact (congrArg Prod.snd (Option.some.inj (hslot.symm.trans hj))).symm
  · rintro rfl
    exact List.mem_of_getElem? hslot

theorem Source.Distinct.leads (h : source.Distinct) (hslot : slot ∈ (tagSlots source tags).value) :
    ∃ group entry, slot.Leads source group entry := by
  obtain ⟨-, hit, hhit, heq⟩ := mem_tagSlots.1 hslot
  have hmem := List.mem_of_head? hhit
  obtain ⟨-, group, hgroup, hindex, hentry⟩ := Source.mem_query.1 hmem
  have hname : hit.entry.name = slot.name := by rw [heq]
  have hgroup_eq : slot.group = hit.group := by rw [heq]
  have hslot_eq : slot.slot = hit.slot := by rw [heq]
  rw [← hgroup_eq] at hindex
  rw [← hslot_eq] at hentry
  refine ⟨group, hit.entry, ?_, hentry, ?_, hname, tag_eq_of_mem_queryTag hmem,
    fun other hother => ?_, fun kind resource? => group.exists_resolve_iff,
    fun kind resource? bound hbound => ?_⟩
  · rw [hindex, h.group?_index hgroup]
  · simp [Group.layout, hentry]
  · rw [hgroup_eq, hslot_eq]
    obtain ⟨rest, hrest⟩ := List.head?_eq_some_iff.1 hhit
    have hpairwise := h.pairwise_query fun entry => entry.tag == some slot.tag.text
    change (source.queryTag slot.tag.text).Pairwise _ at hpairwise
    rw [hrest] at hother hpairwise
    rcases List.mem_cons.1 hother with rfl | hother
    · exact .inl rfl
    · exact .inr ((List.pairwise_cons.1 hpairwise).1 other hother)
  · rw [← hname]
    exact (Group.holds_of_resolve hbound).mem_iff hentry

/-- In a shader that was read, what a search gives leads back to the entries, and so do the slots of
tags. -/
theorem query_addresses (h : (Source.parse text).value = some (.ok source)) :
    (∀ p, source.Finds p (source.query p)) ∧
      ∀ tags, (tagSlots source tags).value.map (·.tag) =
          tags.filter (fun tag => Carries source.groups tag.text) ∧
        ∀ slot ∈ (tagSlots source tags).value, ∃ group entry, slot.Leads source group entry := by
  have hdistinct := Source.distinct_of_parse h
  refine ⟨hdistinct.finds fun group hgroup => ?_, fun tags =>
    ⟨map_tag_tagSlots source tags, fun slot => hdistinct.leads⟩⟩
  obtain ⟨stripped, document, vertex, fragment, attributes, groups, -, -, hgroups, hchecked⟩ :=
    Source.value_parse_eq_ok_iff.1 h
  obtain rfl := Source.eq_of_checked hchecked
  exact (grouped_of_eq_ok hgroups).length_entries_le hgroup

def spreadVertex : String :=
  "[\"s\",[\"v\",\"\n@tag(view_matrix) @group(3) @binding(9) var<uniform> v: f32;\n" ++
    "@group(3) @binding(2) var<uniform> p: f32;\n\"],"

def spreadFragment : String :=
  "[\"f\",\"\n@tag(albedo_texture) @group(0) @binding(0) var t: texture_2d<f32>;\n" ++
    "@tag(view_matrix) @group(3) @binding(20) var<uniform> w: f32;\n\"]]"

/-- A text whose last group has three entries, declared out of order, two of them with one tag. -/
def spread : String := spreadVertex ++ spreadFragment

def spreadGroups : List Group :=
  [⟨groupLabel "s" 3, 3,
      [⟨"p", "var<uniform>", "f32", none, .uniform, ⟨true, false⟩⟩,
        ⟨"v", "var<uniform>", "f32", some "view_matrix", .uniform, ⟨true, false⟩⟩,
        ⟨"w", "var<uniform>", "f32", some "view_matrix", .uniform, ⟨false, true⟩⟩]⟩,
    ⟨groupLabel "s" 0, 0,
      [⟨"t", "var", "texture_2d<f32>", some "albedo_texture", .texture, ⟨false, true⟩⟩]⟩]

def spreadSource : Source where
  name := "s"
  vertex := ⟨"v", "  @group(3) @binding(9) var<uniform> v: f32; " ++
    "@group(3) @binding(2) var<uniform> p: f32; "⟩
  fragment := ⟨"f", "  @group(0) @binding(0) var t: texture_2d<f32>; " ++
    " @group(3) @binding(20) var<uniform> w: f32; "⟩
  groupNames := []
  requires := []
  attributes := []
  groups := spreadGroups

theorem value_parse_spread : (Source.parse spread).value = some (.ok spreadSource) := by
  let v : Declaration := ⟨3, 9, "var<uniform>", "v", "f32", some "view_matrix"⟩
  let p : Declaration := ⟨3, 2, "var<uniform>", "p", "f32", none⟩
  let t : Declaration := ⟨0, 0, "var", "t", "texture_2d<f32>", some "albedo_texture"⟩
  let w : Declaration := ⟨3, 20, "var<uniform>", "w", "f32", some "view_matrix"⟩
  -- The letters of the whole text at once would take long to evaluate.
  have hletters : spread.toList = spreadVertex.toList ++ spreadFragment.toList :=
    String.toList_append
  have hread : declarationsOf (stripComments spread.toList) = [v, p, t, w] ∧
      (stripAnnotations? (stripComments spread.toList)).map
          (headOf · (inputsOf (stripComments spread.toList))) =
        some (.ok (⟨"s", some spreadSource.vertex, some spreadSource.fragment, [], []⟩,
          spreadSource.vertex, spreadSource.fragment, [])) := by
    rw [hletters]
    decide +kernel
  obtain ⟨hdeclared, hhead⟩ := hread
  obtain ⟨stripped, hstripped, hhead⟩ := Option.map_eq_some_iff.1 hhead
  have hgroups : (groupDeclarations "s" ⟨spreadSource.vertex.code, spreadSource.fragment.code⟩
      (declarationsOf (stripComments spread.toList))).value = .ok spreadGroups := by
    have hmembers : Declaration.byGroup [v, p, t, w] = [(3, [v, p, w]), (0, [t])] := by decide
    have hsorted : Declaration.sortByBinding [v, p, w] = [p, v, w] := by
      simp [Declaration.sortByBinding, List.mergeSort, v, p, w]
    have halone : Declaration.sortByBinding [t] = [t] := List.mergeSort_singleton t
    rw [hdeclared, groupDeclarations, hmembers]
    simp only [Logged.traverse, Group.ofMembers, hsorted, halone]
    decide +kernel
  rw [Source.value_parse_eq, hstripped, Option.map_some, Source.resultOf, Source.value_assemble]
  exact congrArg some
    (bind_eq_ok_iff.2 ⟨_, hhead, bind_eq_ok_iff.2 ⟨_, hgroups, by decide +kernel⟩⟩)

theorem query_addresses_spread : (Source.parse spread).value = some (.ok spreadSource) ∧
    spreadSource.Finds (fun entry => entry.kind = .uniform)
        [⟨3, 0, ⟨"p", "var<uniform>", "f32", none, .uniform, ⟨true, false⟩⟩⟩,
          ⟨3, 1, ⟨"v", "var<uniform>", "f32", some "view_matrix", .uniform, ⟨true, false⟩⟩⟩,
          ⟨3, 2, ⟨"w", "var<uniform>", "f32", some "view_matrix", .uniform, ⟨false, true⟩⟩⟩] ∧
      (tagSlots spreadSource [.view, .localToWorld, .albedoTexture]).value =
          [⟨.view, 3, 1, "v"⟩, ⟨.albedoTexture, 0, 0, "t"⟩] ∧
        ∃ group entry, TagSlot.Leads spreadSource ⟨.view, 3, 1, "v"⟩ group entry := by
  obtain ⟨hfinds, hslots⟩ := query_addresses value_parse_spread
  have htags : (tagSlots spreadSource [.view, .localToWorld, .albedoTexture]).value =
      [⟨.view, 3, 1, "v"⟩, ⟨.albedoTexture, 0, 0, "t"⟩] := by decide +kernel
  refine ⟨value_parse_spread, hfinds _, htags, ?_⟩
  have hleads := (hslots [.view, .localToWorld, .albedoTexture]).2
  rw [htags] at hleads
  exact hleads _ List.mem_cons_self

end Diorama.Shader

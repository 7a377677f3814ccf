import Diorama.Proofs.Slots

/-! The limit of a device on the groups of a shader.  A shader is refused if one of its groups is at
or beyond the limit, and else has a layout at each index up to the greatest, as long as every index
has a successor in 32 bits; with a group of the last index there is no result, for any limit. -/

namespace Diorama.Shader

variable {source : Source} {shader : Compiled} {group last : Group} {limit : UInt32} {text : String}

namespace Source

/-- No group has a greater index. -/
structure Greatest (source : Source) (last : Group) : Prop where
  mem : last ∈ source.groups
  le : ∀ group ∈ source.groups, group.index ≤ last.index

/-- Each group can be counted: its index is not the last of all. -/
def Countable (source : Source) : Prop := ∀ group ∈ source.groups, group.index ≠ 0xFFFFFFFF

instance (source : Source) : Decidable source.Countable :=
  inferInstanceAs (Decidable (∀ group ∈ source.groups, group.index ≠ 0xFFFFFFFF))

/-- There is a layout for each index up to the greatest, with an entry for each slot of the index's
group, and none where there is no group. -/
structure LaysOut (source : Source) (shader : Compiled) : Prop where
  source_eq : shader.source = source
  length_eq : source.groups = [] ∧ shader.layouts.length = 0 ∨
    ∃ last, source.Greatest last ∧ shader.layouts.length = last.index.toNat + 1
  declared : ∀ group ∈ source.groups, ∃ layout, shader.layout? group.index = some layout ∧
    layout.length = group.entries.length ∧
      ∀ (slot : Nat) (entry : GroupEntry), group.entries[slot]? = some entry →
        layout[slot]? = some ⟨slot, entry.visibility, entry.kind⟩
  undeclared : ∀ index < shader.layouts.length,
    (∀ group ∈ source.groups, group.index.toNat ≠ index) → shader.layouts[index]? = some []

/-- A shader is refused with its greatest index if a group does not fit in the limit, and else laid
out. -/
structure KeepsLimit (source : Source) (limit : UInt32)
    (result : Option (Except ShaderError Compiled)) : Prop where
  refused : (∃ group ∈ source.groups, limit ≤ group.index) → ∃ last, source.Greatest last ∧
    result = some (.error (.tooManyGroups source.name last.index limit))
  accepted : (∀ group ∈ source.groups, group.index < limit) →
    ∃ shader, result = some (.ok shader) ∧ source.LaysOut shader

/-! ### Counting groups -/

theorem isSome_groupCount?_iff : source.groupCount?.isSome ↔ source.Countable := by
  rw [groupCount?, Option.isSome_map, isSome_mapM_iff]
  simp only [Word.isSome_succ?_iff, Countable]

theorem foldl_max_eq (counts : List UInt32) (count : UInt32) :
    counts.foldl max count = count ∨ counts.foldl max count ∈ counts := by
  induction counts generalizing count with
  | nil => exact .inl rfl
  | cons first rest ih =>
    rw [List.foldl_cons, List.mem_cons]
    rcases ih (max count first) with h | h
    · rw [h, show max count first = if count ≤ first then first else count from rfl]
      split
      · exact .inr (.inl rfl)
      · exact .inl rfl
    · exact .inr (.inr h)

/-- The number of groups is 0 without groups, and else one more than the greatest index. -/
theorem groupCount?_cases {count : UInt32} (h : source.groupCount? = some count) :
    source.groups = [] ∧ count = 0 ∨
      ∃ last, source.Greatest last ∧ count.toNat = last.index.toNat + 1 := by
  obtain ⟨counts, hcounts, hcount⟩ := Option.map_eq_some_iff.1 h
  rcases foldl_max_eq counts 0 with hzero | hmem
  · left
    obtain rfl : 0 = count := hzero.symm.trans hcount
    refine ⟨List.eq_nil_iff_forall_not_mem.2 fun group hgroup => ?_, rfl⟩
    exact absurd (toNat_index_lt h hgroup) (Nat.not_lt_zero _)
  · right
    rw [hcount] at hmem
    obtain ⟨last, hlast, hnext⟩ := (mem_iff_of_mapM_eq_some hcounts).1 hmem
    rw [Word.succ?_eq_some_iff] at hnext
    refine ⟨last, ⟨hlast, fun group hgroup => ?_⟩, hnext⟩
    have hlt := toNat_index_lt h hgroup
    rw [UInt32.le_iff_toNat_le]
    omega

/-! ### Layouts -/

theorem getElem?_layout {slot : Nat} {entry : GroupEntry} (h : group.entries[slot]? = some entry) :
    group.layout[slot]? = some ⟨slot, entry.visibility, entry.kind⟩ := by
  simp [Group.layout, h]

theorem layoutOf_index (h : source.Distinct) (hgroup : group ∈ source.groups) :
    source.layoutOf group.index.toNat = group.layout := by
  rw [layoutOf, UInt32.ofNat_toNat, h.group?_index hgroup]
  rfl

theorem layoutOf_eq_nil {index : Nat} (hindex : index < UInt32.size)
    (h : ∀ group ∈ source.groups, group.index.toNat ≠ index) : source.layoutOf index = [] := by
  have hnone : source.group? (UInt32.ofNat index) = none := by
    rw [group?, List.find?_eq_none]
    intro group hgroup heq
    apply h group hgroup
    rw [eq_of_beq heq, UInt32.toNat_ofNat_of_lt' hindex]
  rw [layoutOf, hnone]
  rfl

theorem laysOut (hdistinct : source.Distinct) {count : UInt32}
    (h : source.groupCount? = some count) :
    source.LaysOut ⟨source, (List.range count.toNat).map source.layoutOf⟩ where
  source_eq := rfl
  length_eq := by
    rw [List.length_map, List.length_range]
    rcases groupCount?_cases h with ⟨hnil, rfl⟩ | ⟨last, hlast, hcount⟩
    · exact .inl ⟨hnil, rfl⟩
    · exact .inr ⟨last, hlast, hcount⟩
  declared group hgroup := by
    refine ⟨group.layout, ?_, by simp [Group.layout], fun slot entry => getElem?_layout⟩
    rw [Compiled.layout?, List.getElem?_map, List.getElem?_range (toNat_index_lt h hgroup),
      Option.map_some, layoutOf_index hdistinct hgroup]
  undeclared index hindex hnone := by
    rw [List.length_map, List.length_range] at hindex
    rw [List.getElem?_map, List.getElem?_range hindex, Option.map_some,
      layoutOf_eq_nil (Nat.lt_trans hindex count.toNat_lt_size) hnone]

/-! ### Limits -/

theorem keepsLimit_of_groupCount? (hdistinct : source.Distinct) {count : UInt32}
    (h : source.groupCount? = some count) (limit : UInt32) :
    source.KeepsLimit limit (source.compile limit) := by
  constructor
  · rintro ⟨group, hgroup, hlimit⟩
    have hlt := toNat_index_lt h hgroup
    rw [UInt32.le_iff_toNat_le] at hlimit
    rcases groupCount?_cases h with ⟨hnil, -⟩ | ⟨last, hlast, hcount⟩
    · simp [hnil] at hgroup
    · have hover : limit < count := by
        rw [UInt32.lt_iff_toNat_lt]
        omega
      have hindex : count - 1 = last.index := by
        apply UInt32.toNat_inj.1
        rw [UInt32.toNat_sub_of_le _ _ (UInt32.le_iff_toNat_le.2 (by simp; omega)), hcount]
        rfl
      exact ⟨last, hlast, by rw [compile, h, Option.map_some, if_pos hover, hindex]⟩
  · intro hall
    refine ⟨_, compile_eq_ok_iff.2 ⟨count, h, ?_, rfl⟩, laysOut hdistinct h⟩
    rw [UInt32.le_iff_toNat_le]
    rcases groupCount?_cases h with ⟨-, rfl⟩ | ⟨last, hlast, hcount⟩
    · exact Nat.zero_le _
    · have hlt := hall last hlast.mem
      rw [UInt32.lt_iff_toNat_lt] at hlt
      omega

/-- With a group of the last index there is no result, and that group is at or beyond each limit. -/
theorem compile_of_not_countable (h : ¬source.Countable) (limit : UInt32) :
    source.compile limit = none ∧ ∃ group ∈ source.groups, limit ≤ group.index := by
  refine ⟨?_, ?_⟩
  · rw [← isSome_groupCount?_iff, Option.not_isSome_iff_eq_none] at h
    rw [compile, h, Option.map_none]
  · simp only [Countable, not_forall, Classical.not_not] at h
    obtain ⟨group, hgroup, hindex⟩ := h
    have hlt := limit.toNat_lt
    have hlast : group.index.toNat = 4294967295 := congrArg UInt32.toNat hindex
    refine ⟨group, hgroup, ?_⟩
    rw [UInt32.le_iff_toNat_le]
    omega

/-- A shader keeps to a limit exactly where its groups can be counted. -/
theorem keepsLimit_iff (hdistinct : source.Distinct) (limit : UInt32) :
    source.KeepsLimit limit (source.compile limit) ↔ source.Countable := by
  constructor
  · intro h
    by_contra hnot
    obtain ⟨hnone, hover⟩ := compile_of_not_countable hnot limit
    obtain ⟨last, -, herror⟩ := h.refused hover
    cases hnone.symm.trans herror
  · intro hcountable
    obtain ⟨count, hcount⟩ := Option.isSome_iff_exists.1 (isSome_groupCount?_iff.2 hcountable)
    exact keepsLimit_of_groupCount? hdistinct hcount limit

end Source

theorem value_compile_eq (h : (Source.parse text).value = some (.ok source)) (limit : UInt32) :
    (compile limit text).value = source.compile limit := by
  rw [compile, Logged.value_bind, h]
  rfl

/-- A shader keeps to the limit of each device exactly if none of its groups has the last index. -/
theorem compile_keepsLimit_iff (h : (Source.parse text).value = some (.ok source))
    (limit : UInt32) : source.KeepsLimit limit (compile limit text).value ↔ source.Countable := by
  rw [value_compile_eq h]
  exact Source.keepsLimit_iff (Source.distinct_of_parse h) limit

/-- A matrix in group 4, and behind it a sampler in a group that can be chosen. -/
def twoGroups (index : String) : String :=
  "[\"s\",[\"v\",\"\n@group(4) @binding(0) var<uniform> m: mat4x4f;\n@group(" ++ index ++
    ") @binding(9) var t: sampler;\n\"],[\"f\",\"\"]]"

def twoGroupsSource (digits : String) (index : UInt32) : Source :=
  ⟨"s", ⟨"v", " @group(4) @binding(0) var<uniform> m: mat4x4f; @group(" ++ digits ++
      ") @binding(9) var t: sampler; "⟩, ⟨"f", ""⟩, [], [], [],
    [⟨groupLabel "s" 4, 4, [⟨"m", "var<uniform>", "mat4x4f", none, .uniform, ⟨true, false⟩⟩]⟩,
      ⟨groupLabel "s" index, index, [⟨"t", "var", "sampler", none, .sampler, ⟨true, false⟩⟩]⟩]⟩

/-- Five layouts, of which three are of no group, on a device that has room for them. -/
theorem compile_keepsLimit_iff_five :
    (Source.parse (twoGroups "0")).value = some (.ok (twoGroupsSource "0" 0)) ∧
      (twoGroupsSource "0" 0).Countable ∧
        (twoGroupsSource "0" 0).KeepsLimit 5 (compile 5 (twoGroups "0")).value ∧
          (compile 5 (twoGroups "0")).value = some (.ok ⟨twoGroupsSource "0" 0,
            [[⟨0, ⟨true, false⟩, .sampler⟩], [], [], [], [⟨0, ⟨true, false⟩, .uniform⟩]]⟩) := by
  have hparse : (Source.parse (twoGroups "0")).value = some (.ok (twoGroupsSource "0" 0)) := by
    decide +kernel
  have hcount : (twoGroupsSource "0" 0).Countable := by decide
  refine ⟨hparse, hcount, (compile_keepsLimit_iff hparse 5).2 hcount, ?_⟩
  rw [value_compile_eq hparse]
  decide +kernel

/-- With a group of the last index there is no result on any device, and so no refusal. -/
theorem not_keepsLimit_last :
    (Source.parse (twoGroups "4294967295")).value =
        some (.ok (twoGroupsSource "4294967295" 0xFFFFFFFF)) ∧
      ∀ limit, (compile limit (twoGroups "4294967295")).value = none ∧
        ¬(twoGroupsSource "4294967295" 0xFFFFFFFF).KeepsLimit limit
            (compile limit (twoGroups "4294967295")).value := by
  have hparse : (Source.parse (twoGroups "4294967295")).value =
      some (.ok (twoGroupsSource "4294967295" 0xFFFFFFFF)) := by
    decide +kernel
  have hnot : ¬(twoGroupsSource "4294967295" 0xFFFFFFFF).Countable := by decide
  refine ⟨hparse, fun limit => ?_⟩
  rw [value_compile_eq hparse, Source.keepsLimit_iff (Source.distinct_of_parse hparse)]
  exact ⟨(Source.compile_of_not_countable hnot limit).1, hnot⟩

end Diorama.Shader

import Mathlib.Data.List.Nodup
import Diorama.Proofs.Grouping
import Diorama.Shader.Layout

/-! Where things stand in a shader: a search gives the entries with the group and slot that hold
them, a tag's slot is that of an entry that carries the tag, and a bound group has a resource of the
right kind in the slot of each entry.  In a shader that was read, no two groups have one index, so
that the group of a slot is the one that its index names. -/

namespace Diorama.Shader

/-! ### Groups by index -/

namespace Source

variable {source : Source} {group : Group} {text : String}

/-- No two groups have one index. -/
def Distinct (source : Source) : Prop := (source.groups.map (·.index)).Nodup

theorem value_assemble (stripped : List Char) (declarations : List Declaration)
    (inputs : List VertexInput) : (assemble stripped declarations inputs).value = (do
      let (document, vertex, fragment, attributes) ← headOf stripped inputs
      let groups ←
        (groupDeclarations document.name ⟨vertex.code, fragment.code⟩ declarations).value
      checked ⟨document.name, vertex, fragment, document.groupNames, document.requires, attributes,
        groups⟩) := by
  unfold assemble
  cases headOf stripped inputs with
  | error e => rfl
  | ok head =>
    obtain ⟨document, vertex, fragment, attributes⟩ := head
    simp only [bind, Except.bind]
    cases (groupDeclarations document.name ⟨vertex.code, fragment.code⟩ declarations).value <;> rfl

/-- A text is read without its annotations, where these can be stripped. -/
theorem value_parse (text : String) : (parse text).value =
    (stripAnnotations? (stripComments text.toList)).map fun stripped =>
      (assemble stripped (declarationsIn (Text.lines (stripComments text.toList))).value
        (inputsIn [] (Text.lines (stripComments text.toList))).value).value := by
  simp only [parse, Logged.value_bind]
  cases stripAnnotations? (stripComments text.toList) <;> rfl

theorem value_parse_eq_ok_iff : (parse text).value = some (.ok source) ↔
    ∃ stripped document vertex fragment attributes groups,
      let raw := stripComments text.toList
      stripAnnotations? raw = some stripped ∧
        headOf stripped (inputsIn [] (Text.lines raw)).value =
          .ok (document, vertex, fragment, attributes) ∧
        (groupDeclarations document.name ⟨vertex.code, fragment.code⟩
          (declarationsIn (Text.lines raw)).value).value = .ok groups ∧
          checked ⟨document.name, vertex, fragment, document.groupNames, document.requires,
            attributes, groups⟩ = .ok source := by
  simp only [value_parse, Option.map_eq_some_iff, value_assemble, bind_eq_ok_iff, Prod.exists,
    exists_and_left]

theorem eq_of_checked {accepted : Source} (h : source.checked = .ok accepted) :
    accepted = source := by
  unfold checked at h
  split at h
  · exact (Except.ok.inj h).symm
  · cases h

theorem distinct_of_parse (h : (parse text).value = some (.ok source)) : source.Distinct := by
  obtain ⟨stripped, document, vertex, fragment, attributes, groups, -, -, hgroups, hchecked⟩ :=
    value_parse_eq_ok_iff.1 h
  rw [eq_of_checked hchecked]
  exact (grouped_of_eq_ok hgroups).distinct

theorem mem_of_group? {index : UInt32} (h : source.group? index = some group) :
    group ∈ source.groups ∧ group.index = index := by
  refine ⟨List.mem_of_find?_eq_some h, ?_⟩
  simpa using List.find?_some h

theorem Distinct.group?_index (h : source.Distinct) (hgroup : group ∈ source.groups) :
    source.group? group.index = some group := by
  have hfound : (source.group? group.index).isSome := by
    rw [group?, List.find?_isSome]
    exact ⟨group, hgroup, by simp⟩
  obtain ⟨found, hfound⟩ := Option.isSome_iff_exists.1 hfound
  obtain ⟨hmem, hindex⟩ := mem_of_group? hfound
  rw [hfound, List.inj_on_of_nodup_map h hmem hgroup hindex]

/-! ### Entries by search -/

theorem mem_hitsOf {hit : Hit} : hit ∈ hitsOf group ↔
    hit.group = group.index ∧ group.entries[hit.slot]? = some hit.entry := by
  obtain ⟨index, slot, entry⟩ := hit
  simp only [hitsOf, List.mem_map, Prod.exists, List.mk_mem_zipIdx_iff_getElem?, Hit.mk.injEq]
  constructor
  · rintro ⟨entry, slot, hentry, rfl, rfl, rfl⟩
    exact ⟨rfl, hentry⟩
  · rintro ⟨rfl, hentry⟩
    exact ⟨entry, slot, hentry, rfl, rfl, rfl⟩

theorem mem_query {hit : Hit} {p : GroupEntry → Bool} : hit ∈ source.query p ↔
    p hit.entry ∧ ∃ group ∈ source.groups,
      hit.group = group.index ∧ group.entries[hit.slot]? = some hit.entry := by
  simp only [query, List.mem_filter, List.mem_flatMap, mem_hitsOf]
  exact and_comm

end Source

/-! ### Slots of tags -/

section Tags

variable {source : Source} {tags : List Tag} {tag : Tag} {slot : TagSlot}

theorem tagSlots_cons (tag : Tag) (tags : List Tag) : (tagSlots source (tag :: tags)).value =
    ((source.queryTag tag.text).head?.map fun hit =>
      ⟨tag, hit.group, hit.slot, hit.entry.name⟩).toList ++ (tagSlots source tags).value := by
  rw [tagSlots]
  cases source.queryTag tag.text <;> simp

theorem mem_tagSlots : slot ∈ (tagSlots source tags).value ↔ slot.tag ∈ tags ∧
    ∃ hit, (source.queryTag slot.tag.text).head? = some hit ∧
      slot = ⟨slot.tag, hit.group, hit.slot, hit.entry.name⟩ := by
  induction tags with
  | nil => simp [tagSlots]
  | cons tag tags ih =>
    rw [tagSlots_cons, List.mem_append, ih, List.mem_cons, or_and_right]
    refine or_congr_left ?_
    simp only [Option.mem_toList, Option.map_eq_some_iff]
    constructor
    · rintro ⟨hit, hhit, rfl⟩
      exact ⟨rfl, hit, hhit, rfl⟩
    · rintro ⟨rfl, hit, hhit, hslot⟩
      exact ⟨hit, hhit, hslot.symm⟩

theorem mem_of_slotOf? {slots : List TagSlot} (h : slotOf? slots tag = some slot) :
    slot ∈ slots ∧ slot.tag = tag := by
  refine ⟨List.mem_of_find?_eq_some h, ?_⟩
  simpa using List.find?_some h

/-- The slot of a tag holds an entry of the slot's name that carries the tag. -/
theorem entry_of_slotOf? (h : slotOf? (tagSlots source tags).value tag = some slot) :
    tag ∈ tags ∧ ∃ group ∈ source.groups, group.index = slot.group ∧
      ∃ entry, group.entries[slot.slot]? = some entry ∧ entry.name = slot.name ∧
        entry.tag = some tag.text := by
  obtain ⟨hmem, rfl⟩ := mem_of_slotOf? h
  obtain ⟨htag, hit, hhit, hslot⟩ := mem_tagSlots.1 hmem
  obtain ⟨hcarries, group, hgroup, hindex, hentry⟩ :=
    Source.mem_query.1 (List.mem_of_head? hhit)
  rw [hslot]
  exact ⟨htag, group, hgroup, hindex.symm, hit.entry, hentry, rfl, by simpa using hcarries⟩

/-- The entry in the slot of a tag. -/
def TagSlot.entry? (slot : TagSlot) (source : Source) : Option GroupEntry :=
  (source.group? slot.group).bind fun group => group.entries[slot.slot]?

theorem entry?_of_slotOf? (hsource : source.Distinct)
    (h : slotOf? (tagSlots source tags).value tag = some slot) :
    ∃ entry, slot.entry? source = some entry ∧ entry.name = slot.name ∧
      entry.tag = some tag.text := by
  obtain ⟨-, group, hgroup, hindex, entry, hentry, hname, htag⟩ := entry_of_slotOf? h
  refine ⟨entry, ?_, hname, htag⟩
  rw [TagSlot.entry?, ← hindex, hsource.group?_index hgroup]
  exact hentry

end Tags

/-! ### Bound groups -/

namespace Group

variable {α : Type} {kind : α → BindingKind} {resource? : String → Option α} {group : Group}
  {entry : GroupEntry} {bound : List (Nat × α)}

/-- A group is bound in the order of its slots, to the resources under the names of its entries,
each of its entry's kind. -/
structure Holds (kind : α → BindingKind) (resource? : String → Option α) (group : Group)
    (bound : List (Nat × α)) : Prop where
  length_eq : bound.length = group.entries.length
  slot : ∀ (i : Nat) (entry : GroupEntry), group.entries[i]? = some entry → ∃ resource,
    bound[i]? = some (i, resource) ∧ resource? entry.name = some resource ∧
      kind resource = entry.kind

theorem pick_eq_ok_iff {label : String} {resource : α} :
    entry.pick kind resource? label = .ok resource ↔
      resource? entry.name = some resource ∧ kind resource = entry.kind := by
  unfold GroupEntry.pick
  cases resource? entry.name with
  | none => simp
  | some found =>
    rw [Option.some.injEq]
    dsimp only
    by_cases hkind : kind found = entry.kind
    · rw [if_pos hkind, Except.ok.injEq]
      exact ⟨fun h => ⟨h, h ▸ hkind⟩, fun h => h.1⟩
    · rw [if_neg hkind]
      constructor
      · rintro ⟨⟩
      · rintro ⟨rfl, h⟩
        exact absurd h hkind

theorem exists_resolve_iff : (∃ bound, group.resolve kind resource? = .ok bound) ↔
    ∀ entry ∈ group.entries, ∃ resource, resource? entry.name = some resource ∧
      kind resource = entry.kind := by
  simp only [resolve, exists_mapM_eq_ok_iff, Prod.forall, List.mk_mem_zipIdx_iff_getElem?,
    bind_eq_ok_iff, pick_eq_ok_iff]
  constructor
  · intro h entry hentry
    obtain ⟨i, hi⟩ := List.getElem?_of_mem hentry
    obtain ⟨-, resource, hresource, -⟩ := h entry i hi
    exact ⟨resource, hresource⟩
  · intro h entry i hi
    obtain ⟨resource, hresource⟩ := h entry (List.mem_of_getElem? hi)
    exact ⟨(i, resource), resource, hresource, rfl⟩

theorem holds_of_resolve (h : group.resolve kind resource? = .ok bound) :
    group.Holds kind resource? bound := by
  have hmap := mapM_eq_ok_iff.1 h
  have hlength : bound.length = group.entries.length := by
    simpa using (congrArg List.length hmap).symm
  refine ⟨hlength, fun i entry hentry => ?_⟩
  have hi := congrArg (·[i]?) hmap
  simp only [List.getElem?_map, List.getElem?_zipIdx, hentry, Option.map_some, Nat.zero_add] at hi
  obtain ⟨pair, hpair, hvalue⟩ := Option.map_eq_some_iff.1 hi.symm
  obtain ⟨resource, hresource, hpure⟩ := bind_eq_ok_iff.1 hvalue.symm
  obtain rfl := Except.ok.inj hpure
  exact ⟨resource, hpair, pick_eq_ok_iff.1 hresource⟩

/-- A bound group has in a slot what is kept under the name of the entry there. -/
theorem Holds.bound_eq {source : Source} {slot : TagSlot} (h : group.Holds kind resource? bound)
    (hgroup : source.group? slot.group = some group) (hentry : slot.entry? source = some entry) :
    ∃ resource, bound[slot.slot]? = some (slot.slot, resource) ∧
      resource? entry.name = some resource ∧ kind resource = entry.kind := by
  rw [TagSlot.entry?, hgroup, Option.bind_some] at hentry
  exact h.slot slot.slot entry hentry

end Group

/-! ### Layouts -/

section Layouts

variable {source : Source} {group : Group} {limit : UInt32} {shader : Compiled}

theorem le_max_word (a b : UInt32) : a ≤ max a b ∧ b ≤ max a b := by
  rw [show max a b = if a ≤ b then b else a from rfl]
  split
  next h => exact ⟨h, UInt32.le_refl b⟩
  next h => exact ⟨UInt32.le_refl a, (UInt32.le_total a b).resolve_left h⟩

theorem le_foldl_max (counts : List UInt32) (count : UInt32) :
    count ≤ counts.foldl max count ∧ ∀ other ∈ counts, other ≤ counts.foldl max count := by
  induction counts generalizing count with
  | nil => simp
  | cons first rest ih =>
    obtain ⟨hleft, hright⟩ := le_max_word count first
    obtain ⟨hcount, hrest⟩ := ih (max count first)
    rw [List.foldl_cons, List.forall_mem_cons]
    exact ⟨UInt32.le_trans hleft hcount, UInt32.le_trans hright hcount, hrest⟩

/-- The indices of groups that are counted are below their number. -/
theorem Source.toNat_index_lt {count : UInt32} (h : source.groupCount? = some count)
    (hgroup : group ∈ source.groups) : group.index.toNat < count.toNat := by
  obtain ⟨counts, hcounts, rfl⟩ := Option.map_eq_some_iff.1 h
  have hsome := (isSome_mapM_iff _ _).1 (Option.isSome_of_eq_some hcounts) group hgroup
  obtain ⟨next, hnext⟩ := Option.isSome_iff_exists.1 hsome
  have hmem : next ∈ counts := (mem_iff_of_mapM_eq_some hcounts).2 ⟨group, hgroup, hnext⟩
  have hle := UInt32.le_iff_toNat_le.1 ((le_foldl_max counts 0).2 next hmem)
  rw [Word.succ?_eq_some_iff] at hnext
  omega

theorem Source.compile_eq_ok_iff : source.compile limit = some (.ok shader) ↔
    ∃ count, source.groupCount? = some count ∧ count ≤ limit ∧
      ⟨source, (List.range count.toNat).map source.layoutOf⟩ = shader := by
  rw [Source.compile, Option.map_eq_some_iff]
  refine exists_congr fun count => and_congr_right fun _ => ?_
  split
  next h => simpa using fun hle => absurd h (UInt32.not_lt.2 hle)
  next h => simp [UInt32.not_lt.1 h]

/-- Each declared group of a compiled shader has a layout. -/
theorem Compiled.isSome_layout? (hshader : shader.source.compile limit = some (.ok shader))
    (hgroup : group ∈ shader.source.groups) : (shader.layout? group.index).isSome := by
  obtain ⟨count, hcount, -, hcompiled⟩ := Source.compile_eq_ok_iff.1 hshader
  rw [layout?, ← hcompiled]
  simpa using Source.toNat_index_lt hcount hgroup

theorem Compiled.bind_eq_ok_iff {α : Type} {kind : α → BindingKind}
    {resource? : String → Option α} {bound : List (Nat × α)} :
    shader.bind kind resource? group = .ok bound ↔
      (shader.layout? group.index).isSome ∧ group.resolve kind resource? = .ok bound := by
  unfold Compiled.bind
  cases shader.layout? group.index <;> simp

theorem compile_eq_ok_iff {text : String} : (compile limit text).value = some (.ok shader) ↔
    (Source.parse text).value = some (.ok shader.source) ∧
      shader.source.compile limit = some (.ok shader) := by
  rw [← settle_eq_ok_iff, compile, Logged.value_bind, Logged.settle_value_proceed, bind_eq_ok_iff]
  simp only [settle_eq_ok_iff]
  constructor
  · rintro ⟨source, hsource, hcompile⟩
    obtain ⟨count, -, -, hshader⟩ := Source.compile_eq_ok_iff.1 hcompile
    obtain rfl : shader.source = source := by rw [← hshader]
    exact ⟨hsource, hcompile⟩
  · rintro ⟨hsource, hcompile⟩
    exact ⟨shader.source, hsource, hcompile⟩

end Layouts

end Diorama.Shader

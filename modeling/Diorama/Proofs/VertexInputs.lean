import Diorama.Proofs.Verdict

/-! The vertex inputs of a shader text that is accepted.  Of several declarations of one semantic
the last one counts, and the inputs stand in the order of locations, those of one location in the
order of the declarations that count. -/

namespace Diorama.Shader

open Text

variable {declared inputs : List VertexInput} {input x y first : VertexInput} {place i j : Nat}
  {slot a b : AttributeSlot} {slots slots' made : List AttributeSlot} {text : String}
  {source : Source}

/-- The vertex inputs that the lines of a text declare, each line without its comment. -/
def declaredInputs (text : String) : List VertexInput :=
  (lines (stripComments text.toList)).filterMap VertexInput.ofLine?

/-- The declaration at `place` is the last one of its semantic. -/
structure IsLastAt (declared : List VertexInput) (place : Nat) (input : VertexInput) : Prop where
  here : declared[place]? = some input
  last : ∀ later other, place < later → declared[later]? = some other →
    other.semantic ≠ input.semantic

namespace AttributeSlot

/-- A slot says what a declaration does, with the format of the declared type. -/
structure Stores (slot : AttributeSlot) (input : VertexInput) : Prop where
  semantic : slot.semantic = input.semantic
  location : slot.location = input.location
  datatype : slot.datatype = input.datatype
  format : VertexFormat.ofType? input.datatype = some slot.format
  stride : (VertexFormat.ofType? input.datatype).map VertexFormat.size = some slot.stride

/-- A slot stands before another in the order of locations, and at one location in the order of
their last declarations. -/
def Precedes (declared : List VertexInput) (a b : AttributeSlot) : Prop :=
  a.location < b.location ∨ a.location = b.location ∧ ∃ i x j y,
    IsLastAt declared i x ∧ a.Stores x ∧ IsLastAt declared j y ∧ b.Stores y ∧ i < j

end AttributeSlot

/-- The slots are those of the declared semantics, each with its last declaration, in order. -/
structure Lists (declared : List VertexInput) (slots : List AttributeSlot) : Prop where
  semantics : ∀ semantic, semantic ∈ slots.map (·.semantic) ↔ semantic ∈ declared.map (·.semantic)
  distinct : (slots.map (·.semantic)).Nodup
  last : ∀ slot ∈ slots, ∃ place input, IsLastAt declared place input ∧ slot.Stores input
  sorted : slots.Pairwise (AttributeSlot.Precedes declared)

/-! ### Last declarations -/

theorem isLastAt_zero_iff : IsLastAt (first :: declared) 0 input ↔
    first = input ∧ input.semantic ∉ declared.map (·.semantic) := by
  constructor
  · rintro ⟨hhere, hlast⟩
    obtain rfl : first = input := Option.some.inj hhere
    refine ⟨rfl, fun hmem => ?_⟩
    obtain ⟨other, hother, hsemantic⟩ := List.mem_map.1 hmem
    obtain ⟨later, hlater⟩ := List.getElem?_of_mem hother
    exact hlast (later + 1) other (Nat.succ_pos _) hlater hsemantic
  · rintro ⟨rfl, hnot⟩
    refine ⟨rfl, fun later other hlt hlater hsemantic => hnot ?_⟩
    obtain ⟨later, rfl⟩ := Nat.exists_eq_add_of_lt hlt
    rw [← hsemantic]
    exact List.mem_map_of_mem (List.mem_of_getElem? (by simpa using hlater))

theorem isLastAt_succ_iff :
    IsLastAt (first :: declared) (place + 1) input ↔ IsLastAt declared place input := by
  constructor
  · rintro ⟨hhere, hlast⟩
    exact ⟨hhere, fun later other hlt hlater =>
      hlast (later + 1) other (Nat.succ_lt_succ hlt) hlater⟩
  · rintro ⟨hhere, hlast⟩
    refine ⟨hhere, fun later other hlt hlater => ?_⟩
    obtain ⟨later, rfl⟩ := Nat.exists_eq_add_of_lt (Nat.zero_lt_of_lt hlt)
    rw [Nat.zero_add] at hlt hlater
    exact hlast later other (Nat.lt_of_succ_lt_succ hlt) hlater

/-- A semantic has one last declaration. -/
theorem IsLastAt.place_eq (hx : IsLastAt declared i x) (hy : IsLastAt declared j y)
    (h : x.semantic = y.semantic) : i = j := by
  rcases Nat.lt_trichotomy i j with hlt | heq | hlt
  · exact absurd h.symm (hx.last j y hlt hy.here)
  · exact heq
  · exact absurd h (hy.last i x hlt hx.here)

theorem mem_lastOfEach :
    input ∈ lastOfEach declared ↔ ∃ place, IsLastAt declared place input := by
  induction declared with
  | nil =>
    constructor
    · intro h
      cases h
    · rintro ⟨place, hhere, -⟩
      cases hhere
  | cons first declared ih =>
    rw [lastOfEach]
    constructor
    · split
      next hmore =>
        intro h
        obtain ⟨place, hplace⟩ := ih.1 h
        exact ⟨place + 1, isLastAt_succ_iff.2 hplace⟩
      next hmore =>
        intro h
        rcases List.mem_cons.1 h with rfl | h
        · exact ⟨0, isLastAt_zero_iff.2 ⟨rfl, hmore⟩⟩
        · obtain ⟨place, hplace⟩ := ih.1 h
          exact ⟨place + 1, isLastAt_succ_iff.2 hplace⟩
    · rintro ⟨place, hplace⟩
      cases place with
      | zero =>
        obtain ⟨rfl, hnot⟩ := isLastAt_zero_iff.1 hplace
        rw [if_neg hnot]
        exact List.mem_cons_self
      | succ place =>
        have hmem := ih.2 ⟨place, isLastAt_succ_iff.1 hplace⟩
        split
        · exact hmem
        · exact List.mem_cons_of_mem first hmem

/-- Last declarations are kept in the order in which they stand. -/
theorem pairwise_lastOfEach (declared : List VertexInput) :
    (lastOfEach declared).Pairwise fun x y =>
      ∃ i j, IsLastAt declared i x ∧ IsLastAt declared j y ∧ i < j := by
  induction declared with
  | nil => exact .nil
  | cons first declared ih =>
    have hshifted := ih.imp fun ⟨i, j, hi, hj, hlt⟩ =>
      (⟨i + 1, j + 1, isLastAt_succ_iff.2 hi, isLastAt_succ_iff.2 hj, Nat.succ_lt_succ hlt⟩ :
        ∃ i j, IsLastAt (first :: declared) i _ ∧ IsLastAt (first :: declared) j _ ∧ i < j)
    rw [lastOfEach]
    split
    · exact hshifted
    next hnot =>
      refine List.pairwise_cons.2 ⟨fun y hy => ?_, hshifted⟩
      obtain ⟨j, hj⟩ := mem_lastOfEach.1 hy
      exact ⟨0, j + 1, isLastAt_zero_iff.2 ⟨rfl, hnot⟩, isLastAt_succ_iff.2 hj, Nat.succ_pos j⟩

/-- Each declared semantic has a last declaration. -/
theorem exists_isLastAt {semantic : String} (h : semantic ∈ declared.map (·.semantic)) :
    ∃ place input, IsLastAt declared place input ∧ input.semantic = semantic := by
  induction declared with
  | nil => cases h
  | cons first declared ih =>
    by_cases hmore : semantic ∈ declared.map (·.semantic)
    · obtain ⟨place, input, hlast, hsemantic⟩ := ih hmore
      exact ⟨place + 1, input, isLastAt_succ_iff.2 hlast, hsemantic⟩
    · obtain rfl : semantic = first.semantic := (List.mem_cons.1 h).resolve_right hmore
      exact ⟨0, first, isLastAt_zero_iff.2 ⟨rfl, hmore⟩, rfl⟩

/-! ### Slots -/

namespace AttributeSlot

theorem ofInput_eq_ok_iff : ofInput input = .ok slot ↔ slot.Stores input := by
  unfold ofInput
  constructor
  · cases hformat : VertexFormat.ofType? input.datatype with
    | none =>
      intro h
      cases h
    | some format =>
      intro h
      cases h
      exact ⟨rfl, rfl, rfl, hformat, by rw [hformat]; rfl⟩
  · rintro ⟨hsemantic, hlocation, hdatatype, hformat, hstride⟩
    have hsize : slot.format.size = slot.stride := by
      rw [hformat] at hstride
      exact Option.some.inj hstride
    rw [hformat, ← hsemantic, ← hlocation, ← hdatatype]
    dsimp only
    rw [hsize]

/-- A declaration has one slot. -/
theorem Stores.unique (ha : a.Stores input) (hb : b.Stores input) : a = b :=
  Except.ok.inj ((ofInput_eq_ok_iff.2 ha).symm.trans (ofInput_eq_ok_iff.2 hb))

/-- Neither of two slots precedes the other one, if the other precedes it. -/
theorem Precedes.asymm (h : a.Precedes declared b) : ¬b.Precedes declared a := by
  rintro (hlt' | ⟨heq', i', x', j', y', hi', hx', hj', hy', hlt'⟩)
  · rcases h with hlt | ⟨heq, -⟩
    · exact UInt32.lt_asymm hlt hlt'
    · exact UInt32.lt_irrefl _ (heq ▸ hlt')
  · rcases h with hlt | ⟨-, i, x, j, y, hi, hx, hj, hy, hlt⟩
    · exact UInt32.lt_irrefl _ (heq' ▸ hlt)
    · have hij : i = j' := hi.place_eq hj' (hx.semantic.symm.trans hy'.semantic)
      have hji : j = i' := hj.place_eq hi' (hy.semantic.symm.trans hx'.semantic)
      omega

end AttributeSlot

namespace Lists

/-- The slots are those of the last declarations. -/
theorem mem_iff (h : Lists declared slots) :
    slot ∈ slots ↔ ∃ place input, IsLastAt declared place input ∧ slot.Stores input := by
  refine ⟨h.last slot, ?_⟩
  rintro ⟨place, input, hlast, hstores⟩
  have hdeclared : slot.semantic ∈ declared.map (·.semantic) := by
    rw [hstores.semantic]
    exact List.mem_map_of_mem (List.mem_of_getElem? hlast.here)
  obtain ⟨found, hfound, hsemantic⟩ := List.mem_map.1 ((h.semantics _).2 hdeclared)
  obtain ⟨place', input', hlast', hstores'⟩ := h.last found hfound
  obtain rfl : place' = place := hlast'.place_eq hlast
    (hstores'.semantic.symm.trans (hsemantic.trans hstores.semantic))
  obtain rfl : input' = input := Option.some.inj (hlast'.here.symm.trans hlast.here)
  rwa [hstores.unique hstores']

/-- There is one list of the slots of the declared inputs. -/
theorem unique (h : Lists declared slots) (h' : Lists declared slots') : slots = slots' := by
  have hperm : slots.Perm slots' :=
    (List.perm_ext_iff_of_nodup h.distinct.of_map h'.distinct.of_map).2 fun slot =>
      h.mem_iff.trans h'.mem_iff.symm
  exact hperm.eq_of_pairwise (fun a b _ _ hab hba => absurd hba hab.asymm) h.sorted h'.sorted

end Lists

/-! ### Sorting -/

/-- Sorting leaves what is equal in its order as it was. -/
theorem pairwise_mergeSort_of_pairwise {α : Type} {le : α → α → Bool} {r : α → α → Prop}
    {as : List α} (htrans : ∀ a b c, le a b → le b c → le a c) (htotal : ∀ a b, le a b || le b a)
    (h : as.Pairwise r) :
    (as.mergeSort le).Pairwise fun a b => le a b ∧ (le b a → r a b) := by
  refine List.pairwise_iff_forall_sublist.2 fun {a b} hab => ?_
  have hle : le a b :=
    List.pairwise_iff_forall_sublist.1 (List.pairwise_mergeSort htrans htotal as) hab
  refine ⟨hle, fun hge => ?_⟩
  -- Those that are equal to `a` come in the same order before and after.
  have hequal : (as.filter fun c => le c a && le a c) =
      (as.mergeSort le).filter fun c => le c a && le a c := by
    have hsorted : (as.filter fun c => le c a && le a c).Pairwise fun c d => le c d := by
      refine List.pairwise_of_forall_mem_list fun c hc d hd => ?_
      rw [List.mem_filter, Bool.and_eq_true] at hc hd
      exact htrans c a d hc.2.1 hd.2.2
    have hsublist := (List.sublist_mergeSort htrans htotal hsorted List.filter_sublist).filter
      fun c => le c a && le a c
    rw [List.filter_filter] at hsublist
    simp only [Bool.and_self] at hsublist
    exact hsublist.eq_of_length (((List.mergeSort_perm as le).filter _).length_eq).symm
  have hrefl : le a a := by simpa using htotal a a
  have hpair := hab.filter fun c => le c a && le a c
  rw [← hequal] at hpair
  simp only [List.filter_cons, hrefl, hle, hge, Bool.and_self, if_true, List.filter_nil] at hpair
  exact List.pairwise_iff_forall_sublist.1 h (hpair.trans List.filter_sublist)

/-- Slots of two last declarations are slots of different semantics. -/
theorem semantic_ne {declared : List VertexInput} (hi : IsLastAt declared i x) (ha : a.Stores x)
    (hj : IsLastAt declared j y) (hb : b.Stores y) (hlt : i < j) : a.semantic ≠ b.semantic := by
  rw [ha.semantic, hb.semantic]
  exact (hi.last j y hlt hj.here).symm

theorem lists_of_slotsOf (h : slotsOf (lastOfEach declared) = .ok slots) :
    Lists declared slots := by
  obtain ⟨made, hmade, hsorted⟩ := bind_eq_ok_iff.1 h
  obtain rfl := Except.ok.inj hsorted
  have hmem : ∀ slot, slot ∈ made ↔
      ∃ place input, IsLastAt declared place input ∧ slot.Stores input := by
    intro slot
    simp only [mem_mapM_iff hmade, mem_lastOfEach, AttributeSlot.ofInput_eq_ok_iff]
    exact ⟨fun ⟨input, ⟨place, hlast⟩, hstores⟩ => ⟨place, input, hlast, hstores⟩,
      fun ⟨place, input, hlast, hstores⟩ => ⟨input, ⟨place, hlast⟩, hstores⟩⟩
  have hplaces : made.Pairwise fun a b => ∃ i x j y,
      IsLastAt declared i x ∧ a.Stores x ∧ IsLastAt declared j y ∧ b.Stores y ∧ i < j := by
    refine pairwise_of_mapM hmade (pairwise_lastOfEach declared) ?_
    rintro x y a b ⟨i, j, hi, hj, hlt⟩ ha hb
    exact ⟨i, x, j, y, hi, AttributeSlot.ofInput_eq_ok_iff.1 ha, hj,
      AttributeSlot.ofInput_eq_ok_iff.1 hb, hlt⟩
  have hperm := List.mergeSort_perm made fun a b => a.location ≤ b.location
  refine ⟨fun semantic => ?_, ?_, fun slot hslot => (hmem slot).1 (hperm.mem_iff.1 hslot), ?_⟩
  · rw [(hperm.map _).mem_iff]
    constructor
    · intro hsemantic
      obtain ⟨slot, hslot, rfl⟩ := List.mem_map.1 hsemantic
      obtain ⟨place, input, hlast, hstores⟩ := (hmem slot).1 hslot
      rw [hstores.semantic]
      exact List.mem_map_of_mem (List.mem_of_getElem? hlast.here)
    · intro hsemantic
      obtain ⟨place, input, hlast, rfl⟩ := exists_isLastAt hsemantic
      have hkept := mem_lastOfEach.2 ⟨place, hlast⟩
      obtain ⟨slot, hslot⟩ := exists_mapM_eq_ok_iff.1 ⟨made, hmade⟩ input hkept
      have hstores := AttributeSlot.ofInput_eq_ok_iff.1 hslot
      rw [← hstores.semantic]
      exact List.mem_map_of_mem ((hmem slot).2 ⟨place, input, hlast, hstores⟩)
  · rw [(hperm.map _).nodup_iff]
    exact List.pairwise_map.2 (hplaces.imp fun ⟨_, _, _, _, hi, ha, hj, hb, hlt⟩ =>
      semantic_ne hi ha hj hb hlt)
  · refine (pairwise_mergeSort_of_pairwise ?_ ?_ hplaces).imp fun ⟨hle, hties⟩ => ?_
    · simpa using fun _ _ _ => UInt32.le_trans
    · simpa using fun _ _ => UInt32.le_total _ _
    · rw [decide_eq_true_iff] at hle
      rcases UInt32.lt_or_eq_of_le hle with hlt | heq
      · exact .inl hlt
      · exact .inr ⟨heq, hties (decide_eq_true (UInt32.le_of_eq heq.symm))⟩

/-! ### Texts -/

/-- A line that is read as a vertex input has the mark of one. -/
theorem inputOn?_eq (line : List Char) : inputOn? line = VertexInput.ofLine? line := by
  rw [inputOn?]
  split
  · rfl
  next hmark =>
    have hcut : cut? attributeMark line = none := by simpa [contains] using hmark
    rw [VertexInput.ofLine?, hcut]
    cases numberAnnotation? "location" line <;> rfl

theorem inputsOf_eq (text : String) :
    inputsOf (stripComments text.toList) = lastOfEach (declaredInputs text) := by
  rw [inputsOf, declaredInputs]
  exact congrArg (fun on => lastOfEach ((lines _).filterMap on)) (funext inputOn?_eq)

theorem slotsOf_of_parse (h : (Source.parse text).value = some (.ok source)) :
    slotsOf (lastOfEach (declaredInputs text)) = .ok source.attributes := by
  rw [Source.value_parse_eq, Option.map_eq_some_iff] at h
  obtain ⟨stripped, -, h⟩ := h
  rw [Source.resultOf, Source.value_assemble, bind_eq_ok_iff] at h
  obtain ⟨⟨document, vertex, fragment, attributes⟩, hhead, hrest⟩ := h
  obtain ⟨groups, -, hchecked⟩ := bind_eq_ok_iff.1 hrest
  obtain rfl := Source.eq_of_checked hchecked
  rw [← inputsOf_eq]
  exact (headOf_eq_ok_iff.1 hhead).2

/-- The attributes of a text that is accepted are the one list of the vertex inputs that its lines
declare. -/
theorem attributes_of_parse (h : (Source.parse text).value = some (.ok source)) :
    Lists (declaredInputs text) source.attributes ∧
      ∀ slots, Lists (declaredInputs text) slots → slots = source.attributes := by
  have hlists := lists_of_slotsOf (slotsOf_of_parse h)
  exact ⟨hlists, fun slots hslots => hslots.unique hlists⟩

/-- A text that declares one semantic twice, with another one of the same location between. -/
def redeclared : String := "[\"s\",[\"v\",\"\n@location(1) @attribute=A a: f32\n" ++
  "@location(1) @attribute=B b: vec2f\n@location(0) @attribute=C c: vec3f // third\n" ++
  "@location(1) @attribute=A a: vec4f\"],[\"f\",\"\"]]"

theorem attributes_of_parse_redeclared : ∃ source,
    (Source.parse redeclared).value = some (.ok source) ∧
      Lists (declaredInputs redeclared) source.attributes ∧ source.attributes =
        [⟨"C", 0, "vec3f", .float32x3, 12⟩, ⟨"B", 1, "vec2f", .float32x2, 8⟩,
          ⟨"A", 1, "vec4f", .float32x4, 16⟩] := by
  have haccepted : ((Source.parse redeclared).value.bind Except.toOption).isSome = true := by
    decide +kernel
  have hinputs : lastOfEach (declaredInputs redeclared) =
      [⟨"B", 1, "vec2f"⟩, ⟨"C", 0, "vec3f"⟩, ⟨"A", 1, "vec4f"⟩] := by decide +kernel
  rcases hparse : (Source.parse redeclared).value with _ | e | source
  · rw [hparse] at haccepted
    cases haccepted
  · rw [hparse] at haccepted
    cases haccepted
  · refine ⟨source, rfl, (attributes_of_parse hparse).1, ?_⟩
    have hslots := slotsOf_of_parse hparse
    rw [hinputs] at hslots
    refine (Except.ok.inj hslots).symm.trans ?_
    simp [List.mergeSort, VertexFormat.size]

end Diorama.Shader

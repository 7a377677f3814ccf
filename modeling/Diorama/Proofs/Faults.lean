import Diorama.Proofs.Grouping

/-! Which fault of a shader's declarations is reported.  The groups are made in the order in which
the declarations name them, and the first one with a fault decides: where two of its declarations
clash, the first clash in the order of bindings, and else the first declaration without a kind. -/

namespace Diorama.Shader

open Declaration

variable {shader : String} {code : StageCode} {ds members merged more : List Declaration}
  {kept joined first second d : Declaration} {index : UInt32} {e : ShaderError}

namespace Declaration

/-- `second` is the first declaration that disagrees with one before it, and `first` the first of
the same binding. -/
def Clash (ds : List Declaration) (first second : Declaration) : Prop :=
  ∃ before after, ds = before ++ second :: after ∧ Concord before ∧
    IsFirst (fun d => d.binding = second.binding) before first ∧
      ∃ d ∈ before, d.binding = second.binding ∧ ¬d.Agrees second

theorem exists_clash (h : ¬Concord ds) : ∃ first second, Clash ds first second := by
  induction ds using List.reverseRecOn with
  | nil => exact absurd List.Pairwise.nil h
  | append_singleton ds d ih =>
    by_cases hds : Concord ds
    · obtain ⟨a, ha, hbinding, hagrees⟩ : ∃ a ∈ ds, a.binding = d.binding ∧ ¬a.Agrees d := by
        by_contra hnone
        apply h
        refine List.pairwise_append.2 ⟨hds, List.pairwise_singleton _ _, ?_⟩
        intro a ha b hb hbinding
        obtain rfl := List.mem_singleton.1 hb
        by_contra hagrees
        exact hnone ⟨a, ha, hbinding, hagrees⟩
      obtain ⟨first, hfirst⟩ := exists_isFirst (p := fun a => a.binding = d.binding) ha hbinding
      exact ⟨first, d, ds, [], rfl, hds, hfirst, a, ha, hbinding, hagrees⟩
    · obtain ⟨first, second, before, after, rfl, hclash⟩ := ih hds
      exact ⟨first, second, before, after ++ [d], by simp, hclash⟩

/-- What agrees with a joined declaration agrees with both parts of it. -/
theorem Agrees.of_join (hjoin : kept.join second = .ok joined) (h : joined.Agrees d) :
    kept.Agrees d ∧ second.Agrees d := by
  obtain ⟨⟨hname, hqualifier, hdatatype, htag⟩, rfl⟩ := join_eq_ok_iff.1 hjoin
  obtain ⟨hname', hqualifier', hdatatype', htag'⟩ := h
  refine ⟨⟨hname', hqualifier', hdatatype', ?_⟩, hname.symm.trans hname',
    hqualifier.symm.trans hqualifier', hdatatype.symm.trans hdatatype', ?_⟩
  · cases hkept : kept.tag with
    | none => exact .inl rfl
    | some t => simpa [hkept] using htag'
  · cases hkept : kept.tag with
    | none => simpa [hkept] using htag'
    | some t =>
      rw [hkept] at htag htag'
      rcases htag with h | h | h
      · cases h
      · exact .inl h
      · rw [← h]
        exact htag'

theorem mergeFrom_of_clash {before after : List Declaration}
    (hsorted : (kept :: (before ++ second :: after)).Pairwise fun a b => a.binding ≤ b.binding)
    (hconcord : Concord (kept :: before))
    (hfirst : IsFirst (fun d => d.binding = second.binding) (kept :: before) first)
    (hclash : ∃ d ∈ kept :: before, d.binding = second.binding ∧ ¬d.Agrees second) :
    mergeFrom kept (before ++ second :: after) =
      .error (.conflictingBinding second.group second.binding first.name second.name) := by
  induction before generalizing kept first with
  | nil =>
    obtain ⟨a, ha, hbinding, hdisagrees⟩ := hclash
    obtain rfl := List.mem_singleton.1 ha
    rcases isFirst_cons_iff.1 hfirst with ⟨-, rfl⟩ | ⟨hne, -⟩
    · rw [List.nil_append, mergeFrom, if_pos hbinding, join, if_neg hdisagrees]
      rfl
    · exact absurd hbinding hne
  | cons d before ih =>
    rw [List.cons_append] at hsorted ⊢
    obtain ⟨hle, hrest⟩ := List.pairwise_cons.1 hsorted
    obtain ⟨hagrees, hbefore⟩ := List.pairwise_cons.1 hconcord
    rw [mergeFrom]
    by_cases hbinding : kept.binding = d.binding
    · -- The joined declaration takes the place of both, and has the name of the first.
      obtain ⟨joined, hjoin⟩ : ∃ joined, kept.join d = .ok joined :=
        ⟨_, join_eq_ok_iff.2 ⟨hagrees d List.mem_cons_self hbinding, rfl⟩⟩
      obtain ⟨hname, hjoined⟩ : joined.name = kept.name ∧ joined.binding = kept.binding := by
        obtain ⟨-, rfl⟩ := join_eq_ok_iff.1 hjoin
        exact ⟨rfl, rfl⟩
      obtain ⟨first', hfirst', hname'⟩ : ∃ first', IsFirst (fun d => d.binding = second.binding)
          (joined :: before) first' ∧ first'.name = first.name := by
        simp only [isFirst_cons_iff, hjoined, ← hbinding] at hfirst ⊢
        rcases hfirst with ⟨hsame, rfl⟩ | ⟨hne, ⟨hsame, -⟩ | ⟨-, hfirst⟩⟩
        · exact ⟨joined, .inl ⟨hsame, rfl⟩, hname⟩
        · exact absurd hsame hne
        · exact ⟨first, .inr ⟨hne, hfirst⟩, rfl⟩
      have hclash' : ∃ a ∈ joined :: before, a.binding = second.binding ∧ ¬a.Agrees second := by
        obtain ⟨a, ha, hsame, hdisagrees⟩ := hclash
        rcases List.mem_cons.1 ha with rfl | ha
        · exact ⟨joined, List.mem_cons_self, hjoined.trans hsame,
            fun h => hdisagrees (h.of_join hjoin).1⟩
        · rcases List.mem_cons.1 ha with rfl | ha
          · exact ⟨joined, List.mem_cons_self, hjoined.trans (hbinding.trans hsame),
              fun h => hdisagrees (h.of_join hjoin).2⟩
          · exact ⟨a, List.mem_cons_of_mem joined ha, hsame, hdisagrees⟩
      rw [if_pos hbinding, hjoin, ← hname']
      refine ih (List.pairwise_cons.2 ⟨fun b hb => ?_, (List.pairwise_cons.1 hrest).2⟩)
        (hconcord.join hbinding hjoin) hfirst' hclash'
      rw [hjoined]
      exact hle b (List.mem_cons_of_mem d hb)
    · -- No later declaration has the binding of `kept`.
      have hlt := UInt32.lt_of_le_of_ne (hle d List.mem_cons_self) hbinding
      have hsecond := (List.pairwise_cons.1 hrest).1 second (by simp)
      have hne : kept.binding ≠ second.binding :=
        UInt32.ne_of_lt (UInt32.lt_of_lt_of_le hlt hsecond)
      have hfirst' : IsFirst (fun d => d.binding = second.binding) (d :: before) first :=
        (isFirst_cons_iff.1 hfirst).elim (fun h => absurd h.1 hne) fun h => h.2
      have hclash' : ∃ a ∈ d :: before, a.binding = second.binding ∧ ¬a.Agrees second := by
        obtain ⟨a, ha, hsame, hdisagrees⟩ := hclash
        rcases List.mem_cons.1 ha with rfl | ha
        · exact absurd hsame hne
        · exact ⟨a, ha, hsame, hdisagrees⟩
      rw [if_neg hbinding, ih hrest hbefore hfirst' hclash']
      rfl

/-- Merging fails at the first clash in the order of bindings. -/
theorem mergeRuns_eq_error_iff : mergeRuns (sortByBinding members) = .error e ↔
    ∃ first second, Clash (sortByBinding members) first second ∧
      e = .conflictingBinding second.group second.binding first.name second.name := by
  have hfails : ∀ first second, Clash (sortByBinding members) first second →
      mergeRuns (sortByBinding members) =
        .error (.conflictingBinding second.group second.binding first.name second.name) := by
    rintro first second ⟨before, after, hsplit, hconcord, hfirst, hclash⟩
    have hsorted := pairwise_sortByBinding members
    rw [hsplit] at hsorted ⊢
    cases before with
    | nil => simp at hclash
    | cons kept before => exact mergeFrom_of_clash hsorted hconcord hfirst hclash
  constructor
  · intro herror
    have hclash : ¬Concord (sortByBinding members) := by
      intro hconcord
      obtain ⟨merged, hmerged⟩ := exists_mergeRuns_iff.2 (concord_sortByBinding.1 hconcord)
      cases herror.symm.trans hmerged
    obtain ⟨first, second, hclash⟩ := exists_clash hclash
    exact ⟨first, second, hclash, Except.error.inj (herror.symm.trans (hfails first second hclash))⟩
  · rintro ⟨first, second, hclash, rfl⟩
    exact hfails first second hclash

/-! ### Declarations without a kind -/

/-- What decides about the kind of a declaration, and its name. -/
def said (d : Declaration) : String × String × String := (d.name, d.qualifier, d.datatype)

/-- Merging leaves out what was said before, so what comes first stays first. -/
theorem isFirst_mergeFrom {p : String × String × String → Prop} {s : String × String × String}
    (h : mergeFrom kept more = .ok merged) :
    IsFirst p (merged.map said) s ↔ IsFirst p ((kept :: more).map said) s := by
  induction more generalizing kept merged with
  | nil =>
    obtain rfl : [kept] = merged := Except.ok.inj h
    rfl
  | cons d more ih =>
    rw [mergeFrom] at h
    split at h
    next hbinding =>
      obtain ⟨joined, hjoin, h⟩ := bind_eq_ok_iff.1 h
      obtain ⟨⟨hname, hqualifier, hdatatype, -⟩, hjoined⟩ := join_eq_ok_iff.1 hjoin
      have hsaid : said joined = said kept := by
        rw [← hjoined]
        rfl
      have hsame : said d = said kept := by
        rw [said, said, hname, hqualifier, hdatatype]
      simp only [ih h, List.map_cons, isFirst_cons_iff, hsaid, hsame]
      by_cases hp : p (said kept) <;> simp [hp]
    next hbinding =>
      cases hrest : mergeFrom d more with
      | error e => simp [hrest, Functor.map, Except.map] at h
      | ok rest =>
        obtain rfl : kept :: rest = merged := by simpa [hrest, Functor.map, Except.map] using h
        rw [List.map_cons, List.map_cons, isFirst_cons_iff, isFirst_cons_iff, ih hrest]

theorem isFirst_mergeRuns {p : String × String × String → Prop} {s : String × String × String}
    (h : mergeRuns ds = .ok merged) :
    IsFirst p (merged.map said) s ↔ IsFirst p (ds.map said) s := by
  cases ds with
  | nil =>
    obtain rfl : [] = merged := Except.ok.inj h
    rfl
  | cons first more => exact isFirst_mergeFrom h

end Declaration

theorem GroupEntry.value_ofDeclaration_eq_error_iff :
    (ofDeclaration shader code d).value = .error e ↔
      BindingKind.classify? d.qualifier d.datatype = none ∧
        e = .unsupportedBinding d.name d.datatype := by
  unfold ofDeclaration
  cases BindingKind.classify? d.qualifier d.datatype <;> simp [eq_comm]

theorem traverse_eq_error_iff (h : mergeRuns (sortByBinding members) = .ok merged) :
    (Logged.traverse (GroupEntry.ofDeclaration shader code) merged).value = .error e ↔
      ∃ d, IsFirst (fun d => BindingKind.classify? d.qualifier d.datatype = none)
        (sortByBinding members) d ∧ e = .unsupportedBinding d.name d.datatype := by
  have hfirst (s : String × String × String) :=
    isFirst_mergeRuns (p := fun s => BindingKind.classify? s.2.1 s.2.2 = none) (s := s) h
  simp only [isFirst_map_iff] at hfirst
  rw [Logged.value_traverse, mapM_eq_error_iff_isFirst]
  simp only [GroupEntry.exists_value_ofDeclaration_iff, Option.not_isSome_iff_eq_none,
    GroupEntry.value_ofDeclaration_eq_error_iff]
  constructor
  · rintro ⟨m, hm, -, rfl⟩
    obtain ⟨d, hd, hsaid⟩ := (hfirst (said m)).1 ⟨m, hm, rfl⟩
    obtain ⟨hname, -, hdatatype⟩ : d.name = m.name ∧ d.qualifier = m.qualifier ∧
      d.datatype = m.datatype := by simpa [said] using hsaid
    exact ⟨d, hd, by rw [hname, hdatatype]⟩
  · rintro ⟨d, hd, rfl⟩
    obtain ⟨m, hm, hsaid⟩ := (hfirst (said d)).2 ⟨d, hd, rfl⟩
    obtain ⟨hname, -, hdatatype⟩ : m.name = d.name ∧ m.qualifier = d.qualifier ∧
      m.datatype = d.datatype := by simpa [said] using hsaid
    obtain ⟨-, -, -, -, hnone⟩ := id hm
    exact ⟨m, hm, hnone, by rw [hname, hdatatype]⟩

/-! ### Groups -/

/-- The fault that is reported of a group: its first clash, or, if it has none, the first of its
declarations without a kind. -/
inductive GroupFault (members : List Declaration) : ShaderError → Prop
  | conflict {first second : Declaration} (hclash : Clash (sortByBinding members) first second) :
    GroupFault members
      (.conflictingBinding second.group second.binding first.name second.name)
  | unsupported {d : Declaration} (hconcord : Concord members)
    (hfirst : IsFirst (fun d => BindingKind.classify? d.qualifier d.datatype = none)
      (sortByBinding members) d) : GroupFault members (.unsupportedBinding d.name d.datatype)

theorem Group.value_ofMembers_eq_error_iff :
    (ofMembers shader code index members).value = .error e ↔ GroupFault members e := by
  rw [value_ofMembers, bind_eq_error_iff, mergeRuns_eq_error_iff]
  simp only [bind_eq_error_iff, pure, Except.pure, reduceCtorEq, and_false, exists_false, or_false]
  constructor
  · rintro (⟨first, second, hclash, rfl⟩ | ⟨merged, hmerged, herror⟩)
    · exact .conflict hclash
    · obtain ⟨d, hd, rfl⟩ := (traverse_eq_error_iff hmerged).1 herror
      exact .unsupported (exists_mergeRuns_iff.1 ⟨merged, hmerged⟩) hd
  · intro hfault
    cases hfault with
    | conflict hclash => exact .inl ⟨_, _, hclash, rfl⟩
    | unsupported hconcord hfirst =>
      obtain ⟨merged, hmerged⟩ := exists_mergeRuns_iff.2 hconcord
      exact .inr ⟨merged, hmerged, (traverse_eq_error_iff hmerged).2 ⟨_, hfirst, rfl⟩⟩

/-- The declarations of group `i` agree, and each has a kind. -/
def Declaration.SoundGroup (ds : List Declaration) (i : UInt32) : Prop :=
  Concord (ds.filter fun d => d.group = i) ∧ Classified (ds.filter fun d => d.group = i)

/-- What is reported is the fault of the first group that is not sound. -/
theorem groupDeclarations_eq_error_iff :
    (groupDeclarations shader code ds).value = .error e ↔
      ∃ index, IsFirst (fun i => ¬SoundGroup ds i) (ds.map (·.group)).eraseDups index ∧
        GroupFault (ds.filter fun d => d.group = index) e := by
  rw [groupDeclarations_eq, Logged.value_traverse, mapM_eq_error_iff_isFirst]
  simp only [Group.exists_value_ofMembers_iff, Group.value_ofMembers_eq_error_iff]
  rfl

end Diorama.Shader

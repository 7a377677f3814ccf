import Diorama.Proofs.Spelling

/-! The order of the annotations before a declaration.  The numbers may stand in either order, and
the tag before or between them.  Behind both numbers the tag stands where the variable is looked
for: a tag with a `var` in it is taken for the variable there, and the declaration is lost. -/

namespace Diorama.Shader

open Text

/-- The last annotation is a tag in which the variable seems to begin. -/
def hidesVariable (marks : List Mark) : Bool :=
  marks.getLast?.any fun m => m.label = .tag && contains "var".toList m.contents

variable {d : Declaration} {marks : List Mark} {m : Mark} {s : List Char}

theorem varWords?_eq_none_of_oneWord {behind : List Char}
    (hbehind : behind? "var".toList s = some behind)
    (hword : ∀ c ∈ ("var".toList ++ behind).takeWhile isVariableChar, isTypeChar c = true) :
    varWords? s = none := by
  rw [varWords?, hbehind, Option.bind_some]
  generalize ("var".toList ++ behind).takeWhile isVariableChar = word at hword ⊢
  by_cases hempty : word = []
  · rw [hempty]
    rfl
  · rw [← List.append_nil word, runs_append_of_forall hempty hword (by simp)]
    rfl

/-- The text in front of a tag's contents has no part of a `var`. -/
theorem behind?_var_tag (hlabel : m.label = .tag) (b : Blanks) (s : List Char) :
    behind? "var".toList (b.text ++ (m.text ++ s)) =
      behind? "var".toList (m.contents ++ ')' :: (m.gap.text ++ s)) := by
  have hnotMem : 'v' ∉ b.text ++ '@' :: Label.tag.opening := by
    have hopening : 'v' ∉ '@' :: Label.tag.opening := by decide
    simp only [List.mem_append, not_or]
    exact ⟨b.notMem (by decide), hopening⟩
  have hsplit : b.text ++ (m.text ++ s) =
      (b.text ++ '@' :: Label.tag.opening) ++ (m.contents ++ ')' :: (m.gap.text ++ s)) := by
    rw [Mark.text, hlabel]
    simp
  rw [hsplit]
  exact behind?_append_of_notMem hnotMem "ar".toList _

/-- A tag with a `var` is read as one word, which nothing follows. -/
theorem varWords?_tag_eq_none (hvar : contains "var".toList m.contents = true)
    (hword : ∀ c ∈ m.contents, isBlank c = false ∧ c ≠ ':') (hlabel : m.label = .tag) (b : Blanks)
    (s : List Char) : varWords? (b.text ++ (m.text ++ s)) = none := by
  obtain ⟨⟨before, behind⟩, hcut⟩ := Option.isSome_iff_exists.1 hvar
  have hbehind : behind? "var".toList m.contents = some behind := by rw [behind?, hcut]; rfl
  refine varWords?_eq_none_of_oneWord ((behind?_var_tag hlabel b s).trans
    (behind?_append_of_eq_some hbehind _)) fun c hc => ?_
  have hstop : isVariableChar ')' = false := by decide
  rw [← List.append_assoc] at hc
  have hmem : c ∈ "var".toList ++ behind := mem_of_mem_takeWhile_append hstop hc
  have hvariable : isVariableChar c = true := List.all_eq_true.1 List.all_takeWhile c hc
  have hcontent : c ∈ m.contents := by
    rw [eq_append_of_cut? hcut, List.append_assoc]
    exact List.mem_append_right _ hmem
  obtain ⟨hblank, hcolon⟩ := hword c hcontent
  simpa [isVariableChar, hblank, hcolon] using hvariable

/-- A tag without a `var` is passed over. -/
theorem behind?_var_tag_of_not_contains (hvar : contains "var".toList m.contents = false)
    (hlabel : m.label = .tag) (b : Blanks) (s : List Char) :
    behind? "var".toList (b.text ++ (m.text ++ s)) = behind? "var".toList (m.gap.text ++ s) := by
  have hparen : ')' ∉ "var".toList := by decide
  rw [behind?_var_tag hlabel, behind?_append_of_not_contains hvar hparen]
  exact behind?_cons_of_not_isPrefixOf rfl

namespace Declaration

theorem exists_tag_of_label (hperm : (marks.map Mark.entry).Perm d.labels) (hm : m ∈ marks)
    (hlabel : m.label = .tag) : ∃ tag ∈ d.tag, m.contents = tag.toList := by
  have hmem : m.entry ∈ d.labels := hperm.mem_iff.1 (List.mem_map_of_mem hm)
  rcases List.mem_append.1 hmem with hmem | hmem
  · obtain ⟨tag, htag, hentry⟩ := List.mem_map.1 hmem
    exact ⟨tag, Option.mem_toList.1 htag, (Prod.mk.inj hentry).2.symm⟩
  · simp [Mark.entry, hlabel] at hmem

/-- In which order the annotations are written makes no difference, but for a tag behind both
numbers with a `var` in it: that declaration is not read. -/
theorem ofLine?_line_anyOrder (h : d.Proper) (l : Layout)
    (hword : ∀ tag ∈ d.tag, ∀ c ∈ tag.toList, isBlank c = false ∧ c ≠ ':')
    (hperm : (marks.map Mark.entry).Perm d.labels) :
    ofLine? (d.line l marks) = if hidesVariable marks then none else some d := by
  obtain ⟨earlier, n, later, rfl, hn, hlater, hread⟩ := ofLine?_line h l hperm
  rw [hread]
  rcases hlater with rfl | ⟨m, rfl, hlabel⟩
  · have hseen : hidesVariable (earlier ++ [n]) = false := by simp [hidesVariable, hn]
    rw [List.flatMap_nil, List.nil_append, h.varWords?_behind l n.gap, hseen]
    simp
  · obtain ⟨tag, htag, hcontents⟩ := exists_tag_of_label hperm (by simp) hlabel
    have hseen : hidesVariable (earlier ++ [n, m]) = contains "var".toList m.contents := by
      simp [hidesVariable, hlabel]
    rw [hseen, List.flatMap_singleton]
    cases hvar : contains "var".toList m.contents with
    | true =>
      rw [varWords?_tag_eq_none hvar (hcontents ▸ hword tag htag) hlabel]
      rfl
    | false =>
      rw [varWords?_congr (behind?_var_tag_of_not_contains hvar hlabel n.gap _),
        h.varWords?_behind l m.gap]
      simp

theorem ofLine?_line_anyOrder_varied :
    ofLine? (Declaration.varied.line .commented [.noBinding, .variance, .firstGroup]) =
        some .varied ∧
      ofLine? (Declaration.varied.line .commented [.noBinding, .firstGroup, .variance]) = none := by
  have hword : ∀ tag ∈ Declaration.varied.tag, ∀ c ∈ tag.toList, isBlank c = false ∧ c ≠ ':' := by
    rintro _ ⟨⟩ c hc
    have hall : "variance".toList.all (fun c => isBlank c = false ∧ c ≠ ':') = true := by decide
    simpa using List.all_eq_true.1 hall c hc
  have hbetween : hidesVariable [.noBinding, .variance, .firstGroup] = false := by decide
  have hlast : hidesVariable [.noBinding, .firstGroup, .variance] = true := by decide
  constructor
  · rw [ofLine?_line_anyOrder proper_varied .commented hword (by decide), hbetween]
    rfl
  · rw [ofLine?_line_anyOrder proper_varied .commented hword (by decide), hlast]
    rfl

/-- The same annotations are read with the tag first, and not with the tag last. -/
theorem ofLine?_tagLast :
    ofLine? "@tag(variance) @group(0) @binding(1) var<uniform> m: mat4x4f;".toList =
        some ⟨0, 1, "var<uniform>", "m", "mat4x4f", some "variance"⟩ ∧
      ofLine? "@group(0) @binding(1) @tag(variance) var<uniform> m: mat4x4f;".toList = none := by
  decide +kernel

end Declaration

end Diorama.Shader

import Diorama.Shader.Declaration
import Diorama.Proofs.Scanning

/-! How a declaration and a vertex input are written on a line of a shader, and that they are read
back as they were written.  Annotations come first, each with blanks behind it; then the variable or
the attribute, its name and its type.  A line is built from these parts, so what a search finds in
it is settled part by part. -/

namespace Diorama.Shader

open Text

/-- A text of blank characters, or of none. -/
structure Blanks where
  text : List Char
  isBlank_of_mem : ∀ c ∈ text, isBlank c = true

/-- A text in which no annotation starts. -/
structure Margin where
  text : List Char
  at_notMem : '@' ∉ text

/-- The annotations that have their contents in parentheses. -/
inductive Label where
  | tag
  | group
  | binding
  | location
deriving DecidableEq

namespace Label

def name : Label → String
  | tag => "tag"
  | group => "group"
  | binding => "binding"
  | location => "location"

/-- What an annotation opens with, behind its `@`. -/
def opening (l : Label) : List Char := l.name.toList ++ ['(']

end Label

/-- An annotation on a line, with the blanks behind it. -/
structure Mark where
  label : Label
  contents : List Char
  gap : Blanks
  at_notMem : '@' ∉ contents
  paren_notMem : ')' ∉ contents

namespace Mark

def entry (m : Mark) : Label × List Char := (m.label, m.contents)

def text (m : Mark) : List Char :=
  '@' :: m.label.opening ++ (m.contents ++ ')' :: m.gap.text)

end Mark

/-- What stands on a line around its annotations, words and marks. -/
structure Layout where
  front : Margin
  gap : Blanks
  gap_ne_nil : gap.text ≠ []
  afterName : Blanks
  afterColon : Blanks
  afterType : Blanks
  back : Margin

namespace Layout

/-- `head name : datatype` with its blanks. -/
def words (l : Layout) (head name datatype : List Char) : List Char :=
  head ++ (l.gap.text ++ (name ++ (l.afterName.text ++ ':' :: (l.afterColon.text ++
    (datatype ++ l.afterType.text)))))

/-- The part of a line behind its annotations: words up to `stop`, and the text behind that. -/
def field (l : Layout) (head name datatype : List Char) (stop : Char) : List Char :=
  l.words head name datatype ++ stop :: l.back.text

/-- A line with annotations in front of a text. -/
def line (l : Layout) (marks : List Mark) (s : List Char) : List Char :=
  l.front.text ++ (marks.flatMap Mark.text ++ s)

end Layout

/-- The annotations of a declaration, in the order in which they are described. -/
def Declaration.labels (d : Declaration) : List (Label × List Char) :=
  (d.tag.toList.map fun tag => (Label.tag, tag.toList)) ++
    [(.group, (toString d.group).toList), (.binding, (toString d.binding).toList)]

/-- A declaration whose texts can be written on a line. -/
structure Declaration.Proper (d : Declaration) : Prop where
  qualifier : d.qualifier.toList = "var".toList ∨
    ∃ q : List Char, (∀ c ∈ q, isWordChar c = true) ∧
      d.qualifier.toList = "var<".toList ++ (q ++ ['>'])
  name_ne_nil : d.name.toList ≠ []
  name : ∀ c ∈ d.name.toList, isWordChar c = true
  datatype_ne_nil : d.datatype.toList ≠ []
  datatype : ∀ c ∈ d.datatype.toList, isTypeChar c = true
  tag : ∀ tag ∈ d.tag, tag.toList ≠ [] ∧ trim tag.toList = tag.toList

/-- The part of its line in which a declaration has its variable. -/
def Declaration.field (d : Declaration) (l : Layout) : List Char :=
  l.field d.qualifier.toList d.name.toList d.datatype.toList ';'

/-- The line of a declaration with its annotations written as `marks`. -/
def Declaration.line (d : Declaration) (l : Layout) (marks : List Mark) : List Char :=
  l.line marks (d.field l)

/-- A vertex input whose texts can be written on a line. -/
structure VertexInput.Proper (v : VertexInput) : Prop where
  semantic_ne_nil : v.semantic.toList ≠ []
  semantic : ∀ c ∈ v.semantic.toList, isWordChar c = true
  datatype_ne_nil : v.datatype.toList ≠ []
  datatype : ∀ c ∈ v.datatype.toList, isTypeChar c = true

/-- The line of a vertex input that the shader calls `name`. -/
def VertexInput.line (v : VertexInput) (l : Layout) (location : Mark) (name : List Char) :
    List Char :=
  l.line [location] (l.field (attributeMark ++ v.semantic.toList) name v.datatype.toList ',')

variable {m : Mark} {marks earlier : List Mark} {label : Label} {s : List Char}

/-! ### Annotations -/

theorem annotation?_eq (name : String) (line : List Char) :
    annotation? name line = (behind? ('@' :: name.toList ++ ['(']) line).bind (cut? [')']) := by
  rw [behind?, Option.bind_map]
  rfl

theorem Blanks.notMem (b : Blanks) {c : Char} (h : isBlank c = false) : c ∉ b.text :=
  fun hmem => by simp [b.isBlank_of_mem c hmem] at h

/-- An annotation holds no second `@`. -/
theorem Mark.at_notMem_tail (m : Mark) :
    '@' ∉ m.label.opening ++ (m.contents ++ ')' :: m.gap.text) := by
  have hopening : '@' ∉ m.label.opening := by cases m.label <;> decide
  simp [hopening, m.at_notMem, m.gap.notMem (c := '@') (by decide)]

/-- A search for a mark that does not open the next annotation goes on behind that annotation. -/
theorem behind?_mark_append {key : List Char}
    (h : ('@' :: key).isPrefixOf (m.text ++ s) = false) :
    behind? ('@' :: key) (m.text ++ s) = behind? ('@' :: key) s := by
  rw [Mark.text, List.cons_append] at h ⊢
  rw [List.cons_append] at h ⊢
  rw [behind?_cons_of_not_isPrefixOf h, behind?_append_of_notMem m.at_notMem_tail]

theorem Label.not_isPrefixOf (h : m.label ≠ label) :
    ('@' :: label.opening).isPrefixOf (m.text ++ s) = false := by
  rw [Mark.text]
  revert h
  cases m.label <;> cases label <;> intro h
  all_goals first
    | rfl
    | exact absurd rfl h

theorem behind?_line (l : Layout) (h : ∀ m ∈ marks, m.label ≠ label) :
    behind? ('@' :: label.opening) (l.line marks s) = behind? ('@' :: label.opening) s := by
  rw [Layout.line, behind?_append_of_notMem l.front.at_notMem]
  induction marks with
  | nil => rfl
  | cons m marks ih =>
    obtain ⟨hm, hmarks⟩ := List.forall_mem_cons.1 h
    rw [List.flatMap_cons, List.append_assoc, behind?_mark_append (Label.not_isPrefixOf hm),
      ih hmarks]

/-- What is read for a label is the first annotation with that label. -/
theorem annotation?_of_first (l : Layout) (h : ∀ e ∈ earlier, e.label ≠ m.label)
    (later : List Mark) (s : List Char) :
    annotation? m.label.name (l.line (earlier ++ m :: later) s) =
      some (m.contents, m.gap.text ++ (later.flatMap Mark.text ++ s)) := by
  have hsplit : l.line (earlier ++ m :: later) s = l.line earlier ('@' :: m.label.opening ++
      (m.contents ++ ')' :: (m.gap.text ++ (later.flatMap Mark.text ++ s)))) := by
    simp [Layout.line, Mark.text]
  have hbehind : behind? ('@' :: m.label.opening) (l.line (earlier ++ m :: later) s) =
      some (m.contents ++ ')' :: (m.gap.text ++ (later.flatMap Mark.text ++ s))) := by
    rw [hsplit, behind?_line l h, behind?_append_self]
  rw [annotation?_eq]
  change Option.bind (behind? ('@' :: m.label.opening) _) _ = _
  rw [hbehind, Option.bind_some, cut?_append_singleton m.paren_notMem]

theorem annotation?_of_absent (l : Layout) (h : ∀ m ∈ marks, m.label ≠ label) (hs : '@' ∉ s) :
    annotation? label.name (l.line marks s) = none := by
  rw [annotation?_eq]
  change Option.bind (behind? ('@' :: label.opening) _) _ = _
  rw [behind?_line l h, behind?_eq_none_of_notMem hs, Option.bind_none]

theorem numberAnnotation?_of_first {n : UInt32} (l : Layout)
    (h : ∀ e ∈ earlier, e.label ≠ m.label) (hm : m.contents = (toString n).toList)
    (later : List Mark) (s : List Char) :
    numberAnnotation? m.label.name (l.line (earlier ++ m :: later) s) =
      some (n, m.gap.text ++ (later.flatMap Mark.text ++ s)) := by
  have hblank : ∀ c ∈ (toString n).toList, isBlank c = false := fun c hc =>
    Bool.eq_false_iff.2 fun hblank => by
      have htype := isTypeChar_of_isBlank hblank
      simp [isTypeChar, isWordChar, Char.isAlphanum, isDigit_of_mem_toString hc] at htype
  rw [numberAnnotation?, annotation?_of_first l h later s, hm]
  simp only [Option.bind_eq_bind, Option.bind_some, trim_eq_self hblank, word32?_toString]
  rfl

theorem label_ne_of_nodup {later : List Mark}
    (h : ((earlier ++ m :: later).map Mark.label).Nodup) :
    (∀ e ∈ earlier, e.label ≠ m.label) ∧ ∀ e ∈ later, e.label ≠ m.label := by
  rw [List.map_append, List.map_cons, List.nodup_append] at h
  obtain ⟨-, hbehind, happart⟩ := h
  have hnotMem := (List.nodup_cons.1 hbehind).1
  exact ⟨fun e he => happart _ (List.mem_map_of_mem he) _ List.mem_cons_self,
    fun e he heq => hnotMem (heq ▸ List.mem_map_of_mem he)⟩

/-- Where no label stands twice, one label stands once at most. -/
theorem eq_nil_or_singleton_of_label (hnodup : (marks.map Mark.label).Nodup)
    (h : ∀ m ∈ marks, m.label = label) : marks = [] ∨ ∃ m, marks = [m] ∧ m.label = label := by
  rcases marks with _ | ⟨m, _ | ⟨m', more⟩⟩
  · exact .inl rfl
  · exact .inr ⟨m, rfl, h m List.mem_cons_self⟩
  · simp [h m, h m'] at hnodup

/-! ### The variable -/

/-- The first three words from the first `var` on. -/
def varWords? (s : List Char) : Option (List Char × List Char × List Char) :=
  (behind? "var".toList s).bind fun behind =>
    match runs isTypeChar (("var".toList ++ behind).takeWhile isVariableChar) with
    | qualifier :: name :: datatype :: _ => some (qualifier, name, datatype)
    | _ => none

/-- The tag of a line, where it is not blank. -/
def tag? (line : List Char) : Option String :=
  (annotation? "tag" line).bind fun found =>
    if (trim found.1).isEmpty then none else some (String.ofList (trim found.1))

theorem Declaration.ofLine?_eq {line afterGroup afterBinding : List Char} {g b : UInt32}
    (hg : numberAnnotation? "group" line = some (g, afterGroup))
    (hb : numberAnnotation? "binding" line = some (b, afterBinding)) :
    Declaration.ofLine? line =
      (varWords? (if afterGroup.length ≤ afterBinding.length then afterGroup else afterBinding)).map
        fun (qualifier, name, datatype) =>
          ⟨g, b, String.ofList qualifier, String.ofList name, String.ofList datatype,
            tag? line⟩ := by
  rw [Declaration.ofLine?, hg, hb, varWords?, behind?]
  simp only [Option.bind_eq_bind, Option.bind_some]
  generalize (if afterGroup.length ≤ afterBinding.length then afterGroup else afterBinding) = rest
  cases cut? "var".toList rest with
  | none => rfl
  | some parts =>
    simp only [Option.bind_some, Option.map_some]
    generalize runs isTypeChar _ = words
    rcases words with _ | ⟨qualifier, _ | ⟨name, _ | ⟨datatype, _⟩⟩⟩ <;> rfl

theorem varWords?_congr {t : List Char} (h : behind? "var".toList s = behind? "var".toList t) :
    varWords? s = varWords? t := by
  rw [varWords?, h]
  rfl

theorem Blanks.runs_append (b : Blanks) (s : List Char) :
    runs isTypeChar (b.text ++ s) = runs isTypeChar s :=
  runs_append_of_forall_not (fun c hc => isTypeChar_of_isBlank (b.isBlank_of_mem c hc)) s

/-- A word ends at the blanks behind it, and where there are none at what follows them. -/
theorem Blanks.ends_word (b : Blanks)
    (h : b.text = [] → ∀ c ∈ s.head?, isTypeChar c = false) :
    ∀ c ∈ (b.text ++ s).head?, isTypeChar c = false := by
  cases hb : b.text with
  | nil => exact h hb
  | cons d blanks =>
    rintro c ⟨rfl⟩
    exact isTypeChar_of_isBlank (b.isBlank_of_mem d (hb ▸ List.mem_cons_self))

theorem Layout.gap_ends_word (l : Layout) : ∀ c ∈ (l.gap.text ++ s).head?, isTypeChar c = false :=
  l.gap.ends_word fun hgap => absurd hgap l.gap_ne_nil

theorem isVariableChar_of_isTypeChar {c : Char} (h : isTypeChar c = true) :
    isVariableChar c = true := by
  simp [isVariableChar, h]

theorem Blanks.isVariableChar_of_mem (b : Blanks) : ∀ c ∈ b.text, isVariableChar c = true :=
  fun c hc => by simp [isVariableChar, b.isBlank_of_mem c hc]

/-- What the words of a variable have to be made of. -/
structure AreWords (qualifier name datatype : List Char) : Prop where
  hasVar : "var".toList <+: qualifier
  qualifier : ∀ c ∈ qualifier, isTypeChar c = true
  name_ne_nil : name ≠ []
  name : ∀ c ∈ name, isTypeChar c = true
  datatype_ne_nil : datatype ≠ []
  datatype : ∀ c ∈ datatype, isTypeChar c = true

namespace AreWords

variable {qualifier name datatype : List Char}

theorem isVariableChar_of_mem (h : AreWords qualifier name datatype) (l : Layout) :
    ∀ c ∈ l.words qualifier name datatype, isVariableChar c = true := by
  intro c hc
  simp only [Layout.words, List.mem_append, List.mem_cons] at hc
  rcases hc with hc | hc | hc | hc | rfl | hc | hc | hc
  · exact isVariableChar_of_isTypeChar (h.qualifier c hc)
  · exact l.gap.isVariableChar_of_mem c hc
  · exact isVariableChar_of_isTypeChar (h.name c hc)
  · exact l.afterName.isVariableChar_of_mem c hc
  · decide
  · exact l.afterColon.isVariableChar_of_mem c hc
  · exact isVariableChar_of_isTypeChar (h.datatype c hc)
  · exact l.afterType.isVariableChar_of_mem c hc

theorem runs_words (h : AreWords qualifier name datatype) (l : Layout) :
    runs isTypeChar (l.words qualifier name datatype) = [qualifier, name, datatype] := by
  have hqualifier_ne : qualifier ≠ [] := by
    rintro rfl
    simpa using h.hasVar.length_le
  have hcolon : isTypeChar ':' = false := by decide
  rw [Layout.words,
    runs_append_of_forall hqualifier_ne h.qualifier l.gap_ends_word, l.gap.runs_append,
    runs_append_of_forall h.name_ne_nil h.name
      (l.afterName.ends_word fun _ => by simp [hcolon]), l.afterName.runs_append,
    runs_cons_of_not hcolon, l.afterColon.runs_append, ← List.append_nil l.afterType.text,
    runs_append_of_forall h.datatype_ne_nil h.datatype
      (l.afterType.ends_word fun _ => by simp), l.afterType.runs_append]
  rfl

/-- A variable is read as its words, wherever blanks stand. -/
theorem varWords?_field (h : AreWords qualifier name datatype) (l : Layout) :
    varWords? (l.field qualifier name datatype ';') = some (qualifier, name, datatype) := by
  have htake : (l.field qualifier name datatype ';').takeWhile isVariableChar =
      l.words qualifier name datatype := by
    have hstop : isVariableChar ';' = false := by decide
    rw [Layout.field, List.takeWhile_append_of_pos (h.isVariableChar_of_mem l),
      List.takeWhile_cons_of_neg (by simp [hstop]), List.append_nil]
  have hqualifier : qualifier <+: l.field qualifier name datatype ';' := by
    rw [Layout.field, Layout.words, List.append_assoc]
    exact List.prefix_append _ _
  obtain ⟨behindVar, hbehind⟩ := h.hasVar.trans hqualifier
  rw [← hbehind] at htake ⊢
  rw [varWords?, behind?_append_self, Option.bind_some, htake, h.runs_words l]

end AreWords

/-! ### Declarations -/

namespace Declaration

variable {d : Declaration}

theorem Proper.areWords (h : d.Proper) :
    AreWords d.qualifier.toList d.name.toList d.datatype.toList := by
  refine ⟨?_, ?_, h.name_ne_nil, fun c hc => isTypeChar_of_isWordChar (h.name c hc),
    h.datatype_ne_nil, h.datatype⟩
  · rcases h.qualifier with hq | ⟨q, -, hq⟩
    · exact ⟨[], hq.symm⟩
    · exact ⟨'<' :: (q ++ ['>']), hq.symm⟩
  · intro c hc
    rcases h.qualifier with hq | ⟨q, hword, hq⟩
    · rw [hq] at hc
      exact List.all_eq_true.1 (by decide : "var".toList.all isTypeChar = true) c hc
    · rw [hq, List.mem_append, List.mem_append, List.mem_singleton] at hc
      rcases hc with hc | hc | rfl
      · exact List.all_eq_true.1 (by decide : "var<".toList.all isTypeChar = true) c hc
      · exact isTypeChar_of_isWordChar (hword c hc)
      · decide

theorem Proper.at_notMem_field (h : d.Proper) (l : Layout) : '@' ∉ d.field l := by
  have hwords : '@' ∉ l.words d.qualifier.toList d.name.toList d.datatype.toList := fun hmem =>
    absurd (h.areWords.isVariableChar_of_mem l '@' hmem) (by decide)
  simp [field, Layout.field, hwords, l.back.at_notMem]

theorem Proper.varWords?_behind (h : d.Proper) (l : Layout) (b : Blanks) :
    varWords? (b.text ++ d.field l) =
      some (d.qualifier.toList, d.name.toList, d.datatype.toList) := by
  have hskip (s : List Char) : behind? "var".toList (b.text ++ s) = behind? "var".toList s :=
    behind?_append_of_notMem (b.notMem (by decide)) "ar".toList s
  rw [varWords?_congr (hskip _), field, h.areWords.varWords?_field l]

theorem nodup_labels (hperm : (marks.map Mark.entry).Perm d.labels) :
    (marks.map Mark.label).Nodup := by
  have hlabels : (d.labels.map Prod.fst).Nodup := by
    cases htag : d.tag <;> simp [labels, htag]
  have hmap : marks.map Mark.label = (marks.map Mark.entry).map Prod.fst := by
    rw [List.map_map]
    rfl
  rw [hmap]
  exact (hperm.map Prod.fst).nodup_iff.2 hlabels

theorem tag?_line (h : d.Proper) (l : Layout) (hperm : (marks.map Mark.entry).Perm d.labels) :
    tag? (d.line l marks) = d.tag := by
  cases htag : d.tag with
  | none =>
    have habsent : ∀ m ∈ marks, m.label ≠ .tag := by
      intro m hm heq
      have hmem : m.entry ∈ d.labels := hperm.mem_iff.1 (List.mem_map_of_mem hm)
      simp [labels, htag, Mark.entry, heq] at hmem
    rw [tag?, line]
    exact congrArg (Option.bind · _) (annotation?_of_absent l habsent (h.at_notMem_field l))
  | some tag =>
    obtain ⟨hne, htrim⟩ := h.tag tag htag
    obtain ⟨m, hm, hentry⟩ : ∃ m ∈ marks, m.entry = (.tag, tag.toList) :=
      List.mem_map.1 (hperm.mem_iff.2 (by simp [labels, htag]))
    obtain ⟨hlabel, hcontents⟩ := Prod.mk.inj hentry
    obtain ⟨earlier, later, rfl⟩ := List.append_of_mem hm
    have hread := annotation?_of_first l (label_ne_of_nodup (nodup_labels hperm)).1 later
      (d.field l)
    rw [hlabel, hcontents] at hread
    have hnonempty : ¬(trim tag.toList).isEmpty = true := by simp [htrim, hne]
    rw [tag?, line]
    refine (congrArg (Option.bind · _) hread).trans ((if_neg hnonempty).trans ?_)
    simp only [htrim, String.ofList_toList]

/-- The variable is looked for behind the later of the two numbers. -/
theorem ofLine?_of_numbers {g b : UInt32} {first middle later : List Mark} {n₁ n₂ : Mark}
    (l : Layout) (s : List Char) (hmarks : marks = first ++ n₁ :: (middle ++ n₂ :: later))
    (hnodup : (marks.map Mark.label).Nodup)
    (hnumbers :
      n₁.entry = (.group, (toString g).toList) ∧ n₂.entry = (.binding, (toString b).toList) ∨
      n₁.entry = (.binding, (toString b).toList) ∧ n₂.entry = (.group, (toString g).toList)) :
    ofLine? (l.line marks s) = (varWords? (n₂.gap.text ++ (later.flatMap Mark.text ++ s))).map
      fun (qualifier, name, datatype) =>
        ⟨g, b, String.ofList qualifier, String.ofList name, String.ofList datatype,
          tag? (l.line marks s)⟩ := by
  have hmarks₂ : marks = (first ++ n₁ :: middle) ++ n₂ :: later := by simp [hmarks]
  have hlength : (n₂.gap.text ++ (later.flatMap Mark.text ++ s)).length <
      (n₁.gap.text ++ ((middle ++ n₂ :: later).flatMap Mark.text ++ s)).length := by
    simp only [Mark.text, List.flatMap_append, List.flatMap_cons, List.length_append,
      List.length_cons]
    omega
  rcases hnumbers with ⟨h₁, h₂⟩ | ⟨h₁, h₂⟩
  all_goals
    obtain ⟨hlabel₁, hcontents₁⟩ := Prod.mk.inj h₁
    obtain ⟨hlabel₂, hcontents₂⟩ := Prod.mk.inj h₂
    have hread₁ := numberAnnotation?_of_first l (label_ne_of_nodup (hmarks ▸ hnodup)).1 hcontents₁
      (middle ++ n₂ :: later) s
    have hread₂ := numberAnnotation?_of_first l (label_ne_of_nodup (hmarks₂ ▸ hnodup)).1 hcontents₂
      later s
    rw [hlabel₁, ← hmarks] at hread₁
    rw [hlabel₂, ← hmarks₂] at hread₂
  · rw [ofLine?_eq hread₁ hread₂, if_neg (Nat.not_le.2 hlength)]
  · rw [ofLine?_eq hread₂ hread₁, if_pos (Nat.le_of_lt hlength)]

theorem label_of_mem_labels {entry : Label × List Char} (h : entry ∈ d.labels) :
    entry.1 = .tag ∨ entry.1 = .group ∨ entry.1 = .binding := by
  rcases List.mem_append.1 h with h | h
  · obtain ⟨tag, -, rfl⟩ := List.mem_map.1 h
    exact .inl rfl
  · simp only [List.mem_cons, List.not_mem_nil, or_false] at h
    rcases h with rfl | rfl
    · exact .inr (.inl rfl)
    · exact .inr (.inr rfl)

/-- The two numbers of a line, in the order in which they are written. -/
theorem exists_numbers (hperm : (marks.map Mark.entry).Perm d.labels) :
    ∃ first n₁ middle n₂ later, marks = first ++ n₁ :: (middle ++ n₂ :: later) ∧
      (n₁.entry = (.group, (toString d.group).toList) ∧
          n₂.entry = (.binding, (toString d.binding).toList) ∨
        n₁.entry = (.binding, (toString d.binding).toList) ∧
          n₂.entry = (.group, (toString d.group).toList)) := by
  obtain ⟨g, hg, hgroup⟩ : ∃ m ∈ marks, m.entry = (.group, (toString d.group).toList) :=
    List.mem_map.1 (hperm.mem_iff.2 (by simp [labels]))
  obtain ⟨b, hb, hbinding⟩ : ∃ m ∈ marks, m.entry = (.binding, (toString d.binding).toList) :=
    List.mem_map.1 (hperm.mem_iff.2 (by simp [labels]))
  obtain ⟨before, after, rfl⟩ := List.append_of_mem hg
  rcases List.mem_append.1 hb with hb | hb
  · obtain ⟨first, middle, rfl⟩ := List.append_of_mem hb
    exact ⟨first, b, middle, g, after, by simp, .inr ⟨hbinding, hgroup⟩⟩
  · rcases List.mem_cons.1 hb with rfl | hb
    · simp [hgroup] at hbinding
    · obtain ⟨middle, later, rfl⟩ := List.append_of_mem hb
      exact ⟨before, g, middle, b, later, rfl, .inl ⟨hgroup, hbinding⟩⟩

/-- A line is read behind its last number: all that stands there besides the variable is the tag,
where it is written last. -/
theorem ofLine?_line (h : d.Proper) (l : Layout) (hperm : (marks.map Mark.entry).Perm d.labels) :
    ∃ earlier n later, marks = earlier ++ n :: later ∧ n.label ≠ .tag ∧
      (later = [] ∨ ∃ m, later = [m] ∧ m.label = .tag) ∧
      ofLine? (d.line l marks) =
        (varWords? (n.gap.text ++ (later.flatMap Mark.text ++ d.field l))).map
          fun (qualifier, name, datatype) => ⟨d.group, d.binding, String.ofList qualifier,
            String.ofList name, String.ofList datatype, d.tag⟩ := by
  have hnodup := nodup_labels hperm
  obtain ⟨first, n₁, middle, n₂, later, hmarks, hnumbers⟩ := exists_numbers hperm
  have hmarks₂ : marks = (first ++ n₁ :: middle) ++ n₂ :: later := by simp [hmarks]
  refine ⟨first ++ n₁ :: middle, n₂, later, hmarks₂, ?_, ?_, ?_⟩
  · rcases hnumbers with ⟨-, h₂⟩ | ⟨-, h₂⟩ <;> simp [(Prod.mk.inj h₂).1]
  · have hlater : (later.map Mark.label).Nodup := by
      rw [hmarks₂, List.map_append, List.map_cons] at hnodup
      exact (List.nodup_cons.1 (List.nodup_append.1 hnodup).2.1).2
    refine eq_nil_or_singleton_of_label hlater fun m hm => ?_
    have hlabel : m.label = .tag ∨ m.label = .group ∨ m.label = .binding :=
      label_of_mem_labels (hperm.mem_iff.1 (List.mem_map_of_mem (by simp [hmarks, hm])))
    have hne₁ : m.label ≠ n₁.label := (label_ne_of_nodup (hmarks ▸ hnodup)).2 m (by simp [hm])
    have hne₂ : m.label ≠ n₂.label := (label_ne_of_nodup (hmarks₂ ▸ hnodup)).2 m hm
    rcases hnumbers with ⟨h₁, h₂⟩ | ⟨h₁, h₂⟩
    all_goals
      rw [(Prod.mk.inj h₁).1] at hne₁
      rw [(Prod.mk.inj h₂).1] at hne₂
      simpa [hne₁, hne₂] using hlabel
  · rw [← tag?_line h l hperm]
    exact ofLine?_of_numbers l (d.field l) hmarks hnodup hnumbers

theorem ofLine?_line_inOrder (h : d.Proper) (l : Layout)
    (hmarks : marks.map Mark.entry = d.labels) : ofLine? (d.line l marks) = some d := by
  obtain ⟨earlier, n, later, rfl, -, hlater, hread⟩ :=
    ofLine?_line h l (List.Perm.of_eq hmarks)
  have hnone : later = [] := by
    rcases hlater with rfl | ⟨m, rfl, hlabel⟩
    · rfl
    · have hlast := congrArg List.getLast? hmarks
      simp [labels, Mark.entry, hlabel] at hlast
  subst hnone
  rw [hread, List.flatMap_nil, List.nil_append, h.varWords?_behind l n.gap, Option.map_some]
  simp only [String.ofList_toList]

end Declaration

/-! ### Vertex inputs -/

namespace VertexInput

variable {v : VertexInput} {name : List Char}

/-- The part of a line from the type on. -/
def typePart (v : VertexInput) (l : Layout) : List Char :=
  l.afterColon.text ++ (v.datatype.toList ++ (l.afterType.text ++ ',' :: l.back.text))

/-- The part of a line from the semantic on. -/
def semanticPart (v : VertexInput) (l : Layout) (name : List Char) : List Char :=
  v.semantic.toList ++ (l.gap.text ++ (name ++ (l.afterName.text ++ ':' :: v.typePart l)))

theorem exists_cut?_attributeMark (l : Layout) (name : List Char) (hlabel : m.label = .location) :
    ∃ before, cut? attributeMark (v.line l m name) = some (before, v.semanticPart l name) := by
  have hkey : attributeMark = '@' :: "attribute=".toList := rfl
  have hother (s : List Char) : ('@' :: "attribute=".toList).isPrefixOf (m.text ++ s) = false := by
    rw [Mark.text, hlabel]
    rfl
  have hfield : l.field (attributeMark ++ v.semantic.toList) name v.datatype.toList ',' =
      attributeMark ++ v.semanticPart l name := by
    simp only [Layout.field, Layout.words, semanticPart, typePart, List.append_assoc,
      List.cons_append]
  have hbehind : behind? attributeMark (v.line l m name) = some (v.semanticPart l name) := by
    rw [VertexInput.line, Layout.line, hkey, behind?_append_of_notMem l.front.at_notMem,
      List.flatMap_singleton, behind?_mark_append (hother _), ← hkey, hfield, behind?_append_self]
  obtain ⟨⟨before, behind⟩, hcut, rfl⟩ := Option.map_eq_some_iff.1 hbehind
  exact ⟨before, hcut⟩

theorem Proper.takeWhile_semanticPart (h : v.Proper) (l : Layout) (name : List Char) :
    (v.semanticPart l name).takeWhile isWordChar = v.semantic.toList ∧
      (v.semanticPart l name).dropWhile isWordChar =
        l.gap.text ++ (name ++ (l.afterName.text ++ ':' :: v.typePart l)) := by
  have hend : ∀ c ∈ (l.gap.text ++ (name ++ (l.afterName.text ++ ':' :: v.typePart l))).head?,
      isWordChar c = false := fun c hc =>
    isWordChar_of_isTypeChar (l.gap_ends_word c hc)
  exact ⟨takeWhile_word h.semantic hend, dropWhile_word h.semantic hend⟩

theorem cut?_colon (hname : ∀ c ∈ name, isWordChar c = true) (l : Layout) (s : List Char) :
    cut? [':'] (l.gap.text ++ (name ++ (l.afterName.text ++ ':' :: s))) =
      some (l.gap.text ++ (name ++ l.afterName.text), s) := by
  have hnotMem : ':' ∉ l.gap.text ++ (name ++ l.afterName.text) := by
    have hname : ':' ∉ name := fun hmem => absurd (hname ':' hmem) (by decide)
    simp [hname, l.gap.notMem (c := ':') (by decide), l.afterName.notMem (c := ':') (by decide)]
  simpa using cut?_append_singleton hnotMem s

theorem Proper.takeWhile_typePart (h : v.Proper) (l : Layout) :
    (trimStart (v.typePart l)).takeWhile isTypeChar = v.datatype.toList := by
  have hstart : ∀ c ∈ (v.datatype.toList ++ (l.afterType.text ++ ',' :: l.back.text)).head?,
      isBlank c = false := by
    intro c hc
    have htype : isTypeChar c = true := by
      cases hdatatype : v.datatype.toList with
      | nil => exact absurd hdatatype h.datatype_ne_nil
      | cons d datatype =>
        rw [hdatatype] at hc
        obtain ⟨rfl⟩ := hc
        exact h.datatype c (hdatatype ▸ List.mem_cons_self)
    exact Bool.eq_false_iff.2 fun hblank => by simp [isTypeChar_of_isBlank hblank] at htype
  have hcomma : isTypeChar ',' = false := by decide
  rw [trimStart, typePart, dropWhile_word l.afterColon.isBlank_of_mem hstart,
    takeWhile_word h.datatype (l.afterType.ends_word fun _ => by simp [hcomma])]

theorem ofLine?_line (h : v.Proper) (hname : ∀ c ∈ name, isWordChar c = true) (l : Layout)
    (hm : m.entry = (.location, (toString v.location).toList)) :
    VertexInput.ofLine? (v.line l m name) = some v := by
  obtain ⟨hlabel, hcontents⟩ := Prod.mk.inj hm
  obtain ⟨rest, hlocation⟩ :
      ∃ rest, numberAnnotation? "location" (v.line l m name) = some (v.location, rest) := by
    have hread := numberAnnotation?_of_first l (List.forall_mem_nil _) hcontents []
      (l.field (attributeMark ++ v.semantic.toList) name v.datatype.toList ',')
    rw [hlabel] at hread
    exact ⟨_, hread⟩
  obtain ⟨before, hsemantic⟩ := exists_cut?_attributeMark (v := v) l name hlabel
  obtain ⟨htake, hdrop⟩ := h.takeWhile_semanticPart l name
  have hsemantic_ne : (!v.semantic.toList.isEmpty) = true := by simp [h.semantic_ne_nil]
  have hdatatype_ne : (!v.datatype.toList.isEmpty) = true := by simp [h.datatype_ne_nil]
  -- the steps behind the two searches, one at a time: the name, the colon, the type
  rw [VertexInput.ofLine?, hlocation, hsemantic]
  change ((guard (!((v.semanticPart l name).takeWhile isWordChar).isEmpty) : Option Unit).bind
    fun _ => _) = _
  rw [htake, hsemantic_ne]
  change ((cut? [':'] ((v.semanticPart l name).dropWhile isWordChar)).bind _) = _
  rw [hdrop, cut?_colon hname]
  change ((guard (!((trimStart (v.typePart l)).takeWhile isTypeChar).isEmpty) : Option Unit).bind
    fun _ => _) = _
  rw [h.takeWhile_typePart, hdatatype_ne, String.ofList_toList, String.ofList_toList]
  rfl

end VertexInput

/-! ### Lines -/

/-- What is written as a declaration or as a vertex input is read back as it was, whatever stands
around the parts of its line. -/
theorem lines_read_back :
    (∀ (d : Declaration) (l : Layout) (marks : List Mark), d.Proper →
        marks.map Mark.entry = d.labels → Declaration.ofLine? (d.line l marks) = some d) ∧
      ∀ (v : VertexInput) (l : Layout) (location : Mark) (name : List Char), v.Proper →
        (∀ c ∈ name, isWordChar c = true) →
        location.entry = (.location, (toString v.location).toList) →
        VertexInput.ofLine? (v.line l location name) = some v :=
  ⟨fun _ l _ h hmarks => Declaration.ofLine?_line_inOrder h l hmarks,
    fun _ l _ _ h hname hlocation => VertexInput.ofLine?_line h hname l hlocation⟩

/-- A declaration of which every text has a `var` in it. -/
def Declaration.varied : Declaration :=
  ⟨1, 0, "var<var>", "var_m", "array<var>", some "variance"⟩

theorem Declaration.proper_varied : Declaration.varied.Proper where
  qualifier := .inr ⟨"var".toList, List.all_eq_true.1 (by decide), by decide⟩
  name_ne_nil := by decide
  name := List.all_eq_true.1 (by decide)
  datatype_ne_nil := by decide
  datatype := List.all_eq_true.1 (by decide)
  tag := by
    rintro _ ⟨⟩
    decide

def Blanks.space : Blanks := ⟨[' '], List.all_eq_true.1 (by decide)⟩

def Blanks.none : Blanks := ⟨[], List.forall_mem_nil _⟩

def Mark.variance : Mark := ⟨.tag, "variance".toList, .space, by decide, by decide⟩

def Mark.firstGroup : Mark := ⟨.group, ['1'], .none, by decide, by decide⟩

def Mark.noBinding : Mark := ⟨.binding, ['0'], .space, by decide, by decide⟩

def Layout.commented : Layout where
  front := ⟨"var ".toList, by decide⟩
  gap := .space
  gap_ne_nil := by decide
  afterName := .none
  afterColon := .space
  afterType := .none
  back := ⟨" // var".toList, by decide⟩

def Mark.secondLocation : Mark := ⟨.location, ['2'], .space, by decide, by decide⟩

theorem lines_read_back_varied :
    Declaration.ofLine?
        "var @tag(variance) @group(1)@binding(0) var<var> var_m: array<var>; // var".toList =
      some .varied ∧
    VertexInput.ofLine? "var @location(2) @attribute=TEXCOORD_0 uv: vec2<f32>, // var".toList =
      some ⟨"TEXCOORD_0", 2, "vec2<f32>"⟩ := by
  have hdeclaration : Declaration.varied.line .commented [.variance, .firstGroup, .noBinding] =
      "var @tag(variance) @group(1)@binding(0) var<var> var_m: array<var>; // var".toList := by
    decide +kernel
  have hinput : VertexInput.line ⟨"TEXCOORD_0", 2, "vec2<f32>"⟩ .commented .secondLocation
      "uv".toList = "var @location(2) @attribute=TEXCOORD_0 uv: vec2<f32>, // var".toList := by
    decide +kernel
  rw [← hdeclaration, ← hinput]
  exact ⟨lines_read_back.1 _ _ _ Declaration.proper_varied (by decide),
    lines_read_back.2 _ _ _ _ ⟨by decide, List.all_eq_true.1 (by decide), by decide,
      List.all_eq_true.1 (by decide)⟩ (List.all_eq_true.1 (by decide)) (by decide)⟩

end Diorama.Shader

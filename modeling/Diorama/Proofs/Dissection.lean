import Mathlib.Data.List.Forall2
import Diorama.Shader.Annotation
import Diorama.Proofs.Scanning

/-! The parts of a text with annotations.  Read from left to right, a text is plain up to the first
mark of an annotation; the annotation goes as far as it can, and behind it the text goes on in the
same way.  Every text has exactly one such dissection.  Stripping keeps the plain parts and fails at
a wide blank behind the name of an attribute. -/

namespace Diorama.Shader

open Text

/-- What the annotations that are stripped begin with. -/
def strippedMarks : List (List Char) := [attributeMark, tagMark]

/-- No annotation begins in the text. -/
def Plain (s : List Char) : Prop := ∀ mark ∈ strippedMarks, ¬mark <:+: s

/-- An annotation that is stripped. -/
inductive Removal where
  | tag (contents : List Char)
  /-- A tag without a closing parenthesis. -/
  | openTag (contents : List Char)
  /-- The name of an attribute, with the blank behind it if there is one. -/
  | input (name : List Char) (blank : Option Char)
deriving DecidableEq, Repr

namespace Removal

def text : Removal → List Char
  | tag contents => tagMark ++ (contents ++ [')'])
  | openTag contents => tagMark ++ contents
  | input name blank => attributeMark ++ (name ++ blank.toList)

/-- The annotation is as long as it can be with `rest` behind it.  A name that has a blank behind it
is over there, since a blank is no word character. -/
def EndsBefore (rest : List Char) : Removal → Prop
  | tag contents => ')' ∉ contents
  | openTag contents => ')' ∉ contents ∧ rest = []
  | input name (some blank) => (∀ c ∈ name, isWordChar c = true) ∧ isBlank blank = true
  | input name none => (∀ c ∈ name, isWordChar c = true) ∧
      ∀ c ∈ rest.head?, isWordChar c = false ∧ isBlank c = false

/-- The annotation ends in a blank of several bytes. -/
def isWide : Removal → Bool
  | input _ (some blank) => 1 < blank.utf8Size
  | _ => false

end Removal

/-- A text as plain parts with annotations between them. -/
inductive Dissection where
  | last (plain : List Char)
  | next (plain : List Char) (removal : Removal) (behind : Dissection)
deriving DecidableEq, Repr

namespace Dissection

def text : Dissection → List Char
  | last plain => plain
  | next plain removal behind => plain ++ (removal.text ++ behind.text)

/-- The plain parts. -/
def kept : Dissection → List Char
  | last plain => plain
  | next plain _ behind => plain ++ behind.kept

def removals : Dissection → List Removal
  | last _ => []
  | next _ removal behind => removal :: behind.removals

def hasWideBlank (d : Dissection) : Bool := d.removals.any Removal.isWide

/-- Annotations begin where plain parts end and nowhere before, and go as far as they can. -/
def Proper : Dissection → Prop
  | last plain => Plain plain
  | next plain removal behind => Plain plain ∧ removal.EndsBefore behind.text ∧ behind.Proper

/-- The parts of `s`. -/
structure Of (d : Dissection) (s : List Char) : Prop where
  proper : d.Proper
  text_eq : d.text = s

end Dissection

/-- The control characters that become spaces, and all others, which stay. -/
inductive Flattens : Char → Char → Prop
  | control {c : Char} : c ∈ ['\n', '\r', '\t', '\x08', '\x0c'] → Flattens c ' '
  | other {c : Char} : c ∉ ['\n', '\r', '\t', '\x08', '\x0c'] → Flattens c c

variable {c : Char} {mark plain s t : List Char} {removal : Removal} {d e : Dissection}

/-! ### Marks -/

/-- A mark holds no second `@`. -/
theorem exists_key_of_mem (h : mark ∈ strippedMarks) : ∃ key, mark = '@' :: key ∧ '@' ∉ key := by
  simp only [strippedMarks, List.mem_cons, List.not_mem_nil, or_false] at h
  rcases h with rfl | rfl
  · exact ⟨"attribute=".toList, rfl, by decide⟩
  · exact ⟨"tag(".toList, rfl, by decide⟩

/-- A mark stands at the front. -/
def Begins (s : List Char) : Prop := ∃ mark ∈ strippedMarks, mark <+: s

theorem Begins.head?_eq (h : Begins s) : s.head? = some '@' := by
  obtain ⟨mark, hmark, rest, rfl⟩ := h
  obtain ⟨key, rfl, -⟩ := exists_key_of_mem hmark
  rfl

theorem plain_nil : Plain [] := by
  intro mark hmark hinfix
  obtain ⟨key, rfl, -⟩ := exists_key_of_mem hmark
  simp at hinfix

theorem plain_cons_iff : Plain (c :: s) ↔ ¬Begins (c :: s) ∧ Plain s := by
  simp only [Plain, Begins, List.infix_cons_iff, not_or, not_exists, not_and]
  exact forall₂_and

/-- No mark begins in a plain text and ends behind it, where the text behind it begins with `@`. -/
theorem Plain.not_begins_append (h : Plain (c :: plain)) (hs : ∀ d ∈ s.head?, d = '@') :
    ¬Begins (c :: (plain ++ s)) := by
  rintro ⟨mark, hmark, rest, heq⟩
  rcases List.append_eq_append_iff.1 (show mark ++ rest = (c :: plain) ++ s from heq) with
    ⟨more, hplain, -⟩ | ⟨more, hsplit, hbehind⟩
  -- a mark that does not end in the plain text would have the `@` inside of it
  · exact h mark hmark ⟨[], more, hplain.symm⟩
  · cases more with
    | nil => exact h mark hmark (by simp [hsplit])
    | cons d more =>
      obtain rfl : d = '@' := hs d (by simp [hbehind])
      obtain ⟨key, hkey, hnotMem⟩ := exists_key_of_mem hmark
      rw [hsplit, List.cons_append] at hkey
      exact hnotMem ((List.cons.inj hkey).2 ▸ by simp)

/-- A text has one place where its first mark begins. -/
theorem Plain.append_inj {plain' : List Char} (h : Plain plain) (h' : Plain plain')
    (hs : Begins s) (ht : Begins t) (heq : plain ++ s = plain' ++ t) : plain = plain' ∧ s = t := by
  have hfirst {s : List Char} (hs : Begins s) : ∀ d ∈ s.head?, d = '@' := by
    simp [hs.head?_eq]
  induction plain generalizing plain' with
  | nil =>
    cases plain' with
    | nil => exact ⟨rfl, heq⟩
    | cons c plain' =>
      rw [List.nil_append, List.cons_append] at heq
      exact absurd (heq ▸ hs) (h'.not_begins_append (hfirst ht))
  | cons c plain ih =>
    cases plain' with
    | nil =>
      rw [List.nil_append, List.cons_append] at heq
      exact absurd (heq ▸ ht) (h.not_begins_append (hfirst hs))
    | cons d plain' =>
      obtain ⟨rfl, hrest⟩ := List.cons.inj heq
      obtain ⟨rfl, rfl⟩ := ih (plain_cons_iff.1 h).2 (plain_cons_iff.1 h').2 hrest
      exact ⟨rfl, rfl⟩

namespace Removal

theorem begins (removal : Removal) (s : List Char) : Begins (removal.text ++ s) := by
  cases removal with
  | tag contents => exact ⟨tagMark, by simp [strippedMarks], by simp [text]⟩
  | openTag contents => exact ⟨tagMark, by simp [strippedMarks], by simp [text]⟩
  | input name blank => exact ⟨attributeMark, by simp [strippedMarks], by simp [text]⟩

/-- At a mark an annotation can be taken off. -/
theorem exists_of_begins (h : Begins s) : ∃ (removal : Removal) (rest : List Char),
    removal.EndsBefore rest ∧ s = removal.text ++ rest := by
  obtain ⟨mark, hmark, t, rfl⟩ := h
  simp only [strippedMarks, List.mem_cons, List.not_mem_nil, or_false] at hmark
  rcases hmark with rfl | rfl
  · obtain ⟨name, rest, rfl, hname, hrest⟩ := exists_word_append isWordChar t
    cases rest with
    | nil => exact ⟨.input name none, [], ⟨hname, by simp⟩, by simp [text]⟩
    | cons c rest =>
      cases hblank : isBlank c with
      | true => exact ⟨.input name (some c), rest, ⟨hname, hblank⟩, by simp [text]⟩
      | false =>
        refine ⟨.input name none, c :: rest, ⟨hname, ?_⟩, by simp [text]⟩
        rintro _ ⟨⟩
        exact ⟨hrest c rfl, hblank⟩
  · by_cases hparen : ')' ∈ t
    · obtain ⟨contents, rest, rfl, hcontents⟩ := List.eq_append_cons_of_mem hparen
      exact ⟨.tag contents, rest, hcontents, by simp [text]⟩
    · exact ⟨.openTag t, [], ⟨hparen, rfl⟩, by simp [text]⟩

theorem tag_append (contents s : List Char) :
    (tag contents).text ++ s = tagMark ++ (contents ++ ')' :: s) := by
  simp [text]

theorem openTag_append_nil (contents : List Char) :
    (openTag contents).text ++ [] = tagMark ++ contents :=
  List.append_nil _

theorem input_append (name : List Char) (blank : Option Char) (s : List Char) :
    (input name blank).text ++ s = attributeMark ++ (name ++ (blank.toList ++ s)) := by
  simp [text]

/-- The marks differ in their second character. -/
theorem tagMark_append_ne (s t : List Char) : tagMark ++ s ≠ attributeMark ++ t := by
  intro h
  have hmarks : '@' :: 't' :: ("ag(".toList ++ s) = '@' :: 'a' :: ("ttribute=".toList ++ t) := h
  simp at hmarks

theorem ends_name {name : List Char} {blank : Option Char}
    (h : (input name blank).EndsBefore s) :
    (∀ c ∈ name, isWordChar c = true) ∧ ∀ c ∈ (blank.toList ++ s).head?, isWordChar c = false := by
  cases blank with
  | none => exact ⟨h.1, fun c hc => (h.2 c hc).1⟩
  | some blank =>
    refine ⟨h.1, ?_⟩
    rintro _ ⟨⟩
    exact isWordChar_of_isTypeChar (isTypeChar_of_isBlank h.2)

/-- A name and its blank can be told from what stands behind them. -/
theorem input_inj {name name' : List Char} {blank blank' : Option Char}
    (ha : (input name blank).EndsBefore s) (hb : (input name' blank').EndsBefore t)
    (h : name ++ (blank.toList ++ s) = name' ++ (blank'.toList ++ t)) :
    name = name' ∧ blank = blank' ∧ s = t := by
  obtain ⟨hname, hstop⟩ := ends_name ha
  obtain ⟨hname', hstop'⟩ := ends_name hb
  obtain rfl : name = name' := by
    rw [← takeWhile_word hname hstop, h, takeWhile_word hname' hstop']
  have hrest := List.append_cancel_left h
  -- where only one of the two has a blank, the other has that blank behind it
  cases blank with
  | none =>
    cases blank' with
    | none => exact ⟨rfl, rfl, hrest⟩
    | some c =>
      obtain rfl : s = c :: t := hrest
      simpa [hb.2] using (ha.2 c rfl).2
  | some c =>
    cases blank' with
    | none =>
      obtain rfl : c :: s = t := hrest
      simpa [ha.2] using (hb.2 c rfl).2
    | some d =>
      obtain ⟨rfl, rfl⟩ := List.cons.inj (show c :: s = d :: t from hrest)
      exact ⟨rfl, rfl, rfl⟩

/-- An annotation can be told from what stands behind it. -/
theorem append_inj {a b : Removal} (ha : a.EndsBefore s) (hb : b.EndsBefore t)
    (h : a.text ++ s = b.text ++ t) : a = b ∧ s = t := by
  cases a with
  | tag contents =>
    rw [tag_append] at h
    cases b with
    | tag contents' =>
      rw [tag_append, List.append_cancel_left_eq] at h
      have hcut := congrArg (cut? [')']) h
      rw [cut?_append_singleton ha, cut?_append_singleton hb] at hcut
      simpa using hcut
    | openTag contents' =>
      obtain ⟨hparen, rfl⟩ := hb
      rw [openTag_append_nil, List.append_cancel_left_eq] at h
      exact absurd (h ▸ by simp) hparen
    | input name blank => exact absurd (input_append .. ▸ h) (tagMark_append_ne _ _)
  | openTag contents =>
    obtain ⟨hparen, rfl⟩ := ha
    rw [openTag_append_nil] at h
    cases b with
    | tag contents' =>
      rw [tag_append, List.append_cancel_left_eq] at h
      exact absurd (h ▸ by simp) hparen
    | openTag contents' =>
      obtain ⟨-, rfl⟩ := hb
      rw [openTag_append_nil, List.append_cancel_left_eq] at h
      exact ⟨congrArg openTag h, rfl⟩
    | input name blank => exact absurd (input_append .. ▸ h) (tagMark_append_ne _ _)
  | input name blank =>
    rw [input_append] at h
    cases b with
    | tag contents => exact absurd (tag_append .. ▸ h.symm) (tagMark_append_ne _ _)
    | openTag contents =>
      obtain ⟨-, rfl⟩ := hb
      exact absurd (openTag_append_nil _ ▸ h.symm) (tagMark_append_ne _ _)
    | input name' blank' =>
      rw [input_append, List.append_cancel_left_eq] at h
      obtain ⟨rfl, rfl, rfl⟩ := input_inj ha hb h
      exact ⟨rfl, rfl⟩

end Removal

/-! ### The one dissection of a text -/

/-- A text is plain, or it has an annotation behind a plain part. -/
theorem plain_or_exists_removal (s : List Char) :
    Plain s ∨ ∃ (plain : List Char) (removal : Removal) (rest : List Char),
      Plain plain ∧ removal.EndsBefore rest ∧ s = plain ++ (removal.text ++ rest) := by
  induction s with
  | nil => exact .inl plain_nil
  | cons c s ih =>
    by_cases hbegins : Begins (c :: s)
    · obtain ⟨removal, rest, hends, heq⟩ := Removal.exists_of_begins hbegins
      exact .inr ⟨[], removal, rest, plain_nil, hends, heq⟩
    · rcases ih with hplain | ⟨plain, removal, rest, hplain, hends, rfl⟩
      · exact .inl (plain_cons_iff.2 ⟨hbegins, hplain⟩)
      · refine .inr ⟨c :: plain, removal, rest, plain_cons_iff.2 ⟨?_, hplain⟩, hends, rfl⟩
        rintro ⟨mark, hmark, hp⟩
        exact hbegins ⟨mark, hmark, hp.trans (List.prefix_append (c :: plain) _)⟩

theorem Removal.length_text_pos (removal : Removal) : 0 < removal.text.length := by
  refine List.length_pos_iff.2 fun hnil => ?_
  simpa [hnil] using (removal.begins []).head?_eq

theorem Dissection.exists_of (s : List Char) : ∃ d : Dissection, d.Of s := by
  induction hlength : s.length using Nat.strongRecOn generalizing s with
  | ind n ih =>
  rcases plain_or_exists_removal s with hplain | ⟨plain, removal, rest, hplain, hends, rfl⟩
  · exact ⟨.last s, hplain, rfl⟩
  · have hshorter : rest.length < n := by
      have := removal.length_text_pos
      simp only [← hlength, List.length_append]
      omega
    obtain ⟨behind, hproper, rfl⟩ := ih _ hshorter rest rfl
    exact ⟨.next plain removal behind, ⟨hplain, hends, hproper⟩, rfl⟩

/-- A plain text has no annotation in it. -/
theorem Plain.not_eq_append (h : Plain plain) : plain ≠ s ++ (removal.text ++ t) := by
  rintro rfl
  obtain ⟨mark, hmark, rest, hrest⟩ := removal.begins t
  exact h mark hmark ⟨s, rest, by rw [← hrest, List.append_assoc]⟩

theorem Dissection.Proper.unique (hd : d.Proper) (he : e.Proper) (h : d.text = e.text) :
    d = e := by
  induction d generalizing e with
  | last plain =>
    cases e with
    | last plain' => exact congrArg last h
    | next plain' removal behind => exact absurd h (Plain.not_eq_append hd)
  | next plain removal behind ih =>
    cases e with
    | last plain' => exact absurd h.symm (Plain.not_eq_append he)
    | next plain' removal' behind' =>
      obtain ⟨hplain, hends, hbehind⟩ := hd
      obtain ⟨hplain', hends', hbehind'⟩ := he
      obtain ⟨rfl, hrest⟩ := hplain.append_inj hplain' (removal.begins _) (removal'.begins _) h
      obtain ⟨rfl, htext⟩ := Removal.append_inj hends hends' hrest
      rw [ih hbehind hbehind' htext]

/-! ### Stripping -/

theorem withoutAnnotations?_tag (s : List Char) :
    withoutAnnotations? (tagMark ++ s) = withoutAnnotations? (afterParen s) := by
  have hbegins : tagMark.isPrefixOf ('@' :: ("tag(".toList ++ s)) = true :=
    List.isPrefixOf_iff_prefix.2 (List.prefix_append tagMark s)
  change withoutAnnotations? ('@' :: ("tag(".toList ++ s)) = _
  rw [withoutAnnotations?, if_pos hbegins]
  rfl

theorem withoutAnnotations?_attribute (s : List Char) :
    withoutAnnotations? (attributeMark ++ s) =
      if isNameBeforeWideBlank s then none else withoutAnnotations? (afterName s) := by
  have hbegins : attributeMark.isPrefixOf ('@' :: ("attribute=".toList ++ s)) = true :=
    List.isPrefixOf_iff_prefix.2 (List.prefix_append attributeMark s)
  have hother : ¬tagMark.isPrefixOf ('@' :: ("attribute=".toList ++ s)) = true := by
    rw [List.isPrefixOf_iff_prefix]
    rintro ⟨contents, heq⟩
    exact Removal.tagMark_append_ne _ _ heq
  change withoutAnnotations? ('@' :: ("attribute=".toList ++ s)) = _
  rw [withoutAnnotations?, if_neg hother, if_pos hbegins]
  rfl

theorem withoutAnnotations?_cons (h : ¬Begins (c :: s)) :
    withoutAnnotations? (c :: s) = (withoutAnnotations? s).map (c :: ·) := by
  have hnot (mark : List Char) (hmark : mark ∈ strippedMarks) :
      ¬mark.isPrefixOf (c :: s) = true := by
    rw [List.isPrefixOf_iff_prefix]
    exact fun hp => h ⟨mark, hmark, hp⟩
  rw [withoutAnnotations?, if_neg (hnot tagMark (by simp [strippedMarks])),
    if_neg (hnot attributeMark (by simp [strippedMarks]))]

theorem afterParen_eq (s : List Char) : afterParen s = (behind? [')'] s).getD [] := by
  induction s with
  | nil => rfl
  | cons c s ih =>
    by_cases h : c = ')'
    · rw [afterParen, if_pos h, h, show ')' :: s = [')'] ++ s from rfl, behind?_append_self]
      rfl
    · have hbegins : [')'].isPrefixOf (c :: s) = false := by simp [List.isPrefixOf, Ne.symm h]
      rw [afterParen, if_neg h, behind?_cons_of_not_isPrefixOf hbegins, ih]

/-- An annotation is passed over, unless it has a wide blank. -/
theorem withoutAnnotations?_removal (h : removal.EndsBefore s) :
    withoutAnnotations? (removal.text ++ s) =
      if removal.isWide then none else withoutAnnotations? s := by
  cases removal with
  | tag contents =>
    rw [Removal.tag_append, withoutAnnotations?_tag, afterParen_eq, behind?,
      cut?_append_singleton h]
    rfl
  | openTag contents =>
    obtain ⟨hparen, rfl⟩ := h
    rw [Removal.openTag_append_nil, withoutAnnotations?_tag, afterParen_eq,
      behind?_eq_none_of_notMem hparen]
    rfl
  | input name blank =>
    obtain ⟨hname, hstop⟩ := Removal.ends_name h
    rw [Removal.input_append, withoutAnnotations?_attribute, isNameBeforeWideBlank, afterName,
      dropWhile_word hname hstop]
    cases blank with
    | none =>
      cases s with
      | nil => rfl
      | cons c s =>
        have hblank : isBlank c = false := (h.2 c rfl).2
        simp [hblank, Removal.isWide]
    | some c =>
      have hblank : isBlank c = true := h.2
      have hwide : (c.utf8Size != 1) = decide (1 < c.utf8Size) := by
        have := c.utf8Size_pos
        rw [Bool.eq_iff_iff, bne_iff_ne, decide_eq_true_iff]
        omega
      simp [hblank, hwide, Removal.isWide]

/-- A plain text is kept, where it ends or a mark follows. -/
theorem Plain.withoutAnnotations?_append (h : Plain plain) (hs : ∀ d ∈ s.head?, d = '@') :
    withoutAnnotations? (plain ++ s) = (withoutAnnotations? s).map (plain ++ ·) := by
  induction plain with
  | nil => simp
  | cons c plain ih =>
    rw [List.cons_append, withoutAnnotations?_cons (h.not_begins_append hs),
      ih (plain_cons_iff.1 h).2, Option.map_map]
    rfl

/-- What is left of a text are its plain parts. -/
theorem Dissection.Proper.withoutAnnotations?_eq (h : d.Proper) :
    withoutAnnotations? d.text = if d.hasWideBlank then none else some d.kept := by
  induction d with
  | last plain =>
    have hkept := Plain.withoutAnnotations?_append (s := []) h (by simp)
    rw [withoutAnnotations?, Option.map_some, List.append_nil] at hkept
    exact hkept
  | next plain removal behind ih =>
    obtain ⟨hplain, hends, hbehind⟩ := h
    have hfirst : ∀ d ∈ (removal.text ++ behind.text).head?, d = '@' := by
      simp [(removal.begins behind.text).head?_eq]
    rw [text, hplain.withoutAnnotations?_append hfirst, withoutAnnotations?_removal hends,
      ih hbehind]
    have hwide : (next plain removal behind).hasWideBlank =
        (removal.isWide || behind.hasWideBlank) := rfl
    by_cases hhere : removal.isWide = true
    · rw [if_pos hhere, hwide, hhere]
      rfl
    · rw [if_neg hhere, hwide, Bool.eq_false_iff.2 hhere, Bool.false_or]
      split <;> rfl

theorem flattens_iff {c d : Char} : Flattens c d ↔ flattenControl c = d := by
  have hcontrol : c ∈ ['\n', '\r', '\t', '\x08', '\x0c'] ↔
      c = '\n' ∨ c = '\r' ∨ c = '\t' ∨ c = '\x08' ∨ c = '\x0c' := by simp
  constructor
  · rintro (h | h)
    · exact if_pos (hcontrol.1 h)
    · exact if_neg fun hc => h (hcontrol.2 hc)
  · rintro rfl
    by_cases h : c ∈ ['\n', '\r', '\t', '\x08', '\x0c']
    · rw [flattenControl, if_pos (hcontrol.1 h)]
      exact .control h
    · rw [flattenControl, if_neg fun hc => h (hcontrol.2 hc)]
      exact .other h

theorem forall₂_flattens_iff : List.Forall₂ Flattens s t ↔ s.map flattenControl = t := by
  have hflattens : Flattens = fun c d => flattenControl c = d := by
    funext c d
    exact propext flattens_iff
  rw [hflattens, ← List.forall₂_map_left_iff (R := (· = ·)), List.forall₂_eq_eq_eq]

theorem Dissection.Of.stripAnnotations?_eq (h : d.Of s) : stripAnnotations? s =
    if d.hasWideBlank then none else some (d.kept.map flattenControl) := by
  rw [stripAnnotations?, ← h.text_eq, h.proper.withoutAnnotations?_eq]
  cases d.hasWideBlank <;> rfl

/-- A text has one dissection.  Stripping keeps its plain parts, with spaces for control characters,
and gives no result exactly if a wide blank stands behind the name of an attribute. -/
theorem stripAnnotations?_dissects (text : List Char) :
    ∃ d : Dissection, (d.Of text ∧ ∀ other : Dissection, other.Of text → other = d) ∧
      (stripAnnotations? text = none ↔ d.hasWideBlank) ∧
      ∀ stripped, stripAnnotations? text = some stripped ↔
        d.hasWideBlank = false ∧ List.Forall₂ Flattens d.kept stripped := by
  obtain ⟨d, hd⟩ := Dissection.exists_of text
  refine ⟨d, ⟨hd, fun other hother =>
    hother.proper.unique hd.proper (hother.text_eq.trans hd.text_eq.symm)⟩, ?_, fun stripped => ?_⟩
  · rw [hd.stripAnnotations?_eq]
    cases d.hasWideBlank <;> simp
  · rw [hd.stripAnnotations?_eq, forall₂_flattens_iff]
    cases d.hasWideBlank <;> simp [eq_comm]

/-- A mark inside of a tag goes with the tag, and an open tag takes the rest of the text. -/
example : stripAnnotations? "a@tag(@attribute=x)b @attribute=P\tq\n@tag(z".toList =
    some "ab q ".toList := by
  decide +kernel

end Diorama.Shader

import Diorama.Shader.Source
import Diorama.Proofs.Dissection

/-! What is left of a text where annotations are removed from it.  A removal joins the plain parts
on both sides of it, and a mark can be put together there: then the text that is left holds an
annotation again, and does not stay as it is where it is stripped once more. -/

namespace Diorama.Shader

/-- A mark begins at the end of a plain part and ends in what is kept behind the annotation that is
removed there. -/
def Dissection.JoinsMark : Dissection → Prop
  | last _ => False
  | next plain _ behind =>
    (∃ front back, front ++ back ∈ strippedMarks ∧ front ≠ [] ∧ back ≠ [] ∧
      front <:+ plain ∧ back <+: behind.kept) ∨ behind.JoinsMark

variable {c : Char} {mark s text stripped : List Char} {d : Dissection}

/-! ### Control characters -/

theorem flattenControl_of_ne (h : flattenControl c ≠ ' ') : flattenControl c = c := by
  unfold flattenControl at h ⊢
  split
  · next hc => exact absurd (if_pos hc) h
  · rfl

@[simp] theorem flattenControl_flattenControl (c : Char) :
    flattenControl (flattenControl c) = flattenControl c := by
  by_cases h : flattenControl c = ' '
  · rw [h]
    rfl
  · exact congrArg flattenControl (flattenControl_of_ne h)

/-- Marks have neither spaces nor control characters. -/
theorem flat_of_mem (h : mark ∈ strippedMarks) :
    ' ' ∉ mark ∧ mark.map flattenControl = mark := by
  simp only [strippedMarks, List.mem_cons, List.not_mem_nil, or_false] at h
  rcases h with rfl | rfl
  · exact ⟨by decide, by decide⟩
  · exact ⟨by decide, by decide⟩

theorem infix_map_flattenControl_iff (h : mark ∈ strippedMarks) :
    mark <:+: s.map flattenControl ↔ mark <:+: s := by
  obtain ⟨hspace, hflat⟩ := flat_of_mem h
  constructor
  · intro hinfix
    obtain ⟨part, hpart, rfl⟩ := List.infix_map_iff.1 hinfix
    have hsame : part.map flattenControl = part := by
      refine (List.map_congr_left fun c hc => ?_).trans (List.map_id' part)
      exact flattenControl_of_ne fun heq => hspace (heq ▸ List.mem_map_of_mem hc)
    rwa [hsame]
  · intro hinfix
    exact hflat ▸ hinfix.map flattenControl

theorem plain_map_flattenControl_iff : Plain (s.map flattenControl) ↔ Plain s :=
  forall₂_congr fun _ hmark => not_congr (infix_map_flattenControl_iff hmark)

/-! ### Seams -/

/-- The plain parts together hold a mark only where a removal joins one. -/
theorem Dissection.Proper.plain_kept_iff (h : d.Proper) : Plain d.kept ↔ ¬d.JoinsMark := by
  induction d with
  | last plain => exact iff_of_true h not_false
  | next plain removal behind ih =>
    obtain ⟨hplain, -, hbehind⟩ := h
    rw [kept, JoinsMark, not_or, ← ih hbehind]
    -- a mark in the kept text is in the plain part, behind it, or over the end of it
    constructor
    · intro hkept
      refine ⟨?_, fun mark hmark hinfix => ?_⟩
      · rintro ⟨front, back, hmark, -, -, hfront, hback⟩
        have hseam := List.infix_append_iff.2 (.inr (.inr ⟨front, back, rfl, hfront, hback⟩))
        exact hkept _ hmark hseam
      · exact hkept mark hmark (List.infix_append_iff.2 (.inr (.inl hinfix)))
    · rintro ⟨hseam, hkept⟩ mark hmark hinfix
      rcases List.infix_append_iff.1 hinfix with hinfix | hinfix | ⟨front, back, rfl, hfront, hback⟩
      · exact hplain mark hmark hinfix
      · exact hkept mark hmark hinfix
      · refine hseam ⟨front, back, hmark, ?_, ?_, hfront, hback⟩
        · rintro rfl
          exact hkept _ hmark hback.isInfix
        · rintro rfl
          exact hplain _ hmark (by simpa using hfront.isInfix)

theorem Dissection.length_kept_le (d : Dissection) : d.kept.length ≤ d.text.length := by
  induction d with
  | last plain => exact Nat.le_refl _
  | next plain removal behind ih =>
    simp only [kept, text, List.length_append]
    omega

/-- Text that nothing is removed from is plain. -/
theorem Dissection.Proper.plain_of_length (h : d.Proper) (hlength : d.kept.length = d.text.length) :
    Plain d.text := by
  cases d with
  | last plain => exact h
  | next plain removal behind =>
    have hbehind := behind.length_kept_le
    have hremoval := removal.length_text_pos
    simp only [kept, text, List.length_append] at hlength
    omega

/-- A text that has been stripped is left as it is exactly if no annotation begins in it. -/
theorem stripAnnotations?_eq_self_iff (h : s.map flattenControl = s) :
    stripAnnotations? s = some s ↔ Plain s := by
  constructor
  · intro hstrip
    obtain ⟨d, hd⟩ := Dissection.exists_of s
    rw [hd.stripAnnotations?_eq] at hstrip
    split at hstrip
    · cases hstrip
    · have hlength := congrArg List.length (Option.some.inj hstrip)
      rw [List.length_map, ← hd.text_eq] at hlength
      exact hd.text_eq ▸ hd.proper.plain_of_length hlength
  · intro hplain
    have hlast : (Dissection.last s).Of s := ⟨hplain, rfl⟩
    rw [hlast.stripAnnotations?_eq]
    exact congrArg some h

/-- What is left of a text holds no annotation, and is not changed by stripping it again, exactly if
no removal joins a mark. -/
theorem stripped_plain_iff (h : stripAnnotations? text = some stripped) :
    ∃ d : Dissection, d.Of text ∧ (Plain stripped ↔ ¬d.JoinsMark) ∧
      (stripAnnotations? stripped = some stripped ↔ ¬d.JoinsMark) := by
  obtain ⟨d, hd⟩ := Dissection.exists_of text
  obtain ⟨-, rfl⟩ : d.hasWideBlank = false ∧ d.kept.map flattenControl = stripped := by
    simpa [hd.stripAnnotations?_eq] using h
  have hplain : Plain (d.kept.map flattenControl) ↔ ¬d.JoinsMark :=
    plain_map_flattenControl_iff.trans hd.proper.plain_kept_iff
  have hflat : (d.kept.map flattenControl).map flattenControl = d.kept.map flattenControl := by
    simp
  exact ⟨d, hd, hplain, (stripAnnotations?_eq_self_iff hflat).trans hplain⟩

/-- The mark is put together from three plain parts. -/
theorem stripped_plain_iff_threeParts :
    stripAnnotations? "@t@tag(x)a@tag(y)g(z)".toList = some "@tag(z)".toList ∧
      ∃ d : Dissection, d.Of "@t@tag(x)a@tag(y)g(z)".toList ∧
        (Plain "@tag(z)".toList ↔ ¬d.JoinsMark) ∧
        (stripAnnotations? "@tag(z)".toList = some "@tag(z)".toList ↔ ¬d.JoinsMark) :=
  ⟨by decide +kernel, stripped_plain_iff (by decide +kernel)⟩

/-- A shader with one tag in the middle of the mark of another. -/
def pasted : String :=
  "\x7b\"name\":\"s\"," ++
    "\"vertex\":\x7b\"entry\":\"v\",\"code\":\"@tag@tag(x)(y)const a = 1;\"\x7d," ++
    "\"fragment\":\x7b\"entry\":\"f\",\"code\":\"\"\x7d\x7d"

/-- The code of a stage is left with a tag, which goes when the code is stripped again. -/
theorem not_plain_pasted :
    stripAnnotations? "@tag@tag(x)(y)const a = 1;".toList = some "@tag(y)const a = 1;".toList ∧
      ¬Plain "@tag(y)const a = 1;".toList ∧
      stripAnnotations? "@tag(y)const a = 1;".toList = some "const a = 1;".toList ∧
      (Source.parse pasted).value.map (·.map (·.vertex.code)) =
        some (.ok "@tag(y)const a = 1;") := by
  refine ⟨by decide +kernel, fun h => ?_, by decide +kernel, by decide +kernel⟩
  exact h tagMark (by simp [strippedMarks]) ⟨[], "y)const a = 1;".toList, rfl⟩

end Diorama.Shader

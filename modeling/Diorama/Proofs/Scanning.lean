import Mathlib.Data.Option.Basic
import Diorama.Text.Lines
import Diorama.Text.Numeral
import Diorama.Text.Word

/-! Scans over texts that are put together from parts: what a search finds in them, which words they
have, and that a numeral is read as the number that was written. -/

namespace Diorama.Text

variable {p : Char → Bool} {c d : Char} {mark front word s : List Char}

/-! ### Classes of characters -/

theorem isTypeChar_of_isWordChar (h : isWordChar c = true) : isTypeChar c = true := by
  simp [isTypeChar, h]

theorem isWordChar_of_isTypeChar (h : isTypeChar c = false) : isWordChar c = false :=
  Bool.eq_false_iff.2 fun hword => by simp [isTypeChar_of_isWordChar hword] at h

theorem toNat_of_isTypeChar (h : isTypeChar c = true) : 48 ≤ c.toNat ∧ c.toNat ≤ 122 := by
  have halpha : c.isAlpha = (c.isUpper || c.isLower) := rfl
  have hupper : c.isUpper = decide (c.val ≥ 65 ∧ c.val ≤ 90) := rfl
  have hlower : c.isLower = (decide (c.val ≥ 97) && decide (c.val ≤ 122)) := rfl
  simp only [isTypeChar, isWordChar, Char.isAlphanum, halpha, hupper, hlower, Char.isDigit,
    Bool.or_eq_true, Bool.and_eq_true, beq_iff_eq, decide_eq_true_eq, UInt32.le_iff_toNat_le,
    ge_iff_le] at h
  change ((((65 ≤ c.toNat ∧ c.toNat ≤ 90 ∨ 97 ≤ c.toNat ∧ c.toNat ≤ 122) ∨
    48 ≤ c.toNat ∧ c.toNat ≤ 57) ∨ c = '_') ∨ c = '<') ∨ c = '>' at h
  rcases h with (((h | h) | rfl) | rfl) | rfl
  · omega
  · omega
  · decide
  · decide
  · decide

/-- Blanks part the words of a line. -/
theorem isTypeChar_of_isBlank (h : isBlank c = true) : isTypeChar c = false := by
  refine Bool.eq_false_iff.2 fun htype => ?_
  have hrange := toNat_of_isTypeChar htype
  simp only [isBlank, Bool.or_eq_true, Bool.and_eq_true, beq_iff_eq, decide_eq_true_eq] at h
  omega

/-! ### Searches -/

/-- The text behind the first occurrence of `mark`. -/
def behind? (mark s : List Char) : Option (List Char) := (cut? mark s).map (·.2)

theorem cut?_append_self (mark s : List Char) : cut? mark (mark ++ s) = some ([], s) := by
  cases h : mark ++ s with
  | nil => simp_all [cut?]
  | cons c rest =>
    have hbegins : mark.isPrefixOf (c :: rest) = true :=
      List.isPrefixOf_iff_prefix.2 (h ▸ List.prefix_append mark s)
    rw [cut?, if_pos hbegins, ← h, List.drop_left]

theorem cut?_cons_of_not_isPrefixOf (h : mark.isPrefixOf (c :: s) = false) :
    cut? mark (c :: s) = (cut? mark s).map fun (before, after) => (c :: before, after) := by
  rw [cut?, if_neg (by simp [h])]

/-- Where the first character of a mark does not occur, the mark does not begin. -/
theorem cut?_append_of_notMem (h : c ∉ front) (mark s : List Char) : cut? (c :: mark) (front ++ s) =
    (cut? (c :: mark) s).map fun (before, after) => (front ++ before, after) := by
  induction front with
  | nil =>
    rw [List.nil_append]
    cases cut? (c :: mark) s <;> rfl
  | cons d front ih =>
    rw [List.mem_cons, not_or] at h
    have hbegins : (c :: mark).isPrefixOf (d :: (front ++ s)) = false := by
      simp [List.isPrefixOf, h.1]
    rw [List.cons_append, cut?_cons_of_not_isPrefixOf hbegins, ih h.2, Option.map_map]
    rfl

theorem behind?_append_self (mark s : List Char) : behind? mark (mark ++ s) = some s := by
  rw [behind?, cut?_append_self, Option.map_some]

theorem behind?_cons_of_not_isPrefixOf (h : mark.isPrefixOf (c :: s) = false) :
    behind? mark (c :: s) = behind? mark s := by
  rw [behind?, cut?_cons_of_not_isPrefixOf h, Option.map_map]
  rfl

theorem behind?_append_of_notMem (h : c ∉ front) (mark s : List Char) :
    behind? (c :: mark) (front ++ s) = behind? (c :: mark) s := by
  rw [behind?, cut?_append_of_notMem h, Option.map_map]
  rfl

/-- The first closing mark is the one behind a text without it. -/
theorem cut?_append_singleton (h : c ∉ front) (s : List Char) :
    cut? [c] (front ++ c :: s) = some (front, s) := by
  rw [cut?_append_of_notMem h, show c :: s = [c] ++ s from rfl, cut?_append_self, Option.map_some]
  simp

theorem behind?_eq_none_of_notMem (h : c ∉ s) (mark : List Char) :
    behind? (c :: mark) s = none := by
  rw [← List.append_nil s, behind?_append_of_notMem h]
  rfl

theorem exists_of_behind?_eq_some {behind : List Char} (h : behind? mark s = some behind) :
    ∃ before, s = before ++ mark ++ behind := by
  obtain ⟨⟨before, behind⟩, hcut, rfl⟩ := Option.map_eq_some_iff.1 h
  exact ⟨before, eq_append_of_cut? hcut⟩

/-- A mark that is found in a text is found there whatever follows. -/
theorem behind?_append_of_eq_some {behind : List Char} (h : behind? mark front = some behind)
    (s : List Char) : behind? mark (front ++ s) = some (behind ++ s) := by
  induction front with
  | nil =>
    obtain ⟨before, hnil⟩ := exists_of_behind?_eq_some h
    obtain ⟨hbefore, rfl⟩ := List.append_eq_nil_iff.1 hnil.symm
    obtain ⟨-, rfl⟩ := List.append_eq_nil_iff.1 hbefore
    exact behind?_append_self [] s
  | cons c front ih =>
    by_cases hbegins : mark <+: c :: front
    · obtain ⟨rest, hrest⟩ := hbegins
      rw [← hrest, behind?_append_self] at h
      cases h
      rw [← hrest, List.append_assoc, behind?_append_self]
    · have hnot (t : List Char) (ht : ¬mark <+: t) : mark.isPrefixOf t = false :=
        Bool.eq_false_iff.2 fun hp => ht (List.isPrefixOf_iff_prefix.1 hp)
      rw [behind?_cons_of_not_isPrefixOf (hnot _ hbegins)] at h
      -- the mark has room in the text, so it cannot begin there and end in what follows
      have hroom : mark.length ≤ (c :: front).length := by
        obtain ⟨before, rfl⟩ := exists_of_behind?_eq_some h
        simp only [List.length_cons, List.length_append]
        omega
      have hbegins' : ¬mark <+: c :: (front ++ s) := fun hp =>
        hbegins (List.prefix_of_prefix_length_le hp (List.prefix_append (c :: front) s) hroom)
      rw [List.cons_append, behind?_cons_of_not_isPrefixOf (hnot _ hbegins'), ih h]

/-- A mark that does not occur in a text does not begin there either, where the text ends before a
character which the mark does not have. -/
theorem behind?_append_of_not_contains (h : contains mark front = false) (hc : c ∉ mark)
    (s : List Char) : behind? mark (front ++ c :: s) = behind? mark (c :: s) := by
  induction front with
  | nil => rfl
  | cons d front ih =>
    cases hbegins : mark.isPrefixOf (d :: front) with
    | true => simp [contains, cut?, hbegins] at h
    | false =>
      rw [contains, cut?_cons_of_not_isPrefixOf hbegins, Option.isSome_map] at h
      have hbegins' : mark.isPrefixOf (d :: (front ++ c :: s)) = false := by
        refine Bool.eq_false_iff.2 fun hp => ?_
        have hconcat : (d :: front) ++ [c] <+: d :: (front ++ c :: s) := ⟨s, by simp⟩
        rcases List.prefix_or_prefix_of_prefix (List.isPrefixOf_iff_prefix.1 hp) hconcat with
          hle | hle
        · rcases List.prefix_concat_iff.1 hle with heq | hle
          · exact hc (heq ▸ by simp)
          · simp [List.isPrefixOf_iff_prefix.2 hle] at hbegins
        · exact hc (hle.subset (by simp))
      rw [List.cons_append, behind?_cons_of_not_isPrefixOf hbegins', ih h]

/-! ### Words -/

theorem runs_cons_of_not (h : p c = false) (s : List Char) : runs p (c :: s) = runs p s := by
  rw [runs.eq_def]
  exact if_neg (by simp [h])

theorem runs_cons_of_head (h : p c = true) (hs : ∀ d ∈ s.head?, p d = false) :
    runs p (c :: s) = [c] :: runs p s := by
  rw [runs.eq_def]
  simp only [h, if_true]
  split
  next d _ run more hrest =>
    have hd : p d = false := hs d rfl
    rw [if_neg (by simp [hd]), hrest]
  next => rfl

theorem runs_cons_cons {run : List Char} {more : List (List Char)} (hc : p c = true)
    (hd : p d = true) (h : runs p (d :: s) = run :: more) :
    runs p (c :: d :: s) = (c :: run) :: more := by
  rw [runs.eq_def]
  simp only [hc, h, hd, if_true]

theorem runs_append_of_forall_not (h : ∀ c ∈ front, p c = false) (s : List Char) :
    runs p (front ++ s) = runs p s := by
  induction front with
  | nil => rfl
  | cons c front ih =>
    obtain ⟨hc, hfront⟩ := List.forall_mem_cons.1 h
    rw [List.cons_append, runs_cons_of_not hc, ih hfront]

theorem takeWhile_word (hword : ∀ c ∈ word, p c = true) (hs : ∀ c ∈ s.head?, p c = false) :
    (word ++ s).takeWhile p = word := by
  rw [List.takeWhile_append_of_pos hword]
  cases s with
  | nil => simp
  | cons c s => rw [List.takeWhile_cons_of_neg (by simp [hs c rfl]), List.append_nil]

theorem dropWhile_word (hword : ∀ c ∈ word, p c = true) (hs : ∀ c ∈ s.head?, p c = false) :
    (word ++ s).dropWhile p = s := by
  rw [List.dropWhile_append_of_pos hword]
  cases s with
  | nil => rfl
  | cons c s => rw [List.dropWhile_cons_of_neg (by simp [hs c rfl])]

/-- A text starts with a word, which may be empty, and goes on with another class of characters. -/
theorem exists_word_append (p : Char → Bool) (s : List Char) :
    ∃ word rest, s = word ++ rest ∧ (∀ c ∈ word, p c = true) ∧ ∀ c ∈ rest.head?, p c = false := by
  refine ⟨s.takeWhile p, s.dropWhile p, List.takeWhile_append_dropWhile.symm,
    List.all_eq_true.1 List.all_takeWhile, fun c hc => ?_⟩
  have hstop := List.head?_dropWhile_not p s
  rwa [Option.mem_def.1 hc] at hstop

/-- What is taken from a text ends before a character of another class. -/
theorem mem_of_mem_takeWhile_append (hc : p c = false)
    (h : d ∈ (front ++ c :: s).takeWhile p) : d ∈ front := by
  induction front with
  | nil => simp [hc] at h
  | cons e front ih =>
    rw [List.cons_append, List.takeWhile_cons] at h
    split at h
    · rcases List.mem_cons.1 h with rfl | h
      · exact List.mem_cons_self
      · exact List.mem_cons_of_mem _ (ih h)
    · simp at h

/-- A word goes as far as its characters do. -/
theorem runs_append_of_forall (hne : word ≠ []) (hword : ∀ c ∈ word, p c = true)
    (hs : ∀ c ∈ s.head?, p c = false) : runs p (word ++ s) = word :: runs p s := by
  induction word with
  | nil => exact absurd rfl hne
  | cons c word ih =>
    obtain ⟨hc, hword⟩ := List.forall_mem_cons.1 hword
    cases word with
    | nil => exact runs_cons_of_head hc hs
    | cons d word => exact runs_cons_cons hc (hword d List.mem_cons_self) (ih (by simp) hword)

/-! ### Numerals -/

theorem trim_eq_self (h : ∀ c ∈ s, isBlank c = false) : trim s = s := by
  have hkeep (t : List Char) (ht : ∀ c ∈ t, isBlank c = false) : t.dropWhile isBlank = t := by
    cases t with
    | nil => rfl
    | cons c t => rw [List.dropWhile_cons_of_neg (by simp [ht c List.mem_cons_self])]
  rw [trim, trimStart, hkeep s h, trimEnd, hkeep _ (by simpa using h), List.reverse_reverse]

theorem digits?_eq (h : ∀ c ∈ s, c.isDigit = true) :
    digits? s = some (Nat.ofDigitChars 10 s 0) := by
  have hfold (n : Nat) : s.foldl (fun n c => do
      let n ← n
      if c.isDigit then some (10 * n + (c.toNat - '0'.toNat)) else none) (some n) =
        some (Nat.ofDigitChars 10 s n) := by
    induction s generalizing n with
    | nil => rfl
    | cons c s ih =>
      obtain ⟨hc, hs⟩ := List.forall_mem_cons.1 h
      rw [List.foldl_cons, show Nat.ofDigitChars 10 (c :: s) n =
        Nat.ofDigitChars 10 s (10 * n + (c.toNat - '0'.toNat)) from rfl, ← ih hs]
      simp [hc]
  exact hfold 0

theorem toList_toString (n : UInt32) : (toString n).toList = Nat.toDigits 10 n.toNat :=
  Nat.toList_repr

theorem isDigit_of_mem_toString {n : UInt32} (h : c ∈ (toString n).toList) : c.isDigit = true := by
  rw [toList_toString] at h
  exact Nat.isDigit_of_mem_toDigits (by decide) (Nat.le_refl 10) h

theorem word32?_cons (hplus : c ≠ '+') (s : List Char) : word32? (c :: s) =
    (digits? (c :: s)).bind fun n =>
      if h : n < UInt32.size then some (UInt32.ofNatLT n h) else none := by
  rw [word32?]
  · rfl
  · exact fun rest heq => hplus (List.cons.inj heq).1

/-- A number is read as it is written. -/
theorem word32?_toString (n : UInt32) : word32? (toString n).toList = some n := by
  have hdigit : ∀ c ∈ (toString n).toList, c.isDigit = true := fun _ => isDigit_of_mem_toString
  have hread : digits? (toString n).toList = some n.toNat := by
    rw [digits?_eq hdigit, toList_toString, Nat.ofDigitChars_ten_toDigits]
  cases hs : (toString n).toList with
  | nil => exact absurd (toList_toString n ▸ hs) Nat.toDigits_ne_nil
  | cons c s =>
    rw [hs] at hdigit hread
    have hplus : c ≠ '+' := by
      rintro rfl
      exact absurd (hdigit '+' List.mem_cons_self) (by decide)
    rw [word32?_cons hplus, hread, Option.bind_some, dif_pos n.toNat_lt]
    rfl

end Diorama.Text

import Diorama.Proofs.Scanning

/-! Whole words of a text: maximal runs of a class of characters.  A name is mentioned in a text
exactly if it is one of the text's words.  The search goes on behind each occurrence that it finds,
and so passes over those that start inside of it; these have a word character in front of them. -/

namespace Diorama.Text

/-- `run` occurs in `s` without characters of the class `p` beside it; `previous` is the character
in front of `s`. -/
def StandsAlone (p : Char → Bool) (run : List Char) (previous : Option Char) (s : List Char) :
    Prop :=
  ∃ before after, s = before ++ (run ++ after) ∧
    (∀ c ∈ before.getLast?.or previous, p c = false) ∧ ∀ c ∈ after.head?, p c = false

/-- `run` stands alone at the front of `s`. -/
def StandsAhead (p : Char → Bool) (run : List Char) (previous : Option Char) (s : List Char) :
    Prop :=
  (∀ c ∈ previous, p c = false) ∧ ∃ after, s = run ++ after ∧ ∀ c ∈ after.head?, p c = false

/-- A maximal run of characters of the class `p`. -/
structure IsRun (p : Char → Bool) (run s : List Char) : Prop where
  ne_nil : run ≠ []
  inClass : ∀ c ∈ run, p c = true
  standsAlone : StandsAlone p run none s

variable {p : Char → Bool} {c : Char} {previous : Option Char} {name run front word s : List Char}

/-! ### Where a run stands -/

theorem getLast?_cons_or (c : Char) (s : List Char) (previous : Option Char) :
    (c :: s).getLast?.or previous = s.getLast?.or (some c) := by
  rw [List.getLast?_cons]
  cases s.getLast? <;> rfl

theorem not_standsAlone_nil (hne : run ≠ []) : ¬StandsAlone p run previous [] := by
  rintro ⟨before, after, hs, -⟩
  simp [hne] at hs

/-- A run stands at the front of a text or behind its first character. -/
theorem standsAlone_cons_iff : StandsAlone p run previous (c :: s) ↔
    StandsAhead p run previous (c :: s) ∨ StandsAlone p run (some c) s := by
  constructor
  · rintro ⟨before, after, hs, hleft, hright⟩
    cases before with
    | nil => exact .inl ⟨hleft, after, hs, hright⟩
    | cons d before =>
      obtain ⟨rfl, rfl⟩ := List.cons.inj hs
      rw [getLast?_cons_or] at hleft
      exact .inr ⟨before, after, rfl, hleft, hright⟩
  · rintro (⟨hleft, after, hs, hright⟩ | ⟨before, after, rfl, hleft, hright⟩)
    · exact ⟨[], after, hs, hleft, hright⟩
    · exact ⟨c :: before, after, rfl, by rwa [getLast?_cons_or], hright⟩

/-- Inside of a word nothing stands alone: a character of the word is in front of it. -/
theorem standsAlone_append_iff (hne : front ≠ []) (hfront : ∀ c ∈ front, p c = true)
    (s : List Char) : StandsAlone p run previous (front ++ s) ↔
    StandsAhead p run previous (front ++ s) ∨ StandsAlone p run front.getLast? s := by
  induction front generalizing previous with
  | nil => exact absurd rfl hne
  | cons c front ih =>
    obtain ⟨hc, hfront⟩ := List.forall_mem_cons.1 hfront
    rw [List.cons_append, standsAlone_cons_iff]
    refine or_congr_right ?_
    cases front with
    | nil => rfl
    | cons d front =>
      have hinside (s : List Char) : ¬StandsAhead p run (some c) s := fun h => by
        simp [h.1 c rfl] at hc
      rw [ih (by simp) hfront, or_iff_right (hinside _)]
      rfl

theorem StandsAlone.without_previous (h : StandsAlone p run previous s) :
    StandsAlone p run none s := by
  obtain ⟨before, after, hs, hleft, hright⟩ := h
  refine ⟨before, after, hs, fun c hc => hleft c ?_, hright⟩
  rw [Option.or_none] at hc
  rw [Option.mem_def.1 hc]
  rfl

/-! ### The search for a name -/

theorem mentionsFrom_iff (hne : name ≠ []) (hname : ∀ c ∈ name, isWordChar c = true)
    (previous : Option Char) (s : List Char) :
    mentionsFrom name previous s = true ↔ StandsAlone isWordChar name previous s := by
  fun_induction mentionsFrom name previous s with
  | case1 previous => simp [not_standsAlone_nil hne]
  | case2 previous c rest hbegins after ih =>
    obtain ⟨behind, hbehind⟩ := List.isPrefixOf_iff_prefix.1 (Bool.and_eq_true_iff.1 hbegins).1
    have hafter : after = behind := by simp [after, ← hbehind]
    rw [hafter] at ih ⊢
    -- what stands alone is the found name itself or starts behind it, and not inside of it
    rw [Bool.or_eq_true, ih, ← hbehind, standsAlone_append_iff hne hname]
    refine or_congr_left ?_
    simp [StandsAhead, Option.any_eq_false]
  | case3 previous c rest hbegins ih =>
    have hfront : ¬name <+: c :: rest := fun hp => hbegins (by simp [hp, hne])
    rw [ih, standsAlone_cons_iff, or_iff_right]
    rintro ⟨-, after, hs, -⟩
    exact hfront ⟨after, hs.symm⟩

/-! ### The words of a text -/

theorem isRun_cons_of_not (hc : p c = false) : IsRun p run (c :: s) ↔ IsRun p run s := by
  constructor
  · rintro ⟨hne, hrun, halone⟩
    refine ⟨hne, hrun, ?_⟩
    rcases standsAlone_cons_iff.1 halone with ⟨-, after, hs, -⟩ | hlater
    · obtain ⟨d, run, rfl⟩ := List.exists_cons_of_ne_nil hne
      obtain ⟨rfl, -⟩ := List.cons.inj hs
      simp [hrun c List.mem_cons_self] at hc
    · exact hlater.without_previous
  · rintro ⟨hne, hrun, before, after, rfl, hleft, hright⟩
    refine ⟨hne, hrun, c :: before, after, rfl, fun d hd => ?_, hright⟩
    rw [getLast?_cons_or, Option.mem_def, Option.or_eq_some_iff] at hd
    rcases hd with hd | ⟨-, ⟨⟩⟩
    · exact hleft d (by simp [hd])
    · exact hc

/-- The runs of a text that starts with a whole word are that word and those behind it. -/
theorem isRun_append_iff (hne : word ≠ []) (hword : ∀ c ∈ word, p c = true)
    (hs : ∀ c ∈ s.head?, p c = false) :
    IsRun p run (word ++ s) ↔ run = word ∨ IsRun p run s := by
  constructor
  · rintro ⟨hrunNe, hrun, halone⟩
    rcases (standsAlone_append_iff hne hword s).1 halone with ⟨-, after, heq, hafter⟩ | hlater
    · left
      rw [← takeWhile_word hrun hafter, ← heq, takeWhile_word hword hs]
    · exact .inr ⟨hrunNe, hrun, hlater.without_previous⟩
  · rintro (rfl | ⟨hrunNe, hrun, before, after, rfl, hleft, hright⟩)
    · exact ⟨hne, hword, [], s, rfl, by simp, hs⟩
    · refine ⟨hrunNe, hrun, word ++ before, after, by simp, fun c hc => ?_, hright⟩
      cases before with
      | nil =>
        -- behind the word no run can start at once
        obtain ⟨d, run, rfl⟩ := List.exists_cons_of_ne_nil hrunNe
        simpa [hrun d List.mem_cons_self] using hs d rfl
      | cons d before => exact hleft c (by simpa using hc)

theorem mem_runs_iff : run ∈ runs p s ↔ IsRun p run s := by
  induction hlength : s.length using Nat.strongRecOn generalizing s with
  | ind n ih =>
  cases s with
  | nil => exact iff_of_false List.not_mem_nil fun h => not_standsAlone_nil h.ne_nil h.standsAlone
  | cons c rest =>
    cases hc : p c with
    | false => rw [runs_cons_of_not hc, isRun_cons_of_not hc, ih _ (by simp [← hlength]) rfl]
    | true =>
      obtain ⟨word, behind, hsplit, hword, hbehind⟩ := exists_word_append p (c :: rest)
      have hne : word ≠ [] := by
        rintro rfl
        obtain rfl : c :: rest = behind := hsplit
        simp [hbehind c rfl] at hc
      have hshorter : behind.length < n := by
        rw [← hlength, hsplit, List.length_append]
        exact Nat.lt_add_of_pos_left (List.length_pos_iff.2 hne)
      rw [hsplit, runs_append_of_forall hne hword hbehind, isRun_append_iff hne hword hbehind,
        List.mem_cons, ih _ hshorter rfl]

/-- A name is mentioned exactly if it is a maximal run of word characters, and so if it is one of
the words. -/
theorem mentions_iff_word (code : List Char) (hne : name ≠ [])
    (hname : ∀ c ∈ name, isWordChar c = true) :
    (mentions code name = true ↔ IsRun isWordChar name code) ∧
      (mentions code name = true ↔ name ∈ words code) := by
  have hmentions : mentions code name = true ↔ IsRun isWordChar name code := by
    rw [mentions, Bool.and_eq_true, mentionsFrom_iff hne hname]
    exact ⟨fun h => ⟨hne, hname, h.2⟩, fun h => ⟨by simp [hne], h.standsAlone⟩⟩
  exact ⟨hmentions, hmentions.trans mem_runs_iff.symm⟩

/-- The name stands twice in the first text, the second time over the end of the first, and once
more in the second text. -/
theorem mentions_iff_word_overlapping :
    "a_a".toList ≠ [] ∧ (∀ c ∈ "a_a".toList, isWordChar c = true) ∧
      mentions "a_a_a".toList "a_a".toList = false ∧
      mentions "a_a_a+éa_a".toList "a_a".toList = true := by
  have hne : "a_a".toList ≠ [] := by decide
  have hname : ∀ c ∈ "a_a".toList, isWordChar c = true := List.all_eq_true.1 (by decide)
  have hinside : "a_a".toList ∉ words "a_a_a".toList := by decide +kernel
  have halone : "a_a".toList ∈ words "a_a_a+éa_a".toList := by decide +kernel
  exact ⟨hne, hname, Bool.eq_false_iff.2 (mt (mentions_iff_word _ hne hname).2.1 hinside),
    (mentions_iff_word _ hne hname).2.2 halone⟩

end Diorama.Text

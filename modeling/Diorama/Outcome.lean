/-! Computations that can fail: when one that goes on after another succeeds, when one for each
member of a list does, and which member is the first to fail.  A computation that can also be without
a result, because the program stops in it, is one of `Option (Except ε α)`; `settle` turns it into
one that fails in one more way. -/

namespace Diorama

variable {ε α β : Type}

theorem bind_eq_ok_iff {x : Except ε α} {f : α → Except ε β} {b : β} :
    x >>= f = .ok b ↔ ∃ a, x = .ok a ∧ f a = .ok b := by
  cases x <;> simp [bind, Except.bind]

theorem bind_eq_error_iff {x : Except ε α} {f : α → Except ε β} {e : ε} :
    x >>= f = .error e ↔ x = .error e ∨ ∃ a, x = .ok a ∧ f a = .error e := by
  cases x <;> simp [bind, Except.bind]

theorem map_eq_ok_iff {x : Except ε α} {f : α → β} {b : β} :
    x.map f = .ok b ↔ ∃ a, x = .ok a ∧ f a = b := by
  cases x <;> simp [Except.map]

theorem elim_eq_ok_iff {o : Option α} {e : ε} {a : α} :
    o.elim (.error e) Except.ok = .ok a ↔ o = some a := by
  cases o <;> simp

theorem elim_eq_error_iff {o : Option α} {e e' : ε} :
    o.elim (.error e) (Except.ok : α → Except ε α) = .error e' ↔ o = none ∧ e' = e := by
  cases o <;> simp [eq_comm]

theorem mapM_eq_ok_iff {f : α → Except ε β} {as : List α} {bs : List β} :
    as.mapM f = .ok bs ↔ as.map f = bs.map .ok := by
  induction as generalizing bs with
  | nil => simp [pure, Except.pure, eq_comm]
  | cons a more ih =>
    simp only [List.mapM_cons, bind_eq_ok_iff, ih]
    constructor
    · rintro ⟨b, hb, rest, hrest, hcons⟩
      obtain rfl : b :: rest = bs := Except.ok.inj hcons
      rw [List.map_cons, List.map_cons, hb, hrest]
    · intro h
      match bs, h with
      | b :: rest, h =>
        rw [List.map_cons, List.map_cons, List.cons.injEq] at h
        exact ⟨b, h.1, rest, h.2, rfl⟩

theorem length_of_mapM {f : α → Except ε β} {as : List α} {bs : List β} (h : as.mapM f = .ok bs) :
    bs.length = as.length := by
  simpa using (congrArg List.length (mapM_eq_ok_iff.1 h)).symm

theorem exists_mapM_eq_ok_iff {f : α → Except ε β} {as : List α} :
    (∃ bs, as.mapM f = .ok bs) ↔ ∀ a ∈ as, ∃ b, f a = .ok b := by
  induction as with
  | nil => simp [pure, Except.pure]
  | cons a more ih =>
    rw [List.forall_mem_cons, ← ih, List.mapM_cons]
    cases f a <;> cases more.mapM f <;> simp [bind, Except.bind, pure, Except.pure]

theorem mem_mapM_iff {f : α → Except ε β} {as : List α} {bs : List β} (h : as.mapM f = .ok bs)
    {b : β} : b ∈ bs ↔ ∃ a ∈ as, f a = .ok b := by
  have hresult : (Except.ok b : Except ε β) ∈ bs.map Except.ok ↔ b ∈ bs := by simp
  rw [← hresult, ← mapM_eq_ok_iff.1 h, List.mem_map]

/-- What holds between members of a list holds between what is made from them. -/
theorem pairwise_of_mapM {f : α → Except ε β} {as : List α} {bs : List β} {r : α → α → Prop}
    {s : β → β → Prop} (h : as.mapM f = .ok bs) (hpairs : as.Pairwise r)
    (himp : ∀ x y a b, r x y → f x = .ok a → f y = .ok b → s a b) : bs.Pairwise s := by
  have hresults : (as.map f).Pairwise fun u v => ∀ a b, u = .ok a → v = .ok b → s a b :=
    List.pairwise_map.2 (hpairs.imp fun hxy a b => himp _ _ a b hxy)
  rw [mapM_eq_ok_iff.1 h, List.pairwise_map] at hresults
  exact hresults.imp fun hab => hab _ _ rfl rfl

/-- What fails is the first member that does. -/
theorem mapM_eq_error_iff {f : α → Except ε β} {as : List α} {e : ε} :
    as.mapM f = .error e ↔ ∃ (i : Nat) (a : α), as[i]? = some a ∧ f a = .error e ∧
      ∀ j < i, ∀ a, as[j]? = some a → ∃ b, f a = .ok b := by
  induction as with
  | nil => simp [pure, Except.pure]
  | cons first more ih =>
    have hmore (b : β) : (do return b :: (← more.mapM f)) = .error e ↔ more.mapM f = .error e := by
      simp [bind_eq_error_iff, pure, Except.pure]
    simp only [List.mapM_cons, bind_eq_error_iff (x := f first), hmore, ih]
    constructor
    · rintro (h | ⟨b, hb, i, a, ha, he, hbefore⟩)
      · exact ⟨0, first, rfl, h, by simp⟩
      · refine ⟨i + 1, a, ha, he, fun j hj => ?_⟩
        cases j with
        | zero =>
          rintro _ ⟨⟩
          exact ⟨b, hb⟩
        | succ j => exact hbefore j (Nat.lt_of_succ_lt_succ hj)
    · rintro ⟨i, a, ha, he, hbefore⟩
      cases i with
      | zero =>
        cases ha
        exact .inl he
      | succ i =>
        obtain ⟨b, hb⟩ := hbefore 0 (Nat.succ_pos i) first rfl
        exact .inr ⟨b, hb, i, a, ha, he, fun j hj => hbefore (j + 1) (Nat.succ_lt_succ hj)⟩

/-- `a` is the first member of a list with the property `p`. -/
def IsFirst (p : α → Prop) (as : List α) (a : α) : Prop :=
  ∃ before after, as = before ++ a :: after ∧ (∀ b ∈ before, ¬p b) ∧ p a

theorem isFirst_cons_iff {p : α → Prop} {first a : α} {more : List α} :
    IsFirst p (first :: more) a ↔ p first ∧ first = a ∨ ¬p first ∧ IsFirst p more a := by
  constructor
  · rintro ⟨before, after, hsplit, hbefore, ha⟩
    cases before with
    | nil =>
      cases hsplit
      exact .inl ⟨ha, rfl⟩
    | cons b before =>
      cases hsplit
      obtain ⟨hfirst, hbefore⟩ := List.forall_mem_cons.1 hbefore
      exact .inr ⟨hfirst, before, after, rfl, hbefore, ha⟩
  · rintro (⟨hfirst, rfl⟩ | ⟨hfirst, before, after, rfl, hbefore, ha⟩)
    · exact ⟨[], more, rfl, by simp, hfirst⟩
    · exact ⟨first :: before, after, rfl, List.forall_mem_cons.2 ⟨hfirst, hbefore⟩, ha⟩

theorem isFirst_map_iff {p : β → Prop} {f : α → β} {as : List α} {b : β} :
    IsFirst p (as.map f) b ↔ ∃ a, IsFirst (fun a => p (f a)) as a ∧ f a = b := by
  induction as with
  | nil => simp [IsFirst]
  | cons first more ih =>
    simp only [List.map_cons, isFirst_cons_iff, ih]
    constructor
    · rintro (⟨hfirst, hb⟩ | ⟨hfirst, a, ha, hb⟩)
      · exact ⟨first, .inl ⟨hfirst, rfl⟩, hb⟩
      · exact ⟨a, .inr ⟨hfirst, ha⟩, hb⟩
    · rintro ⟨a, ⟨hfirst, rfl⟩ | ⟨hfirst, ha⟩, hb⟩
      · exact .inl ⟨hfirst, hb⟩
      · exact .inr ⟨hfirst, a, ha, hb⟩

theorem exists_isFirst {p : α → Prop} {as : List α} {a : α} (h : a ∈ as) (ha : p a) :
    ∃ first, IsFirst p as first := by
  induction as with
  | nil => cases h
  | cons first more ih =>
    by_cases hfirst : p first
    · exact ⟨first, isFirst_cons_iff.2 (.inl ⟨hfirst, rfl⟩)⟩
    · rcases List.mem_cons.1 h with rfl | hmem
      · exact absurd ha hfirst
      · obtain ⟨found, hfound⟩ := ih hmem
        exact ⟨found, isFirst_cons_iff.2 (.inr ⟨hfirst, hfound⟩)⟩

theorem mapM_eq_error_iff_isFirst {f : α → Except ε β} {as : List α} {e : ε} :
    as.mapM f = .error e ↔ ∃ a, IsFirst (fun a => ¬∃ b, f a = .ok b) as a ∧ f a = .error e := by
  rw [mapM_eq_error_iff]
  constructor
  · rintro ⟨i, a, ha, he, hbefore⟩
    obtain ⟨hi, rfl⟩ := List.getElem?_eq_some_iff.1 ha
    refine ⟨as[i], ⟨as.take i, as.drop (i + 1), ?_, fun b hb => ?_, by simp [he]⟩, he⟩
    · rw [List.getElem_cons_drop, List.take_append_drop]
    · obtain ⟨j, hj, rfl⟩ := List.mem_take_iff_getElem.1 hb
      exact not_not_intro (hbefore j (by omega) _ (List.getElem?_eq_getElem _))
  · rintro ⟨a, ⟨before, after, rfl, hbefore, -⟩, he⟩
    refine ⟨before.length, a, by simp, he, fun j hj b hb => ?_⟩
    rw [List.getElem?_append_left hj] at hb
    exact Classical.not_not.1 (hbefore b (List.mem_of_getElem? hb))

theorem mapM_eq_some_map {f : α → Option β} {g : α → β} {as : List α}
    (h : ∀ a ∈ as, f a = some (g a)) : as.mapM f = some (as.map g) := by
  induction as with
  | nil => rfl
  | cons a more ih =>
    obtain ⟨ha, hmore⟩ := List.forall_mem_cons.1 h
    rw [List.mapM_cons, ha, ih hmore]
    rfl

theorem isSome_mapM_iff (f : α → Option β) (as : List α) :
    (as.mapM f).isSome ↔ ∀ a ∈ as, (f a).isSome := by
  induction as with
  | nil => simp
  | cons a more ih =>
    rw [List.forall_mem_cons, ← ih, List.mapM_cons]
    cases f a <;> cases more.mapM f <;> simp

theorem mem_iff_of_mapM_eq_some {f : α → Option β} {as : List α} {bs : List β}
    (h : as.mapM f = some bs) {b : β} : b ∈ bs ↔ ∃ a ∈ as, f a = some b := by
  induction as generalizing bs with
  | nil =>
    obtain rfl : [] = bs := Option.some.inj h
    simp
  | cons a more ih =>
    rw [List.mapM_cons] at h
    obtain ⟨first, hfirst, h⟩ := Option.bind_eq_some_iff.1 h
    obtain ⟨rest, hrest, h⟩ := Option.bind_eq_some_iff.1 h
    obtain rfl : first :: rest = bs := Option.some.inj h
    simp [ih hrest, hfirst, eq_comm]

/-! ### Missing results -/

/-- A computation that may be without a result as one that then fails, with no error to report. -/
def settle : Option (Except ε α) → Except (Option ε) α
  | none => .error none
  | some (.error e) => .error (some e)
  | some (.ok a) => .ok a

theorem settle_eq_ok_iff {x : Option (Except ε α)} {a : α} :
    settle x = .ok a ↔ x = some (.ok a) := by
  rcases x with _ | _ | _ <;> simp [settle]

theorem settle_map (f : α → β) (x : Option (Except ε α)) :
    settle (x.map (Except.map f)) = (settle x).map f := by
  rcases x with _ | _ | _ <;> rfl

end Diorama

import Diorama.Proofs.FiniteMap

/-! Sweeps: changing the objects of a registry one after the other, with a state that goes along.  A
sweep in any monad is one by what a computation results in, and what each change of one object keeps
holds after all of them. -/

namespace Diorama

/-- What a computation of a monad results in, as a relation that sequencing respects. -/
structure Results (m : Type → Type) [Monad m] where
  To : {α : Type} → m α → α → Prop
  pure_iff : ∀ {α : Type} {a b : α}, To (pure a) b ↔ a = b
  bind_iff : ∀ {α β : Type} {x : m α} {f : α → m β} {b : β},
    To (x >>= f) b ↔ ∃ a, To x a ∧ To (f a) b

namespace Results

def id : Results Id where
  To x a := x.run = a
  pure_iff := Iff.rfl
  bind_iff := by simp

def logged : Results Logged where
  To x a := x.value = a
  pure_iff := Iff.rfl
  bind_iff := by simp

def option : Results Option where
  To x a := x = some a
  pure_iff := Option.some_inj
  bind_iff := Option.bind_eq_some_iff

end Results

namespace Registry

variable {α σ : Type} {step : Uid → α → σ → α → σ → Prop}

/-- The slots from a number on are changed one after the other, where there are objects. -/
inductive Sweeps (step : Uid → α → σ → α → σ → Prop) :
    Uid → List (Option α) → σ → List (Option α) → σ → Prop
  | nil {uid : Uid} {s : σ} : Sweeps step uid [] s [] s
  | empty {uid : Uid} {slots after : List (Option α)} {s s' : σ}
      (hrest : Sweeps step (uid + 1) slots s after s') :
      Sweeps step uid (none :: slots) s (none :: after) s'
  | object {uid : Uid} {slots after : List (Option α)} {s s' s'' : σ} {a a' : α}
      (hstep : step uid a s a' s') (hrest : Sweeps step (uid + 1) slots s' after s'') :
      Sweeps step uid (some a :: slots) s (some a' :: after) s''

section Monad

variable {m : Type → Type} [Monad m] (results : Results m) {f : Uid → α → StateT σ m α}

theorem sweeps_of_mapSlotsM {uid : Uid} {slots after : List (Option α)} {s s' : σ}
    (h : results.To ((mapSlotsM f uid slots).run s) (after, s')) :
    Sweeps (fun uid a s a' s' => results.To ((f uid a).run s) (a', s')) uid slots s after s' := by
  induction slots generalizing uid after s s' with
  | nil =>
    cases results.pure_iff.1 h
    exact .nil
  | cons slot slots ih =>
    cases slot with
    | none =>
      obtain ⟨⟨rest, s''⟩, hrest, hpure⟩ := results.bind_iff.1 h
      cases results.pure_iff.1 hpure
      exact .empty (ih hrest)
    | some a =>
      obtain ⟨⟨a', s₁⟩, ha, h⟩ := results.bind_iff.1 h
      obtain ⟨⟨rest, s''⟩, hrest, hpure⟩ := results.bind_iff.1 h
      cases results.pure_iff.1 hpure
      exact .object ha (ih hrest)

end Monad

/-- `P uid r s` says what holds when the slots below `uid` have been swept.  If it is kept by each
change of the object that comes next, and by passing over an identifier without one, it holds in the
end. -/
theorem Sweeps.induct {P : Uid → Registry α → σ → Prop}
    (hempty : ∀ uid r s, P uid r s → r.get? uid = none → P (uid + 1) r s)
    (hobject : ∀ uid r s a a' s', r.WellFormed → P uid r s → r.get? uid = some a →
      step uid a s a' s' → P (uid + 1) (r.modify uid fun _ => a') s')
    {pool : UidPool} (swept : List (Option α)) {slots after : List (Option α)} {s s' : σ}
    (h : Sweeps step swept.length slots s after s')
    (hwell : (⟨pool, (swept ++ slots).toArray⟩ : Registry α).WellFormed)
    (hP : P swept.length ⟨pool, (swept ++ slots).toArray⟩ s) :
    (⟨pool, (swept ++ after).toArray⟩ : Registry α).WellFormed ∧
      P (swept ++ after).length ⟨pool, (swept ++ after).toArray⟩ s' := by
  induction slots generalizing swept after s with
  | nil =>
    cases h
    exact ⟨hwell, by simpa using hP⟩
  | cons slot slots ih =>
    have hget := hwell.get?_eq swept.length
    rw [List.getElem?_toArray, List.getElem?_append_right (Nat.le_refl _), Nat.sub_self,
      List.getElem?_cons_zero, Option.join_some] at hget
    cases h with
    | @empty _ _ after _ _ hrest =>
      rw [List.append_cons] at hwell hP ⊢
      have hlength : (swept ++ [none]).length = swept.length + 1 := List.length_append
      refine ih _ (hlength ▸ hrest) hwell (hlength ▸ hempty _ _ _ hP ?_)
      rw [← List.append_cons]
      exact hget
    | @object _ _ after _ s₁ _ a a' hstep hrest =>
      have hmodify : (⟨pool, (swept ++ some a :: slots).toArray⟩ : Registry α).modify swept.length
          (fun _ => a') = ⟨pool, (swept ++ some a' :: slots).toArray⟩ := by
        rw [Registry.modify, hget]
        simp
      have hnext := hobject _ _ _ _ _ _ hwell hP hget hstep
      have hwell' := hwell.modify swept.length fun _ => a'
      rw [hmodify, List.append_cons] at hnext hwell'
      rw [List.append_cons]
      have hlength : (swept ++ [some a']).length = swept.length + 1 := List.length_append
      exact ih _ (hlength ▸ hrest) hwell' (hlength ▸ hnext)

/-- A sweep in which each object is changed as `step'` allows too. -/
theorem Sweeps.imp {step' : Uid → α → σ → α → σ → Prop} {uid : Uid}
    {slots after : List (Option α)} {s s' : σ} (h : Sweeps step uid slots s after s')
    (himp : ∀ uid a s a' s', some a ∈ slots → step uid a s a' s' → step' uid a s a' s') :
    Sweeps step' uid slots s after s' := by
  induction h with
  | nil => exact .nil
  | empty _ ih =>
    exact .empty (ih fun uid a s a' s' ha => himp uid a s a' s' (List.mem_cons_of_mem _ ha))
  | object hstep _ ih =>
    exact .object (himp _ _ _ _ _ List.mem_cons_self hstep)
      (ih fun uid a s a' s' ha => himp uid a s a' s' (List.mem_cons_of_mem _ ha))

theorem Sweeps.rel {uid : Uid} {slots after : List (Option α)} {s s' : σ}
    (h : Sweeps step uid slots s after s') (i : Nat) :
    Option.Rel (fun a a' => ∃ uid s s', step uid a s a' s') slots[i]?.join after[i]?.join := by
  induction h generalizing i with
  | nil => exact .none
  | empty _ ih =>
    cases i with
    | zero => exact .none
    | succ i => exact ih i
  | object hstep _ ih =>
    cases i with
    | zero => exact .some ⟨_, _, _, hstep⟩
    | succ i => exact ih i

/-- The objects of one registry stand to those of another as `R` says, each to the one that has its
identifier there. -/
def Related (R : α → α → Prop) (r after : Registry α) : Prop :=
  ∀ uid, Option.Rel R (r.get? uid) (after.get? uid)

namespace Related

variable {R R' R'' : α → α → Prop} {r after last : Registry α}

theorem refl (h : ∀ a, R a a) (r : Registry α) : Related R r r := by
  intro uid
  cases r.get? uid with
  | none => exact .none
  | some a => exact .some (h a)

theorem trans (htrans : ∀ a b c, R a b → R' b c → R'' a c) (h : Related R r after)
    (h' : Related R' after last) : Related R'' r last := by
  intro uid
  have hrel := h uid
  have hrel' := h' uid
  generalize r.get? uid = before at hrel
  generalize after.get? uid = between at hrel hrel'
  generalize last.get? uid = behind at hrel'
  cases hrel with
  | none =>
    cases hrel' with
    | none => exact .none
  | some hab =>
    cases hrel' with
    | some hbc => exact .some (htrans _ _ _ hab hbc)

theorem imp (h : Related R r after)
    (himp : ∀ uid a b, r.get? uid = some a → R a b → R' a b) : Related R' r after := by
  intro uid
  have hrel := h uid
  have hstep := himp uid
  generalize r.get? uid = before at hrel hstep
  generalize after.get? uid = behind at hrel
  cases hrel with
  | none => exact .none
  | some hab => exact .some (hstep _ _ rfl hab)

theorem and (h : Related R r after) (h' : Related R' r after) :
    Related (fun a b => R a b ∧ R' a b) r after := by
  intro uid
  have hrel := h uid
  have hrel' := h' uid
  generalize r.get? uid = before at hrel hrel'
  generalize after.get? uid = behind at hrel hrel'
  cases hrel with
  | none => exact .none
  | some hab =>
    cases hrel' with
    | some hab' => exact .some ⟨hab, hab'⟩

theorem of_map {f : α → α} (hmap : ∀ uid, after.get? uid = (r.get? uid).map f)
    (hf : ∀ uid a, r.get? uid = some a → R a (f a)) : Related R r after := by
  intro uid
  rw [hmap]
  cases hget : r.get? uid with
  | none => exact .none
  | some a => exact .some (hf uid a hget)

theorem exists_before (h : Related R r after) {uid : Uid} {b : α}
    (hget : after.get? uid = some b) : ∃ a, r.get? uid = some a ∧ R a b := by
  have hrel := h uid
  rw [hget] at hrel
  generalize r.get? uid = before at hrel
  cases hrel with
  | some hab => exact ⟨_, rfl, hab⟩

theorem exists_after (h : Related R r after) {uid : Uid} {a : α} (hget : r.get? uid = some a) :
    ∃ b, after.get? uid = some b ∧ R a b := by
  have hrel := h uid
  rw [hget] at hrel
  generalize after.get? uid = behind at hrel
  cases hrel with
  | some hab => exact ⟨_, rfl, hab⟩

/-- What `R` respects holds of all objects before exactly if it does after. -/
theorem forall_iff (h : Related R r after) {P : α → Prop} (hP : ∀ a b, R a b → (P b ↔ P a)) :
    (∀ uid b, after.get? uid = some b → P b) ↔ ∀ uid a, r.get? uid = some a → P a := by
  constructor
  · intro hafter uid a hget
    obtain ⟨b, hget', hab⟩ := h.exists_after hget
    exact (hP a b hab).1 (hafter uid b hget')
  · intro hbefore uid b hget
    obtain ⟨a, hget', hab⟩ := h.exists_before hget
    exact (hP a b hab).2 (hbefore uid a hget')

end Related

/-- The objects are what the slots hold. -/
theorem objects_eq (r : Registry α) : r.objects = r.slots.toList.filterMap id := by
  have hslot : ∀ (slot : Option α) (uid : Uid),
      (slot.map fun object => (uid, object)).map Prod.snd = slot := by
    intro slot uid
    cases slot <;> rfl
  have hfst : r.slots.toList = r.slots.toList.zipIdx.map Prod.fst := by rw [List.zipIdx_map_fst]
  rw [objects, toList, List.map_filterMap]
  simp only [hslot]
  conv_rhs => rw [hfst, List.filterMap_map]
  rfl

theorem WellFormed.mem_objects {r : Registry α} (h : r.WellFormed) {a : α} :
    a ∈ r.objects ↔ ∃ uid, r.get? uid = some a := by
  simp only [objects, List.mem_map, Prod.exists, exists_eq_right, mem_toList, h.get?_eq]

section Monad

variable {m : Type → Type} [Monad m] (results : Results m) {f : Uid → α → StateT σ m α}
  {r after : Registry α} {s s' : σ}

theorem sweeps_of_mapM (h : results.To ((r.mapM f).run s) (after, s')) :
    ∃ slots, after = ⟨r.pool, slots.toArray⟩ ∧
      Sweeps (fun uid a s a' s' => results.To ((f uid a).run s) (a', s')) 0 r.slots.toList s
        slots s' := by
  obtain ⟨⟨slots, s''⟩, hslots, hpure⟩ := results.bind_iff.1 h
  cases results.pure_iff.1 hpure
  exact ⟨slots, rfl, sweeps_of_mapSlotsM results hslots⟩

/-- Each object is changed once, and none comes or goes. -/
theorem related_of_mapM (h : results.To ((r.mapM f).run s) (after, s')) :
    Related (fun a a' => ∃ uid s s', results.To ((f uid a).run s) (a', s')) r after := by
  obtain ⟨slots, rfl, hsweeps⟩ := sweeps_of_mapM results h
  intro uid
  unfold get?
  split
  · exact .none
  · simpa using hsweeps.rel uid

/-- What each change of one object keeps holds after all objects were changed, in any monad. -/
theorem mapM_induct {P : Uid → Registry α → σ → Prop}
    (hempty : ∀ uid r s, P uid r s → r.get? uid = none → P (uid + 1) r s)
    (hobject : ∀ uid r s a a' s', r.WellFormed → P uid r s → r.get? uid = some a →
      results.To ((f uid a).run s) (a', s') → P (uid + 1) (r.modify uid fun _ => a') s')
    (h : results.To ((r.mapM f).run s) (after, s')) (hwell : r.WellFormed) (hP : P 0 r s) :
    after.WellFormed ∧ P after.slots.size after s' := by
  obtain ⟨slots, rfl, hsweeps⟩ := sweeps_of_mapM results h
  exact Sweeps.induct hempty hobject [] hsweeps hwell hP

theorem wellFormed_mapM (h : results.To ((r.mapM f).run s) (after, s')) (hwell : r.WellFormed) :
    after.WellFormed :=
  (mapM_induct results (P := fun _ _ _ => True) (fun _ _ _ _ _ => trivial)
    (fun _ _ _ _ _ _ _ _ _ _ => trivial) h hwell trivial).1

end Monad

theorem isSome_mapSlotsM {f : Uid → α → StateT σ Option α} {uid : Uid} {slots : List (Option α)}
    (h : ∀ a, some a ∈ slots → ∀ uid s, ((f uid a).run s).isSome) (s : σ) :
    ((mapSlotsM f uid slots).run s).isSome := by
  induction slots generalizing uid s with
  | nil => rfl
  | cons slot slots ih =>
    have hslots := fun a ha => h a (List.mem_cons_of_mem _ ha)
    cases slot with
    | none =>
      obtain ⟨⟨rest, s'⟩, hrest⟩ := Option.isSome_iff_exists.1 (ih hslots s)
      exact Option.isSome_iff_exists.2 ⟨_, Option.bind_eq_some_iff.2 ⟨_, hrest, rfl⟩⟩
    | some a =>
      obtain ⟨⟨a', s₁⟩, ha⟩ := Option.isSome_iff_exists.1 (h a List.mem_cons_self uid s)
      obtain ⟨⟨rest, s'⟩, hrest⟩ := Option.isSome_iff_exists.1 (ih hslots s₁)
      exact Option.isSome_iff_exists.2 ⟨_, Option.bind_eq_some_iff.2 ⟨_, ha,
        Option.bind_eq_some_iff.2 ⟨_, hrest, rfl⟩⟩⟩

/-- All objects are changed where each of them can be, from any state. -/
theorem isSome_mapM {r : Registry α} {f : Uid → α → StateT σ Option α} {s : σ}
    (h : ∀ a ∈ r.objects, ∀ uid s, ((f uid a).run s).isSome) : ((r.mapM f).run s).isSome := by
  have hslots : ((mapSlotsM f 0 r.slots.toList).run s).isSome := by
    refine isSome_mapSlotsM (fun a ha => h a ?_) s
    rw [objects_eq]
    exact List.mem_filterMap.2 ⟨_, ha, rfl⟩
  obtain ⟨⟨slots, s'⟩, hslots⟩ := Option.isSome_iff_exists.1 hslots
  exact Option.isSome_iff_exists.2 ⟨_, Option.bind_eq_some_iff.2 ⟨_, hslots, rfl⟩⟩

end Registry

end Diorama

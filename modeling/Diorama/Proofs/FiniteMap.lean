import Diorama.Uid.Registry
import Mathlib.Data.List.Induction

/-! A registry acts as a finite map from identifiers to objects, after any changes.  What carries
the proof is that the pool and the slots stay in step: there is a slot for each identifier that was
ever handed out, and the slots in use are those of the identifiers in use. -/

namespace Diorama.Registry

variable {α : Type} {r : Registry α} {uid : Uid}

/-- The pool and the slots are in step.  The identifier 0 is in use, but its slot is not. -/
structure WellFormed (r : Registry α) : Prop where
  pool : r.pool.WellFormed
  null : r.pool.IsReserved 0
  size_eq : r.slots.size = r.pool.issued
  occupied_iff : ∀ uid, (r.slots[uid]?.join).isSome ↔ uid ≠ 0 ∧ r.pool.IsReserved uid

theorem wellFormed_empty : (empty : Registry α).WellFormed where
  pool := ⟨.nil, by simp [empty, UidPool.reserve]⟩
  null := by simp [empty, UidPool.reserve, UidPool.IsReserved]
  size_eq := rfl
  occupied_iff uid := by
    cases uid with
    | zero => simp [empty]
    | succ uid => simp [empty, UidPool.reserve, UidPool.IsReserved]

theorem remove_of_some {object : α} (hget : r.get? uid = some object) : (r.remove uid).value =
    (some object, ⟨(r.pool.release uid).value, r.slots.setIfInBounds uid none⟩) := by
  rw [remove, hget]
  rfl

theorem remove_of_none (hget : r.get? uid = none) : (r.remove uid).value = (none, r) := by
  rw [remove, hget]
  rfl

theorem fst_remove (r : Registry α) (uid : Uid) : (r.remove uid).value.1 = r.get? uid := by
  cases hget : r.get? uid with
  | none => rw [remove_of_none hget]
  | some object => rw [remove_of_some hget]

theorem mem_toList {object : α} : (uid, object) ∈ r.toList ↔ r.slots[uid]?.join = some object := by
  simp only [toList, List.mem_filterMap, Prod.exists, List.mk_mem_zipIdx_iff_getElem?,
    Option.map_eq_some_iff, Prod.mk.injEq, Array.getElem?_toList, Option.join_eq_some_iff]
  constructor
  · rintro ⟨slot, other, hslot, found, rfl, rfl, rfl⟩
    exact hslot
  · intro hslot
    exact ⟨some object, uid, hslot, object, rfl, rfl, rfl⟩

theorem pairwise_toList (r : Registry α) : r.toList.Pairwise (·.1 < ·.1) := by
  have hnumbers : (r.slots.toList.zipIdx.map (·.2)).Pairwise (· < ·) := by
    rw [List.zipIdx_map_snd]
    exact List.pairwise_lt_range' 1
  rw [toList, List.pairwise_filterMap]
  refine (List.pairwise_map.1 hnumbers).imp fun hlt object hobject other hother => ?_
  obtain ⟨found, -, rfl⟩ := Option.map_eq_some_iff.1 hobject
  obtain ⟨found', -, rfl⟩ := Option.map_eq_some_iff.1 hother
  exact hlt

theorem size_eq_countP (r : Registry α) : r.size = r.slots.toList.countP (·.isSome) :=
  List.countP_eq_length_filter.symm

theorem countP_fill {slots : Array (Option α)} {index : Nat}
    (hempty : slots[index]?.join = none) (object : α) :
    (fill slots index object).toList.countP (·.isSome) = slots.toList.countP (·.isSome) + 1 := by
  unfold fill
  split
  next hlt =>
    have hslot : slots[index] = none := by simpa [hlt] using hempty
    rw [Array.toList_setIfInBounds, List.countP_set (by simpa using hlt)]
    simp [hslot]
  · rw [Array.toList_push, List.countP_append]
    rfl

namespace WellFormed

theorem get?_eq (h : r.WellFormed) (uid : Uid) : r.get? uid = r.slots[uid]?.join := by
  unfold get?
  split
  next hzero =>
    have hempty := mt (h.occupied_iff uid).1 (fun hslot => hslot.1 hzero)
    exact (Option.not_isSome_iff_eq_none.1 hempty).symm
  · rfl

theorem get?_eq_none_iff (h : r.WellFormed) :
    r.get? uid = none ↔ uid = 0 ∨ ¬r.pool.IsReserved uid := by
  rw [h.get?_eq, ← Option.not_isSome_iff_eq_none, h.occupied_iff, not_and_or, ne_eq,
    Decidable.not_not]

theorem isReserved_of_get? (h : r.WellFormed) {object : α} (hget : r.get? uid = some object) :
    uid ≠ 0 ∧ r.pool.IsReserved uid := by
  rw [← h.occupied_iff, ← h.get?_eq, hget]
  rfl

theorem lt_size (h : r.WellFormed) {object : α} (hget : r.get? uid = some object) :
    uid < r.slots.size :=
  h.size_eq ▸ (h.isReserved_of_get? hget).2.1

/-! ### Insertion -/

theorem reserve_le_size (h : r.WellFormed) : r.pool.reserve.1 ≤ r.slots.size :=
  h.size_eq ▸ h.pool.reserve_le.1

theorem getElem?_insertWith (h : r.WellFormed) (make : Uid → α) (uid : Uid) :
    (r.insertWith make).2.slots[uid]?.join =
      if uid = (r.insertWith make).1 then some (make (r.insertWith make).1)
      else r.slots[uid]?.join := by
  simp only [Registry.insertWith]
  rw [getElem?_fill h.reserve_le_size]
  by_cases huid : uid = r.pool.reserve.1 <;> simp [huid]

theorem insertWith (h : r.WellFormed) (make : Uid → α) : (r.insertWith make).2.WellFormed := by
  obtain ⟨hpool, hfresh, hreserved⟩ := h.pool.reserve
  have hnonzero : r.pool.reserve.1 ≠ 0 := fun hzero => hfresh (hzero ▸ h.null)
  refine ⟨hpool, (hreserved 0).2 (.inr h.null), ?_, fun uid => ?_⟩
  · simp only [Registry.insertWith]
    rw [size_fill h.reserve_le_size, h.size_eq, h.pool.reserve_le.2]
  · rw [h.getElem?_insertWith]
    simp only [Registry.insertWith]
    rw [hreserved]
    by_cases huid : uid = r.pool.reserve.1
    · simp [huid, hnonzero]
    · simp [huid, h.occupied_iff]

theorem get?_insertWith (h : r.WellFormed) (make : Uid → α) (uid : Uid) :
    (r.insertWith make).2.get? uid =
      if uid = (r.insertWith make).1 then some (make (r.insertWith make).1) else r.get? uid := by
  rw [(h.insertWith make).get?_eq, h.getElem?_insertWith, h.get?_eq]

theorem insertWith_fresh (h : r.WellFormed) (make : Uid → α) :
    (r.insertWith make).1 ≠ 0 ∧ r.get? (r.insertWith make).1 = none := by
  obtain ⟨-, hfresh, -⟩ := h.pool.reserve
  exact ⟨fun hzero => hfresh (hzero ▸ h.null), h.get?_eq_none_iff.2 (.inr hfresh)⟩

/-! ### Removal and change -/

theorem getElem?_setIfInBounds (h : r.WellFormed) {object : α} (hget : r.get? uid = some object)
    (slot : Option α) (other : Uid) : (r.slots.setIfInBounds uid slot)[other]?.join =
      if other = uid then slot else r.slots[other]?.join := by
  rw [Array.getElem?_setIfInBounds, if_pos (h.lt_size hget)]
  by_cases hother : other = uid
  · simp [hother]
  · simp [hother, Ne.symm hother]

theorem remove (h : r.WellFormed) (uid : Uid) : (r.remove uid).value.2.WellFormed := by
  cases hget : r.get? uid with
  | none => rwa [remove_of_none hget]
  | some object =>
    obtain ⟨hnonzero, huid⟩ := h.isReserved_of_get? hget
    obtain ⟨hpool, hreserved⟩ := h.pool.release huid
    rw [remove_of_some hget]
    refine ⟨hpool, (hreserved 0).2 ⟨hnonzero.symm, h.null⟩, ?_, fun other => ?_⟩
    · rw [Array.size_setIfInBounds, UidPool.value_release huid, h.size_eq]
    · rw [h.getElem?_setIfInBounds hget, hreserved]
      by_cases hother : other = uid
      · simp [hother]
      · simp [hother, h.occupied_iff]

theorem get?_remove (h : r.WellFormed) (uid other : Uid) :
    (r.remove uid).value.2.get? other = if other = uid then none else r.get? other := by
  cases hget : r.get? uid with
  | none =>
    rw [remove_of_none hget]
    split
    next hother => rw [hother, hget]
    · rfl
  | some object =>
    rw [(h.remove uid).get?_eq, remove_of_some hget, h.getElem?_setIfInBounds hget, h.get?_eq]

theorem modify (h : r.WellFormed) (uid : Uid) (f : α → α) : (r.modify uid f).WellFormed := by
  unfold Registry.modify
  split
  next object hget =>
    refine ⟨h.pool, h.null, by rw [Array.size_setIfInBounds, h.size_eq], fun other => ?_⟩
    rw [h.getElem?_setIfInBounds hget, ← h.occupied_iff]
    by_cases hother : other = uid
    · simp [hother, ← h.get?_eq, hget]
    · simp [hother]
  · exact h

theorem get?_modify (h : r.WellFormed) (uid : Uid) (f : α → α) (other : Uid) :
    (r.modify uid f).get? other = if other = uid then (r.get? uid).map f else r.get? other := by
  rw [(h.modify uid f).get?_eq]
  unfold Registry.modify
  split
  next object hget => rw [h.getElem?_setIfInBounds hget, hget, h.get?_eq, Option.map_some]
  next hget =>
    split
    next hother => rw [hother, ← h.get?_eq, hget, Option.map_none]
    · rw [h.get?_eq]

/-! ### Numbers of objects -/

theorem size_insertWith (h : r.WellFormed) (make : Uid → α) :
    (r.insertWith make).2.size = r.size + 1 := by
  have hempty := (h.insertWith_fresh make).2
  rw [h.get?_eq] at hempty
  rw [size_eq_countP, size_eq_countP]
  exact countP_fill hempty _

theorem size_remove (h : r.WellFormed) {object : α} (hget : r.get? uid = some object) :
    (r.remove uid).value.2.size + 1 = r.size := by
  have hlt := h.lt_size hget
  have hslot : r.slots[uid] = some object := by simpa [h.get?_eq, hlt] using hget
  rw [remove_of_some hget, size_eq_countP, size_eq_countP, Array.toList_setIfInBounds,
    List.countP_set (by simpa using hlt)]
  have hpos : 0 < r.slots.toList.countP (·.isSome) :=
    List.countP_pos_iff.2 ⟨_, Array.getElem_mem_toList hlt, by simp [hslot]⟩
  simp only [Array.getElem_toList, hslot, Option.isSome_some, Option.isSome_none, if_true,
    Bool.false_eq_true, if_false]
  omega

end WellFormed

/-! ### Runs -/

/-- A change to a registry. -/
inductive Change (α : Type) where
  | insert (object : α)
  | insertWith (make : Uid → α)
  | remove (uid : Uid)

/-- What a change did. -/
inductive Event (α : Type) where
  | inserted (uid : Uid) (object : α)
  | removed (uid : Uid) (object : α)
  /-- There was nothing to remove. -/
  | missed (uid : Uid)

def Event.isInserted : Event α → Bool
  | .inserted _ _ => true
  | _ => false

def Event.isRemoved : Event α → Bool
  | .removed _ _ => true
  | _ => false

def apply (r : Registry α) : Change α → Event α × Registry α
  | .insert object => (.inserted (r.insert object).1 object, (r.insert object).2)
  | .insertWith make =>
    (.inserted (r.insertWith make).1 (make (r.insertWith make).1), (r.insertWith make).2)
  | .remove uid =>
    ((r.remove uid).value.1.elim (.missed uid) (.removed uid), (r.remove uid).value.2)

/-- A registry after changes, with what they did, the last first. -/
def run (changes : List (Change α)) : List (Event α) × Registry α :=
  changes.foldl (fun s change => ((s.2.apply change).1 :: s.1, (s.2.apply change).2)) ([], empty)

/-- The object last inserted under an identifier, unless it was removed since. -/
def lastUnder (uid : Uid) : List (Event α) → Option α
  | [] => none
  | .inserted other object :: earlier => if uid = other then some object else lastUnder uid earlier
  | .removed other _ :: earlier => if uid = other then none else lastUnder uid earlier
  | .missed _ :: earlier => lastUnder uid earlier

/-- A registry holds what its history says. -/
structure Tracks (events : List (Event α)) (r : Registry α) : Prop where
  wellFormed : r.WellFormed
  get?_eq : ∀ uid, r.get? uid = lastUnder uid events
  size_eq : r.size + events.countP (·.isRemoved) = events.countP (·.isInserted)

theorem tracks_empty : Tracks [] (empty : Registry α) where
  wellFormed := wellFormed_empty
  get?_eq uid := by cases uid <;> rfl
  size_eq := rfl

namespace Tracks

variable {events : List (Event α)}

theorem insertWith (h : Tracks events r) (make : Uid → α) :
    Tracks (.inserted (r.insertWith make).1 (make (r.insertWith make).1) :: events)
      (r.insertWith make).2 where
  wellFormed := h.wellFormed.insertWith make
  get?_eq uid := by
    rw [h.wellFormed.get?_insertWith, lastUnder, h.get?_eq]
  size_eq := by
    have hsize := h.size_eq
    rw [h.wellFormed.size_insertWith, List.countP_cons_of_neg (by simp [Event.isRemoved]),
      List.countP_cons_of_pos (by rfl)]
    omega

theorem remove (h : Tracks events r) (uid : Uid) :
    Tracks ((r.remove uid).value.1.elim (.missed uid) (.removed uid) :: events)
      (r.remove uid).value.2 := by
  have hget := h.wellFormed.get?_remove uid
  rw [fst_remove]
  cases hfound : r.get? uid with
  | none =>
    rw [remove_of_none hfound]
    exact ⟨h.wellFormed, h.get?_eq, h.size_eq⟩
  | some object =>
    refine ⟨h.wellFormed.remove uid, fun other => ?_, ?_⟩
    · rw [hget, Option.elim_some, lastUnder, h.get?_eq]
    · have hsize := h.size_eq
      have hremoved := h.wellFormed.size_remove hfound
      rw [Option.elim_some, List.countP_cons_of_pos (by rfl),
        List.countP_cons_of_neg (by simp [Event.isInserted])]
      omega

theorem apply (h : Tracks events r) (change : Change α) :
    Tracks ((r.apply change).1 :: events) (r.apply change).2 := by
  cases change with
  | insert object => exact h.insertWith fun _ => object
  | insertWith make => exact h.insertWith make
  | remove uid => exact h.remove uid

end Tracks

theorem tracks_run (changes : List (Change α)) : Tracks (run changes).1 (run changes).2 := by
  -- From the end: the last change meets the registry and the history that the others left.
  induction changes using List.reverseRecOn with
  | nil => exact tracks_empty
  | append_singleton changes change ih =>
    rw [run, List.foldl_append]
    exact ih.apply change

/-- What a registry with this history does is what a finite map from identifiers to objects
does. -/
structure ActsAsMap (events : List (Event α)) (r : Registry α) : Prop where
  /-- A look-up gives the object last inserted, unless it was removed since. -/
  get?_eq : ∀ uid, r.get? uid = lastUnder uid events
  get?_zero : r.get? 0 = none
  /-- A change in place reaches the object that a look-up gives, and nothing else. -/
  get?_modify : ∀ uid f other,
    (r.modify uid f).get? other = if other = uid then (r.get? uid).map f else r.get? other
  /-- An insertion takes an identifier other than 0 under which there is no object. -/
  fresh : ∀ make, (r.insertWith make).1 ≠ 0 ∧ r.get? (r.insertWith make).1 = none
  /-- The object is made for the identifier that is returned, and no other object changes. -/
  get?_insertWith : ∀ make uid, (r.insertWith make).2.get? uid =
    if uid = (r.insertWith make).1 then some (make (r.insertWith make).1) else r.get? uid
  insert_eq : ∀ object, r.insert object = r.insertWith fun _ => object
  /-- A removal returns what a look-up gives, and deletes nothing else. -/
  fst_remove : ∀ uid, (r.remove uid).value.1 = r.get? uid
  get?_remove : ∀ uid other,
    (r.remove uid).value.2.get? other = if other = uid then none else r.get? other
  remove_of_none : ∀ uid, r.get? uid = none → (r.remove uid).value.2 = r
  size_eq : r.size + events.countP (·.isRemoved) = events.countP (·.isInserted)
  /-- The list of objects has each once, in the order of identifiers. -/
  mem_toList : ∀ uid object, (uid, object) ∈ r.toList ↔ r.get? uid = some object
  pairwise_toList : r.toList.Pairwise (·.1 < ·.1)
  /-- There is a slot for each identifier ever handed out, and those of the identifiers in use are
  filled, except for 0. -/
  size_slots : r.slots.size = r.pool.issued
  occupied_iff : ∀ uid, (r.slots[uid]?.join).isSome ↔
    uid ≠ 0 ∧ uid < r.pool.issued ∧ uid ∉ r.pool.released

/-- After any insertions and removals, a registry acts as a finite map. -/
theorem run_actsAsMap (changes : List (Change α)) :
    ActsAsMap (run changes).1 (run changes).2 := by
  have h := tracks_run changes
  have hwell := h.wellFormed
  exact {
    get?_eq := h.get?_eq
    get?_zero := rfl
    get?_modify := hwell.get?_modify
    fresh := hwell.insertWith_fresh
    get?_insertWith := hwell.get?_insertWith
    insert_eq := fun _ => rfl
    fst_remove := Registry.fst_remove _
    get?_remove := hwell.get?_remove
    remove_of_none := fun uid hget => by rw [Registry.remove_of_none hget]
    size_eq := h.size_eq
    mem_toList := fun uid object => by rw [Registry.mem_toList, hwell.get?_eq]
    pairwise_toList := Registry.pairwise_toList _
    size_slots := hwell.size_eq
    occupied_iff := hwell.occupied_iff }

end Diorama.Registry

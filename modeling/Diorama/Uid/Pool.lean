import Diorama.Warning

/-! Identifiers, handed out from a pool that reuses the one released last. -/

namespace Diorama

/-- The identifier of an object.  No object has the identifier 0. -/
abbrev Uid := Nat

/-- The identifiers that may be handed out: the released ones, the last first, and those from
`issued` on. -/
structure UidPool where
  released : List Uid := []
  /-- How many identifiers were ever handed out. -/
  issued : Nat := 0
deriving DecidableEq, Repr

namespace UidPool

/-- Hands out the identifier released last, or else a new one. -/
def reserve (pool : UidPool) : Uid × UidPool :=
  match pool.released with
  | uid :: rest => (uid, { pool with released := rest })
  | [] => (pool.issued, { pool with issued := pool.issued + 1 })

/-- Whether an identifier is in use. -/
def IsReserved (pool : UidPool) (uid : Uid) : Prop := uid < pool.issued ∧ uid ∉ pool.released

instance (pool : UidPool) (uid : Uid) : Decidable (pool.IsReserved uid) := by
  unfold IsReserved
  infer_instance

/-- Takes back an identifier that is in use. -/
def release (pool : UidPool) (uid : Uid) : Logged UidPool :=
  if pool.IsReserved uid then pure { pool with released := uid :: pool.released }
  else do
    Logged.warn (.notReserved uid)
    return pool

/-- No identifier waits twice, and only such as were handed out wait. -/
structure WellFormed (pool : UidPool) : Prop where
  nodup : pool.released.Nodup
  lt_issued : ∀ uid ∈ pool.released, uid < pool.issued

section WellFormed

variable {pool : UidPool} {uid other : Uid}

/-- The identifier handed out was not in use, and is the only one that comes into use. -/
theorem WellFormed.reserve (h : pool.WellFormed) : pool.reserve.2.WellFormed ∧
    ¬pool.IsReserved pool.reserve.1 ∧
      ∀ uid, pool.reserve.2.IsReserved uid ↔ uid = pool.reserve.1 ∨ pool.IsReserved uid := by
  obtain ⟨released, issued⟩ := pool
  cases released with
  | nil =>
    refine ⟨⟨.nil, by simp [UidPool.reserve]⟩, by simp [UidPool.reserve, IsReserved], fun uid => ?_⟩
    simp only [UidPool.reserve, IsReserved, List.not_mem_nil, not_false_eq_true, and_true]
    exact Nat.lt_succ_iff_lt_or_eq.trans or_comm
  | cons first rest =>
    obtain ⟨hfirst, hrest⟩ := List.nodup_cons.1 h.nodup
    have hlt := h.lt_issued first (by simp)
    refine ⟨⟨hrest, fun uid huid => h.lt_issued uid (List.mem_cons_of_mem first huid)⟩,
      by simp [UidPool.reserve, IsReserved], fun uid => ?_⟩
    simp only [UidPool.reserve, IsReserved, List.mem_cons, not_or]
    by_cases huid : uid = first
    · simp [huid, hlt, hfirst]
    · simp [huid]

/-- What is handed out is the next new identifier at most. -/
theorem WellFormed.reserve_le (h : pool.WellFormed) : pool.reserve.1 ≤ pool.issued ∧
    pool.reserve.2.issued = max pool.issued (pool.reserve.1 + 1) := by
  obtain ⟨released, issued⟩ := pool
  cases released with
  | nil => exact ⟨Nat.le_refl _, (Nat.max_eq_right (Nat.le_succ _)).symm⟩
  | cons first rest =>
    have hlt := h.lt_issued first (by simp)
    exact ⟨Nat.le_of_lt hlt, (Nat.max_eq_left hlt).symm⟩

theorem value_release (h : pool.IsReserved uid) :
    (pool.release uid).value = { pool with released := uid :: pool.released } := by
  rw [release, if_pos h]
  rfl

/-- An identifier in use can be taken back, and is the only one that goes out of use. -/
theorem WellFormed.release (h : pool.WellFormed) (huid : pool.IsReserved uid) :
    (pool.release uid).value.WellFormed ∧
      ∀ other, (pool.release uid).value.IsReserved other ↔ other ≠ uid ∧ pool.IsReserved other := by
  rw [value_release huid]
  refine ⟨⟨List.nodup_cons.2 ⟨huid.2, h.nodup⟩, ?_⟩, fun other => ?_⟩
  · simpa [huid.1] using h.lt_issued
  · simp only [IsReserved, List.mem_cons, not_or]
    exact and_left_comm

end WellFormed

end UidPool

end Diorama

/-! Sums and products of machine words.  One that no word can hold stops the program, so that it has
no value. -/

namespace Diorama.Word

/-- The word of 64 bits that a number is. -/
def ofNat? (n : Nat) : Option UInt64 := if n < UInt64.size then some (.ofNat n) else none

def add? (a b : UInt64) : Option UInt64 := ofNat? (a.toNat + b.toNat)

def mul? (a b : UInt64) : Option UInt64 := ofNat? (a.toNat * b.toNat)

/-- The next word of 32 bits. -/
def succ? (a : UInt32) : Option UInt32 := if a.toNat + 1 < UInt32.size then some (a + 1) else none

theorem ofNat?_eq_some_iff {n : Nat} {w : UInt64} : ofNat? n = some w ↔ w.toNat = n := by
  unfold ofNat?
  split
  next h =>
    rw [Option.some_inj, ← UInt64.toNat_inj, UInt64.toNat_ofNat_of_lt' h]
    exact eq_comm
  next h =>
    have hlt := w.toNat_lt_size
    exact ⟨nofun, fun heq => absurd (heq ▸ hlt) h⟩

theorem exists_ofNat? {n : Nat} (h : n < UInt64.size) : ∃ w, ofNat? n = some w ∧ w.toNat = n := by
  refine ⟨.ofNat n, if_pos h, UInt64.toNat_ofNat_of_lt' h⟩

variable {a b c : UInt64} {x y : UInt32}

theorem add?_eq_some_iff : add? a b = some c ↔ c.toNat = a.toNat + b.toNat := ofNat?_eq_some_iff

theorem mul?_eq_some_iff : mul? a b = some c ↔ c.toNat = a.toNat * b.toNat := ofNat?_eq_some_iff

theorem succ?_eq_some_iff : succ? x = some y ↔ y.toNat = x.toNat + 1 := by
  have hsum : (x + 1).toNat = (x.toNat + 1) % UInt32.size := UInt32.toNat_add x 1
  unfold succ?
  split
  next h =>
    rw [Nat.mod_eq_of_lt h] at hsum
    rw [Option.some_inj, ← UInt32.toNat_inj, hsum]
    exact eq_comm
  next h =>
    have hlt := y.toNat_lt_size
    exact ⟨nofun, fun heq => absurd (heq ▸ hlt) h⟩

theorem isSome_succ?_iff : (succ? x).isSome ↔ x ≠ 0xFFFFFFFF := by
  have hlt := x.toNat_lt_size
  have hlast : x = 0xFFFFFFFF ↔ x.toNat + 1 = UInt32.size := by
    rw [← UInt32.toNat_inj]
    exact (Nat.succ_inj (a := x.toNat)).symm
  rw [Ne, hlast, succ?]
  split
  next h => exact ⟨fun _ => Nat.ne_of_lt h, fun _ => rfl⟩
  next h => exact ⟨nofun, fun hne => absurd (Nat.lt_of_le_of_ne hlt hne) h⟩

end Diorama.Word

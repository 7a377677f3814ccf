/-! Reading of bits.  A reader takes bits from the front of a text, in which the lowest bit of each
byte comes first.  It finds a value, or that the text ends too early, or that the text is bad
whatever may follow.  A reader that takes one bit at least can be repeated until the text is used
up. -/

namespace Diorama

/-- What a reader makes of a text. -/
inductive Outcome (α : Type) where
  | value (a : α) (rest : List Bool)
  /-- The text ends too early. -/
  | starved
  /-- The text goes wrong, whatever follows it. -/
  | bad

def BitReader (α : Type) : Type := List Bool → Outcome α

namespace BitReader

instance : Monad BitReader where
  pure a := fun s => .value a s
  bind read next := fun s =>
    match read s with
    | .value a rest => next a rest
    | .starved => .starved
    | .bad => .bad

/-- The bits of bytes. -/
def bitsOf (bytes : List UInt8) : List Bool :=
  bytes.flatMap fun b => (List.range 8).map b.toNat.testBit

/-- A value that takes no bits, or a fault. -/
def lift {α : Type} : Option α → BitReader α
  | some a => fun s => .value a s
  | none => fun _ => .bad

/-- Goes on only if there are `n` bits. -/
def demand (n : Nat) : BitReader Unit := fun s =>
  if (s.take n).length = n then .value () s else .starved

def bit : BitReader Bool
  | b :: s => .value b s
  | [] => .starved

/-- The number in the next `n` bits, the lowest bit first. -/
def number : (n : Nat) → BitReader Nat
  | 0 => pure 0
  | n + 1 => do
    let b ← bit
    let more ← number n
    return b.toNat + 2 * more

/-- Leaves at most the bits that it was given. -/
def NonGrowing {α : Type} (read : BitReader α) : Prop :=
  ∀ ⦃s rest : List Bool⦄ ⦃a : α⦄, read s = .value a rest → rest.length ≤ s.length

/-- Takes one bit at least. -/
def Progressing {α : Type} (read : BitReader α) : Prop :=
  ∀ ⦃s rest : List Bool⦄ ⦃a : α⦄, read s = .value a rest → rest.length < s.length

theorem Progressing.nonGrowing {α : Type} {read : BitReader α} (h : read.Progressing) :
    read.NonGrowing := fun _ _ _ hs => Nat.le_of_lt (h hs)

/-- A sequence has a value if its first part has one, and what follows too. -/
theorem bind_eq_value {α β : Type} {read : BitReader α} {next : α → BitReader β}
    {s rest : List Bool} {b : β} (h : (read >>= next) s = .value b rest) :
    ∃ a middle, read s = .value a middle ∧ next a middle = .value b rest := by
  change (match read s with
    | .value a rest => next a rest
    | .starved => .starved
    | .bad => .bad) = Outcome.value b rest at h
  split at h
  · exact ⟨_, _, by assumption, h⟩
  · cases h
  · cases h

theorem NonGrowing.bind {α β : Type} {read : BitReader α} {next : α → BitReader β}
    (hr : read.NonGrowing) (hn : ∀ a, (next a).NonGrowing) : (read >>= next).NonGrowing := by
  intro s rest b h
  obtain ⟨a, middle, ha, hb⟩ := bind_eq_value h
  exact Nat.le_trans (hn a hb) (hr ha)

theorem Progressing.bind {α β : Type} {read : BitReader α} {next : α → BitReader β}
    (hr : read.Progressing) (hn : ∀ a, (next a).NonGrowing) : (read >>= next).Progressing := by
  intro s rest b h
  obtain ⟨a, middle, ha, hb⟩ := bind_eq_value h
  exact Nat.lt_of_le_of_lt (hn a hb) (hr ha)

theorem NonGrowing.bind_progressing {α β : Type} {read : BitReader α} {next : α → BitReader β}
    (hr : read.NonGrowing) (hn : ∀ a, (next a).Progressing) : (read >>= next).Progressing := by
  intro s rest b h
  obtain ⟨a, middle, ha, hb⟩ := bind_eq_value h
  exact Nat.lt_of_lt_of_le (hn a hb) (hr ha)

theorem nonGrowing_pure {α : Type} (a : α) : (pure a : BitReader α).NonGrowing := by
  intro s rest b h
  change Outcome.value a s = .value b rest at h
  cases h
  exact Nat.le_refl _

theorem nonGrowing_lift {α : Type} (a : Option α) : (lift a).NonGrowing := by
  intro s rest b h
  cases a with
  | none => cases h
  | some a => exact nonGrowing_pure a h

theorem nonGrowing_demand (n : Nat) : (demand n).NonGrowing := by
  intro s rest b h
  unfold demand at h
  split at h
  · cases h
    exact Nat.le_refl _
  · cases h

theorem progressing_bit : bit.Progressing := by
  intro s rest b h
  cases s with
  | nil => cases h
  | cons c s =>
    cases h
    exact Nat.lt_succ_self _

theorem nonGrowing_number (n : Nat) : (number n).NonGrowing := by
  induction n with
  | zero => exact nonGrowing_pure 0
  | succ n ih =>
    exact progressing_bit.nonGrowing.bind fun _ => ih.bind fun _ => nonGrowing_pure _

end BitReader

end Diorama

import Mathlib.Order.Bounds.Basic
import Diorama.Time.Pulse
import Diorama.Proofs.Reciprocal

/-! Late polls.  A poll that fires moves the deadline to the first beat after its own time, so that
no burst of pulses follows, as long as the rate is not so high that a period takes no time, and the
number of periods to skip fits in 32 bits; otherwise the deadline stays in the past. -/

namespace Diorama.Pulse

inductive Use where
  | poll (now : Instant)
  | setRate (hz : UInt32)

def use (pulse : Pulse) : Use → Pulse
  | .poll now => (pulse.poll now).2
  | .setRate hz => pulse.setRate hz

def run (pulse : Pulse) (uses : List Use) : Pulse := uses.foldl use pulse

/-- The rate after a run that starts with `hz`: the one that was set last. -/
def rateAfter (hz : UInt32) (uses : List Use) : UInt32 :=
  uses.foldl (fun hz => fun
    | .poll _ => hz
    | .setRate next => next) hz

/-- No poll among the uses is at `deadline` or later. -/
def Precede (uses : List Use) (deadline : Instant) : Prop :=
  ∀ now, Use.poll now ∈ uses → now < deadline

/-- The times whole periods after the deadline, without the deadline. -/
def beats (pulse : Pulse) : Set Instant := {t | ∃ k, 1 ≤ k ∧ t = pulse.next + k * pulse.period}

/-- After a poll that fired, the deadline is the first beat that is to come, and there is no other
pulse until then. -/
structure SkipsAhead (pulse : Pulse) (now : Instant) : Prop where
  earliest : IsLeast {t | t ∈ pulse.beats ∧ now < t} (pulse.poll now).2.next
  quiet : ∀ uses, Precede uses (pulse.poll now).2.next → ∀ t < (pulse.poll now).2.next,
    (((pulse.poll now).2.run uses).poll t).1 = none

/-- The number of periods to skip can be counted, and they take time. -/
def Countable (pulse : Pulse) (now : Instant) : Prop :=
  0 < pulse.period ∧ now - pulse.next < (UInt32.size - 1) * pulse.period

variable {pulse : Pulse} {now t : Instant} {hz : UInt32} {uses : List Use}

/-! ### Periods -/

theorem toNat_max_one (hz : UInt32) : (max hz 1).toNat = max hz.toNat 1 := by
  rw [show max hz 1 = if hz ≤ 1 then 1 else hz from rfl]
  split
  next hle =>
    rw [UInt32.le_iff_toNat_le] at hle
    exact (Nat.max_eq_right hle).symm
  next hlt =>
    rw [UInt32.not_le, UInt32.lt_iff_toNat_lt] at hlt
    exact (Nat.max_eq_left (Nat.le_of_lt hlt)).symm

/-- The period is a number of nanoseconds nearest to the exact one. -/
theorem periodOf_nearest (hz : UInt32) :
    2 * (max hz.toNat 1 * periodOf hz) ≤ 2 * Duration.second + max hz.toNat 1 ∧
      2 * Duration.second ≤ 2 * (max hz.toNat 1 * periodOf hz) + max hz.toNat 1 := by
  have hnearest := Duration.ofSeconds_reciprocal_nearest (max hz 1)
  rw [toNat_max_one] at hnearest
  exact hnearest (by omega)

/-- A period takes time up to a rate of two thousand million hertz. -/
theorem periodOf_pos_iff (hz : UInt32) : 0 < periodOf hz ↔ hz ≤ 2000000000 := by
  rw [UInt32.le_iff_toNat_le]
  change _ ↔ hz.toNat ≤ 2000000000
  obtain ⟨hle, hle'⟩ := periodOf_nearest hz
  change _ ≤ 2 * 1000000000 + _ at hle
  change 2 * 1000000000 ≤ _ at hle'
  constructor
  · intro hpos
    have hmul := Nat.mul_le_mul_left (max hz.toNat 1) (show 1 ≤ periodOf hz from hpos)
    omega
  · intro hrate
    -- The exact period of the last rate lies in the middle, and is rounded up.
    by_cases hlast : hz = 2000000000
    · subst hlast
      decide +kernel
    · have hne : hz.toNat ≠ 2000000000 := fun heq => hlast (UInt32.toNat_inj.1 heq)
      refine Nat.pos_of_ne_zero fun hzero => ?_
      rw [hzero] at hle'
      change 2 * 1000000000 ≤ 2 * (max hz.toNat 1 * 0) + max hz.toNat 1 at hle'
      omega

/-! ### Runs -/

theorem poll_of_lt (h : now < pulse.next) : pulse.poll now = (none, pulse) := if_pos h

theorem isSome_poll_iff : (pulse.poll now).1.isSome = true ↔ pulse.next ≤ now := by
  rw [poll]
  split
  next hlt => simp [hlt]
  next hlt => simpa using hlt

theorem next_poll (h : pulse.next ≤ now) :
    (pulse.poll now).2.next = pulse.next + pulse.period * pulse.periodsPast now := by
  simp only [poll, if_neg (Nat.not_lt.2 h)]

theorem period_poll (pulse : Pulse) (now : Instant) : (pulse.poll now).2.period = pulse.period := by
  rw [poll]
  split <;> rfl

theorem next_setRate (pulse : Pulse) (hz : UInt32) : (pulse.setRate hz).next = pulse.next := by
  unfold setRate
  -- Where the new period is a variable, nothing can be evaluated.
  generalize periodOf hz = period
  rfl

theorem run_cons (pulse : Pulse) (first : Use) (uses : List Use) :
    pulse.run (first :: uses) = (pulse.use first).run uses := rfl

/-- The period is always that of the rate. -/
theorem period_run (h : pulse.period = periodOf hz) :
    (pulse.run uses).period = periodOf (rateAfter hz uses) := by
  induction uses generalizing pulse hz with
  | nil => exact h
  | cons first uses ih =>
    rw [run_cons, rateAfter, List.foldl_cons]
    apply ih
    cases first with
    | poll now => exact (period_poll pulse now).trans h
    | setRate next => rfl

/-- Until its deadline a pulse keeps it. -/
theorem next_run (h : Precede uses pulse.next) : (pulse.run uses).next = pulse.next := by
  induction uses generalizing pulse with
  | nil => rfl
  | cons first uses ih =>
    have hrest : Precede uses pulse.next := fun now hmem => h now (List.mem_cons_of_mem _ hmem)
    rw [run_cons]
    cases first with
    | poll now =>
      rw [use, poll_of_lt (h now List.mem_cons_self)]
      exact ih hrest
    | setRate next =>
      rw [← next_setRate pulse next] at hrest ⊢
      exact ih hrest

theorem poll_run_eq_none (h : Precede uses pulse.next) (ht : t < pulse.next) :
    ((pulse.run uses).poll t).1 = none := by
  rw [← next_run h] at ht
  rw [poll_of_lt ht]

/-! ### Skipping -/

theorem lag_div_lt (h : pulse.Countable now) :
    (now - pulse.next) / pulse.period + 1 < UInt32.size :=
  Nat.add_lt_of_lt_sub (Nat.div_lt_of_lt_mul (by rw [Nat.mul_comm]; exact h.2))

theorem periodsPast_eq (h : pulse.Countable now) :
    pulse.periodsPast now = (now - pulse.next) / pulse.period + 1 := by
  rw [periodsPast, Nat.max_eq_left h.1, Nat.mod_eq_of_lt (lag_div_lt h)]

theorem lt_beat (hnext : pulse.next ≤ now) (h : 0 < pulse.period) :
    now < pulse.next + pulse.period * ((now - pulse.next) / pulse.period + 1) :=
  (Nat.sub_lt_iff_lt_add' hnext).1 (Nat.lt_mul_div_succ _ h)

/-- A beat that is to come is not before the one that the lag gives. -/
theorem le_of_lt_beat {k : Nat} (hnext : pulse.next ≤ now) (hk : now < pulse.next + k * pulse.period) :
    (now - pulse.next) / pulse.period + 1 ≤ k := by
  have hlt : now - pulse.next < k * pulse.period := (Nat.sub_lt_iff_lt_add' hnext).2 hk
  exact Nat.div_lt_of_lt_mul (Nat.mul_comm k pulse.period ▸ hlt)

theorem earliest_of_countable (hnext : pulse.next ≤ now) (h : pulse.Countable now) :
    IsLeast {t | t ∈ pulse.beats ∧ now < t} (pulse.poll now).2.next := by
  rw [next_poll hnext, periodsPast_eq h]
  refine ⟨⟨⟨_, Nat.le_add_left 1 _, by rw [Nat.mul_comm]⟩, lt_beat hnext h.1⟩, ?_⟩
  rintro _ ⟨⟨k, -, rfl⟩, hk⟩
  rw [Nat.mul_comm k]
  exact Nat.add_le_add_left (Nat.mul_le_mul_left _ (le_of_lt_beat hnext hk)) _

/-- The number of periods is a remainder, so where it cannot be counted it is too small. -/
theorem periodsPast_le (h : 0 < pulse.period)
    (hlate : (UInt32.size - 1) * pulse.period ≤ now - pulse.next) :
    pulse.periodsPast now ≤ (now - pulse.next) / pulse.period := by
  have hword : UInt32.size - 1 ≤ (now - pulse.next) / pulse.period := (Nat.le_div_iff_mul_le h).2 hlate
  have hmod : pulse.periodsPast now < UInt32.size := Nat.mod_lt _ (by decide)
  exact (Nat.le_sub_one_of_lt hmod).trans hword

theorem countable_of_lt (hnext : pulse.next ≤ now) (h : now < (pulse.poll now).2.next) :
    pulse.Countable now := by
  rw [next_poll hnext] at h
  have hperiod : 0 < pulse.period := by
    refine Nat.pos_of_ne_zero fun hzero => ?_
    rw [hzero, Nat.zero_mul] at h
    exact Nat.not_lt.2 hnext h
  refine ⟨hperiod, Nat.lt_of_not_le fun hlate => ?_⟩
  refine Nat.lt_irrefl (now - pulse.next) ?_
  calc now - pulse.next < pulse.period * pulse.periodsPast now :=
        (Nat.sub_lt_iff_lt_add' hnext).2 h
    _ ≤ pulse.period * ((now - pulse.next) / pulse.period) :=
        Nat.mul_le_mul_left _ (periodsPast_le hperiod hlate)
    _ ≤ now - pulse.next := Nat.mul_div_le _ _

theorem skipsAhead_iff (hnext : pulse.next ≤ now) :
    pulse.SkipsAhead now ↔ pulse.Countable now :=
  ⟨fun h => countable_of_lt hnext h.earliest.1.2,
    fun h => ⟨earliest_of_countable hnext h, fun _ huses _ => poll_run_eq_none huses⟩⟩

/-- Whatever was done with a pulse, a poll that fires skips ahead exactly if the rate set last is not
above two thousand million hertz and the poll comes less than `2 ^ 32 - 1` periods late. -/
theorem run_skipsAhead_iff (hz : UInt32) (start : Instant) (uses : List Use) (now : Instant)
    (h : (((new hz start).run uses).poll now).1.isSome = true) :
    ((new hz start).run uses).SkipsAhead now ↔ rateAfter hz uses ≤ 2000000000 ∧
      now - ((new hz start).run uses).next < (UInt32.size - 1) * periodOf (rateAfter hz uses) := by
  rw [skipsAhead_iff (isSome_poll_iff.1 h), Countable, period_run rfl, periodOf_pos_iff]

/-- A pulse of a thousand hertz is set to half the rate, fires late, and comes later still. -/
def slowed : List Use := [.poll 500000, .setRate 500, .poll 1700000]

theorem run_skipsAhead_iff_slowed :
    (((new 1000 0).run slowed).poll 9000001).1.isSome = true ∧
      ((new 1000 0).run slowed).SkipsAhead 9000001 ∧
        (((new 1000 0).run slowed).poll 9000001).2.next = 11000000 := by
  have hfires : (((new 1000 0).run slowed).poll 9000001).1.isSome = true := by decide +kernel
  refine ⟨hfires, (run_skipsAhead_iff 1000 0 slowed 9000001 hfires).2 ?_, ?_⟩
  · decide +kernel
  · decide +kernel

/-- A poll that comes `2 ^ 32 - 1` periods late leaves the deadline where it was and fires again at
the same time.  So does every poll at a rate at which a period takes no time. -/
theorem not_skipsAhead_late :
    (((new 1000 0).poll 4294967296000000).2.poll 4294967296000000).1 = some 0 ∧
      ¬(new 1000 0).SkipsAhead 4294967296000000 ∧
        (((new 2000000001 0).poll 0).2.poll 0).1 = some 0 ∧ ¬(new 2000000001 0).SkipsAhead 0 := by
  have hlate : (((new 1000 0).poll 4294967296000000).2.poll 4294967296000000).1 = some 0 := by
    decide +kernel
  have hzero : (((new 2000000001 0).poll 0).2.poll 0).1 = some 0 := by decide +kernel
  refine ⟨hlate, fun h => ?_, hzero, fun h => ?_⟩
  · have hnone := h.quiet [] (by simp [Precede]) _ h.earliest.1.2
    rw [run, List.foldl_nil, hlate] at hnone
    cases hnone
  · have hnone := h.quiet [] (by simp [Precede]) _ h.earliest.1.2
    rw [run, List.foldl_nil, hzero] at hnone
    cases hnone

end Diorama.Pulse

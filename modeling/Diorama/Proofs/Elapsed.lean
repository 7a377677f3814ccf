import Mathlib.Algebra.BigOperators.Group.List.Basic
import Diorama.Proofs.Cadence

/-! The time between pulses.  What a pulse gives when it fires is the time since it last fired, so
that no time is lost or counted twice, and its deadline moves by whole periods of the rate in force,
however late the polls come and whichever rates are set in between. -/

namespace Diorama.Pulse

/-- A poll that fired. -/
structure Firing where
  /-- The deadline in force. -/
  due : Instant
  /-- The rate in force: the one that was set last. -/
  rate : UInt32
  time : Instant
  /-- What the poll gave. -/
  elapsed : Duration
deriving DecidableEq, Repr

namespace Firing

/-- The number of periods by which the deadline moves: with the first past the time of the firing,
as far as it can be counted in 32 bits. -/
def periods (f : Firing) : Nat :=
  ((f.time - f.due) / max (periodOf f.rate) 1 + 1) % UInt32.size

/-- The time of the last of several firings, or `start` if there is none. -/
def lastTime (start : Instant) (firings : List Firing) : Instant :=
  (firings.getLast?.map (·.time)).getD start

end Firing

/-- What a use of a pulse adds to its firings. -/
def firing? (pulse : Pulse) (hz : UInt32) : Use → Option Firing
  | .poll now => (pulse.poll now).1.map fun elapsed => ⟨pulse.next, hz, now, elapsed⟩
  | .setRate _ => none

/-- The polls of a run that fire, in order.  The run starts with the rate `hz`. -/
def firings (pulse : Pulse) (hz : UInt32) : List Use → List Firing
  | [] => []
  | first :: uses =>
    (pulse.firing? hz first).toList ++ (pulse.use first).firings (rateAfter hz [first]) uses

def Use.time? : Use → Option Instant
  | .poll now => some now
  | .setRate _ => none

/-- No poll is before `start`, and none is before one that comes earlier in the run. -/
def InOrder (start : Instant) (uses : List Use) : Prop :=
  (start :: uses.filterMap Use.time?).Pairwise (· ≤ ·)

instance (start : Instant) (uses : List Use) : Decidable (InOrder start uses) := by
  unfold InOrder
  infer_instance

/-- The firings of a run account for the time that went by, and for the deadline. -/
structure KeepsTime (hz : UInt32) (start : Instant) (uses : List Use) (pulse : Pulse)
    (firings : List Firing) : Prop where
  /-- A poll fires from the deadline on, and gives the time since the last firing. -/
  poll_eq : ∀ now, (pulse.poll now).1 =
    if pulse.next ≤ now then some (now - Firing.lastTime start firings) else none
  due_le : ∀ f ∈ firings, f.due ≤ f.time
  elapsed : ∀ before f after, firings = before ++ f :: after →
    Firing.lastTime start before + f.elapsed = f.time
  sum_elapsed : start + (firings.map (·.elapsed)).sum = Firing.lastTime start firings
  /-- The period in force is that of the rate that was set last. -/
  period_eq : pulse.period = periodOf (rateAfter hz uses)
  /-- The deadline has moved by whole periods of the rates at which the pulse fired. -/
  next_eq : pulse.next =
    start + periodOf hz + (firings.map fun f => f.periods * periodOf f.rate).sum
  next_setRate : ∀ rate, (pulse.setRate rate).next = pulse.next
  /-- While no rate is set, the deadline is whole periods after the start. -/
  next_of_noRate : (∀ rate, Use.setRate rate ∉ uses) →
    ∃ k, 1 ≤ k ∧ pulse.next = start + k * periodOf hz

variable {pulse : Pulse} {hz : UInt32} {start now : Instant} {uses more : List Use} {next : Use}
  {f : Firing} {fs : List Firing}

/-! ### Firings -/

theorem run_append (pulse : Pulse) (uses more : List Use) :
    pulse.run (uses ++ more) = (pulse.run uses).run more :=
  List.foldl_append

theorem rateAfter_append (hz : UInt32) (uses more : List Use) :
    rateAfter hz (uses ++ more) = rateAfter (rateAfter hz uses) more :=
  List.foldl_append

theorem rateAfter_poll (hz : UInt32) (uses : List Use) (now : Instant) :
    rateAfter hz (uses ++ [.poll now]) = rateAfter hz uses := by
  rw [rateAfter, List.foldl_concat, rateAfter]

theorem rateAfter_setRate (hz rate : UInt32) (uses : List Use) :
    rateAfter hz (uses ++ [.setRate rate]) = rate := by
  rw [rateAfter, List.foldl_concat]

theorem last_setRate (pulse : Pulse) (hz : UInt32) : (pulse.setRate hz).last = pulse.last := by
  unfold setRate
  generalize periodOf hz = period
  rfl

theorem period_setRate (pulse : Pulse) (hz : UInt32) : (pulse.setRate hz).period = periodOf hz := by
  unfold setRate
  generalize periodOf hz = period
  rfl

theorem firings_append : pulse.firings hz (uses ++ more) =
    pulse.firings hz uses ++ (pulse.run uses).firings (rateAfter hz uses) more := by
  induction uses generalizing pulse hz with
  | nil => rfl
  | cons first uses ih =>
    rw [List.cons_append, firings, firings, ih, List.append_assoc, run_cons,
      ← rateAfter_append, List.singleton_append]

theorem firings_concat : pulse.firings hz (uses ++ [next]) =
    pulse.firings hz uses ++ ((pulse.run uses).firing? (rateAfter hz uses) next).toList := by
  rw [firings_append, firings, firings, List.append_nil]

theorem Firing.lastTime_concat (start : Instant) (fs : List Firing) (f : Firing) :
    lastTime start (fs ++ [f]) = f.time := by
  rw [lastTime, List.getLast?_concat]
  rfl

/-- A poll fires from the deadline on. -/
theorem firing?_poll : pulse.firing? hz (.poll now) =
    if pulse.next ≤ now then some ⟨pulse.next, hz, now, now - pulse.last⟩ else none := by
  rw [firing?, poll]
  by_cases h : pulse.next ≤ now
  · rw [if_neg (Nat.not_lt.2 h), if_pos h]
    rfl
  · rw [if_pos (Nat.lt_of_not_le h), if_neg h]
    rfl

theorem time_of_firing? (h : pulse.firing? hz next = some f) : next = .poll f.time := by
  cases next with
  | poll now =>
    obtain ⟨elapsed, -, rfl⟩ := Option.map_eq_some_iff.1 h
    rfl
  | setRate rate => cases h

/-- Each firing is at the time of a poll of the run. -/
theorem mem_of_mem_firings (h : f ∈ pulse.firings hz uses) : .poll f.time ∈ uses := by
  induction uses generalizing pulse hz with
  | nil => cases h
  | cons first uses ih =>
    rcases List.mem_append.1 h with hfirst | hrest
    · rw [time_of_firing? (Option.mem_toList.1 hfirst)]
      exact List.mem_cons_self
    · exact List.mem_cons_of_mem first (ih hrest)

/-! ### What one use adds -/

/-- The state of a pulse is what its firings say, whenever its polls come. -/
structure Matches (hz : UInt32) (start : Instant) (uses : List Use) (pulse : Pulse)
    (fs : List Firing) : Prop where
  period_eq : pulse.period = periodOf (rateAfter hz uses)
  last_eq : pulse.last = Firing.lastTime start fs
  next_eq : pulse.next = start + periodOf hz + (fs.map fun f => f.periods * periodOf f.rate).sum

theorem matches_new (hz : UInt32) (start : Instant) : Matches hz start [] (new hz start) [] := by
  -- Where the period is a variable, nothing can be evaluated.
  have hnew : ∀ period, period = periodOf hz →
      Matches hz start [] ⟨period, start + period, start⟩ [] := by
    rintro period hperiod
    exact ⟨hperiod, rfl, by rw [← hperiod]; rfl⟩
  exact hnew (periodOf hz) rfl

/-- A poll that fires moves the deadline as far as its firing says. -/
theorem Matches.poll (h : Matches hz start uses pulse fs) (hdue : pulse.next ≤ now) :
    Matches hz start (uses ++ [.poll now]) (pulse.poll now).2
      (fs ++ [⟨pulse.next, rateAfter hz uses, now, now - pulse.last⟩]) := by
  refine ⟨?_, ?_, ?_⟩
  · rw [period_poll, h.period_eq, rateAfter_poll]
  · rw [Firing.lastTime_concat, Pulse.poll, if_neg (Nat.not_lt.2 hdue)]
  · rw [List.map_append, List.sum_append, List.map_singleton, List.sum_singleton, ← Nat.add_assoc,
      ← h.next_eq, next_poll hdue, Firing.periods, ← h.period_eq, Nat.mul_comm, periodsPast]

theorem Matches.setRate (h : Matches hz start uses pulse fs) (rate : UInt32) :
    Matches hz start (uses ++ [.setRate rate]) (pulse.setRate rate) fs := by
  refine ⟨?_, ?_, ?_⟩
  · rw [rateAfter_setRate, period_setRate]
  · rw [last_setRate, h.last_eq]
  · rw [next_setRate, h.next_eq]

theorem Matches.use (h : Matches hz start uses pulse fs) (next : Use) :
    Matches hz start (uses ++ [next]) (pulse.use next)
      (fs ++ (pulse.firing? (rateAfter hz uses) next).toList) := by
  cases next with
  | poll now =>
    rw [Pulse.use, firing?_poll]
    by_cases hdue : pulse.next ≤ now
    · rw [if_pos hdue]
      exact h.poll hdue
    · rw [if_neg hdue, poll_of_lt (Nat.lt_of_not_le hdue), Option.toList_none, List.append_nil]
      exact ⟨by rw [h.period_eq, rateAfter_poll], h.last_eq, h.next_eq⟩
  | setRate rate =>
    rw [firing?, Option.toList_none, List.append_nil]
    exact h.setRate rate

theorem matches_run (hz : UInt32) (start : Instant) (uses : List Use) :
    Matches hz start uses ((new hz start).run uses) ((new hz start).firings hz uses) := by
  -- From the end: the last use meets the pulse and the firings that the others left.
  induction uses using List.reverseRecOn with
  | nil => exact matches_new hz start
  | append_singleton uses next ih =>
    rw [firings_concat, run_append]
    exact ih.use next

/-! ### Runs in order -/

theorem InOrder.of_append (h : InOrder start (uses ++ more)) : InOrder start uses := by
  rw [InOrder, List.filterMap_append, ← List.cons_append] at h
  exact (List.pairwise_append.1 h).1

/-- The last firing of a run is not after the poll that comes next. -/
theorem InOrder.lastTime_le (h : InOrder start (uses ++ [.poll now])) :
    Firing.lastTime start (pulse.firings hz uses) ≤ now := by
  rw [InOrder, List.filterMap_append, ← List.cons_append, List.pairwise_append] at h
  have hle : ∀ t ∈ start :: uses.filterMap Use.time?, t ≤ now := fun t ht =>
    h.2.2 t ht now (by simp [Use.time?])
  rw [Firing.lastTime]
  cases hlast : (pulse.firings hz uses).getLast? with
  | none => exact hle start List.mem_cons_self
  | some f =>
    have hpoll := mem_of_mem_firings (List.mem_of_getLast? hlast)
    exact hle f.time (List.mem_cons_of_mem _ (List.mem_filterMap.2 ⟨_, hpoll, rfl⟩))

/-- Each firing gives the time since the one before it. -/
def Adjoining (start : Instant) (fs : List Firing) : Prop :=
  ∀ before f after, fs = before ++ f :: after →
    Firing.lastTime start before + f.elapsed = f.time

theorem Adjoining.concat (h : Adjoining start fs)
    (hf : Firing.lastTime start fs + f.elapsed = f.time) : Adjoining start (fs ++ [f]) := by
  intro before g after hsplit
  rcases List.eq_nil_or_concat after with rfl | ⟨rest, last, rfl⟩
  · obtain ⟨rfl, hg⟩ := List.append_inj' hsplit rfl
    cases hg
    exact hf
  · rw [List.concat_eq_append, ← List.cons_append, ← List.append_assoc] at hsplit
    obtain ⟨hfs, -⟩ := List.append_inj' hsplit rfl
    exact h before g rest hfs

theorem adjoining_firings (h : InOrder start uses) :
    Adjoining start ((new hz start).firings hz uses) := by
  induction uses using List.reverseRecOn with
  | nil =>
    intro before f after hsplit
    simp [firings] at hsplit
  | append_singleton uses next ih =>
    rw [firings_concat]
    cases next with
    | setRate rate =>
      rw [firing?, Option.toList_none, List.append_nil]
      exact ih h.of_append
    | poll now =>
      rw [firing?_poll]
      split
      · refine (ih h.of_append).concat ?_
        rw [(matches_run hz start uses).last_eq]
        exact Nat.add_sub_cancel' h.lastTime_le
      · rw [Option.toList_none, List.append_nil]
        exact ih h.of_append

/-- What adjoins adds up. -/
theorem Adjoining.sum_eq (h : Adjoining start fs) :
    start + (fs.map (·.elapsed)).sum = Firing.lastTime start fs := by
  induction fs using List.reverseRecOn with
  | nil => rfl
  | append_singleton fs f ih =>
    have hfs : Adjoining start fs := fun before g after hsplit =>
      h before g (after ++ [f]) (by rw [hsplit, List.append_assoc, List.cons_append])
    rw [List.map_append, List.sum_append, ← Nat.add_assoc, ih hfs, Firing.lastTime_concat]
    exact h fs f [] rfl

theorem due_le_of_mem (h : f ∈ pulse.firings hz uses) : f.due ≤ f.time := by
  induction uses generalizing pulse hz with
  | nil => cases h
  | cons first uses ih =>
    rcases List.mem_append.1 h with hfirst | hrest
    · have hfires := Option.mem_toList.1 hfirst
      rw [time_of_firing? hfires, firing?_poll] at hfires
      obtain ⟨hdue, hf⟩ := Option.ite_none_right_eq_some.1 hfires
      rw [← Option.some.inj hf]
      exact hdue
    · exact ih hrest

/-- While no rate is set, each firing is at the rate of the start. -/
theorem rate_of_mem (hnone : ∀ rate, Use.setRate rate ∉ uses) (h : f ∈ pulse.firings hz uses) :
    f.rate = hz := by
  induction uses generalizing pulse with
  | nil => cases h
  | cons first uses ih =>
    cases first with
    | setRate rate => exact absurd List.mem_cons_self (hnone rate)
    | poll now =>
      rcases List.mem_append.1 h with hfirst | hrest
      · obtain ⟨elapsed, -, rfl⟩ := Option.map_eq_some_iff.1 (Option.mem_toList.1 hfirst)
        rfl
      · exact ih (fun rate hmem => hnone rate (List.mem_cons_of_mem _ hmem)) hrest

theorem Matches.next_of_noRate (h : Matches hz start uses pulse fs)
    (hrate : ∀ f ∈ fs, f.rate = hz) : pulse.next =
      start + (1 + (fs.map (·.periods)).sum) * periodOf hz := by
  have hperiods : (fs.map fun f => f.periods * periodOf f.rate) =
      fs.map fun f => f.periods * periodOf hz :=
    List.map_congr_left fun f hf => by rw [hrate f hf]
  rw [h.next_eq, hperiods, List.sum_map_mul_right, Nat.add_mul, Nat.one_mul, Nat.add_assoc]

/-- Whatever is done with a pulse, in the order of time, its firings account for the time since the
start and for the deadline. -/
theorem run_keepsTime (hz : UInt32) (start : Instant) (uses : List Use) (h : InOrder start uses) :
    KeepsTime hz start uses ((new hz start).run uses) ((new hz start).firings hz uses) := by
  have hmatches := matches_run hz start uses
  have hadjoining : Adjoining start ((new hz start).firings hz uses) := adjoining_firings h
  refine ⟨fun now => ?_, fun f => due_le_of_mem, hadjoining, hadjoining.sum_eq, hmatches.period_eq,
    hmatches.next_eq, next_setRate _, fun hnone => ?_⟩
  · rw [← hmatches.last_eq, poll]
    by_cases hdue : ((new hz start).run uses).next ≤ now
    · rw [if_neg (Nat.not_lt.2 hdue), if_pos hdue]
    · rw [if_pos (Nat.lt_of_not_le hdue), if_neg hdue]
  · exact ⟨_, Nat.le_add_right 1 _, hmatches.next_of_noRate fun f => rate_of_mem hnone⟩

/-- A pulse of a thousand hertz fires late at half the rate, twice in a row, and once more at the
rate of the start. -/
def paced : List Use :=
  [.poll 500000, .setRate 500, .poll 1700000, .poll 9000001, .setRate 1000, .poll 11000000,
    .poll 11999999, .poll 12000000]

theorem run_keepsTime_paced :
    InOrder 0 paced ∧
      KeepsTime 1000 0 paced ((new 1000 0).run paced) ((new 1000 0).firings 1000 paced) ∧
        (new 1000 0).firings 1000 paced =
          [⟨1000000, 500, 1700000, 1700000⟩, ⟨3000000, 500, 9000001, 7300001⟩,
            ⟨11000000, 1000, 11000000, 1999999⟩, ⟨12000000, 1000, 12000000, 1000000⟩] ∧
          ((new 1000 0).run paced).next = 13000000 := by
  have horder : InOrder 0 paced := by decide
  exact ⟨horder, run_keepsTime 1000 0 paced horder, by decide +kernel, by decide +kernel⟩

end Diorama.Pulse

import Mathlib.Data.List.Nodup
import Mathlib.Data.List.Perm.Basic
import Diorama.Load.Pending

/-! The barrier of a start.  The loads only count their tickets, and know neither which of them are
out nor in which order they come back; as long as each ticket is handed back by who has it, the count
is right after every call, and the barrier opens with the last ticket. -/

namespace Diorama.PendingLoads

inductive Call where
  | enqueue
  | spawn
  | complete (ticket : Ticket)
  | fail (ticket : Ticket) (reason : String)
  | start (now : Instant)
  | poll (now : Instant) (timeout : Duration)

/-- The tickets of a start: all that were issued, those that are out, be it with a load that runs by
itself, and those that came back, in the order in which they did, with the reason if the load
failed. -/
structure Ledger where
  begun : Instant
  issued : List Ticket := []
  held : List Ticket := []
  returned : List (Ticket × Option String) := []
deriving DecidableEq

def Ledger.take (ledger : Ledger) (ticket : Ticket) : Ledger :=
  { ledger with issued := ledger.issued ++ [ticket], held := ledger.held ++ [ticket] }

/-- A ticket that is handed back is gone for who had it. -/
def Ledger.giveBack (ledger : Ledger) (ticket : Ticket) (reason : Option String) : Ledger :=
  { ledger with
    held := ledger.held.erase ticket, returned := ledger.returned ++ [(ticket, reason)] }

structure Phase where
  ledger : Ledger
  loads : PendingLoads
deriving DecidableEq

namespace Phase

/-- No load is registered yet. -/
def new (now : Instant) : Phase := ⟨{ begun := now }, { started := now }⟩

def act (s : Phase) : Call → Phase
  | .enqueue => ⟨s.ledger.take s.loads.enqueue.1, s.loads.enqueue.2⟩
  | .spawn => ⟨s.ledger.take s.loads.enqueue.1, s.loads.spawn⟩
  | .complete ticket => ⟨s.ledger.giveBack ticket none, s.loads.complete ticket⟩
  | .fail ticket reason =>
    ⟨s.ledger.giveBack ticket (some reason), (s.loads.fail ticket reason).value⟩
  | .start now => ⟨{ s.ledger with begun := now }, s.loads.start now⟩
  | .poll _ _ => s

def run (s : Phase) (calls : List Call) : Phase := calls.foldl act s

/-- Only who has a ticket can hand it back. -/
def Permits (s : Phase) : Call → Prop
  | .complete ticket => ticket ∈ s.ledger.held
  | .fail ticket _ => ticket ∈ s.ledger.held
  | _ => True

/-- Each call of the run is permitted when it is made. -/
def Linear (s : Phase) : List Call → Prop
  | [] => True
  | call :: calls => s.Permits call ∧ (s.act call).Linear calls

/-- The counters and the list of failures say what the ledger says. -/
structure Balanced (s : Phase) : Prop where
  issued_eq : s.ledger.issued = List.range' 1 s.loads.issued
  parted : (s.ledger.held ++ s.ledger.returned.map (·.1)).Perm s.ledger.issued
  outstanding_eq : s.loads.outstanding = s.ledger.held.length
  failures_eq : s.loads.failures = s.ledger.returned.filterMap (·.2)
  started_eq : s.loads.started = s.ledger.begun

/-- The barrier is closed while a ticket is out, and tells how many are. -/
structure Guarded (s : Phase) : Prop where
  distinct : s.ledger.issued.Nodup
  parted : (s.ledger.held ++ s.ledger.returned.map (·.1)).Perm s.ledger.issued
  issued_eq : s.loads.issued = s.ledger.issued.length
  outstanding_eq : s.loads.outstanding = s.ledger.held.length
  /-- There is something to count down for each ticket that is out. -/
  lowers : ∀ ticket ∈ s.ledger.held, (s.loads.complete ticket).outstanding + 1 =
    s.loads.outstanding ∧ ∀ reason, (s.loads.fail ticket reason).value.outstanding + 1 =
      s.loads.outstanding
  failures_eq : s.loads.failures = s.ledger.returned.filterMap (·.2)
  settled_iff : s.loads.isSettled = true ↔
    ∀ ticket ∈ s.ledger.issued, ticket ∈ s.ledger.returned.map (·.1)
  open_iff : ∀ now timeout, s.loads.pollBarrier now timeout = .ok true ↔
    s.loads.isSettled = true
  timeout_iff : ∀ now timeout e, s.loads.pollBarrier now timeout = .error e ↔
    s.loads.isSettled = false ∧ timeout ≤ now - s.ledger.begun ∧
      e = .timeout s.ledger.held.length (now - s.ledger.begun)
  waits_iff : ∀ now timeout, s.loads.pollBarrier now timeout = .ok false ↔
    s.loads.isSettled = false ∧ now - s.ledger.begun < timeout

variable {s : Phase} {ticket : Ticket} {call : Call} {calls : List Call}

/-! ### Steps -/

theorem Balanced.new (now : Instant) : (Phase.new now).Balanced :=
  ⟨rfl, .nil, rfl, rfl, rfl⟩

theorem Balanced.take (h : s.Balanced) :
    (⟨s.ledger.take s.loads.enqueue.1, s.loads.enqueue.2⟩ : Phase).Balanced where
  issued_eq := by
    rw [Ledger.take, h.issued_eq, enqueue, List.range'_1_concat, Nat.add_comm]
  parted := by
    have hmove : (s.ledger.held ++ [s.loads.enqueue.1] ++ s.ledger.returned.map (·.1)).Perm
        (s.ledger.held ++ s.ledger.returned.map (·.1) ++ [s.loads.enqueue.1]) := by
      rw [List.append_assoc, List.append_assoc]
      exact List.perm_append_comm.append_left _
    exact hmove.trans (h.parted.append_right _)
  outstanding_eq := by
    rw [enqueue, Ledger.take, h.outstanding_eq, List.length_append, List.length_singleton]
  failures_eq := h.failures_eq
  started_eq := h.started_eq

theorem parted_giveBack {ledger : Ledger} (hheld : ticket ∈ ledger.held) (reason : Option String) :
    ((ledger.giveBack ticket reason).held ++ (ledger.giveBack ticket reason).returned.map (·.1)).Perm
      (ledger.held ++ ledger.returned.map (·.1)) := by
  rw [Ledger.giveBack, List.map_append, List.map_singleton, ← List.append_assoc]
  refine List.perm_append_comm.trans ?_
  exact (List.perm_cons_erase hheld).symm.append_right _

/-- A ticket comes back, and with it the reason if its load failed. -/
theorem Balanced.giveBack (h : s.Balanced) (hheld : ticket ∈ s.ledger.held)
    (reason : Option String) : (⟨s.ledger.giveBack ticket reason,
      { s.loads with
        outstanding := s.loads.outstanding - 1,
        failures := s.loads.failures ++ reason.toList }⟩ : Phase).Balanced where
  issued_eq := h.issued_eq
  parted := (parted_giveBack hheld reason).trans h.parted
  outstanding_eq := by
    rw [Ledger.giveBack, List.length_erase_of_mem hheld, h.outstanding_eq]
  failures_eq := by
    rw [Ledger.giveBack, List.filterMap_append, h.failures_eq]
    cases reason <;> rfl
  started_eq := h.started_eq

theorem act_complete (s : Phase) (ticket : Ticket) : s.act (.complete ticket) =
    ⟨s.ledger.giveBack ticket none,
      { s.loads with
        outstanding := s.loads.outstanding - 1, failures := s.loads.failures ++ [] }⟩ := by
  rw [List.append_nil]
  rfl

/-- Every permitted call keeps the balance. -/
theorem Balanced.act (h : s.Balanced) (hcall : s.Permits call) : (s.act call).Balanced := by
  cases call with
  | enqueue => exact h.take
  | spawn => exact h.take
  | complete ticket =>
    rw [act_complete]
    exact h.giveBack hcall none
  | fail ticket reason => exact h.giveBack hcall (some reason)
  | start now => exact { h with started_eq := rfl }
  | poll now timeout => exact h

theorem Balanced.run (h : s.Balanced) (hcalls : s.Linear calls) : (s.run calls).Balanced := by
  induction calls generalizing s with
  | nil => exact h
  | cons call calls ih => exact ih (h.act hcalls.1) hcalls.2

/-! ### The barrier -/

theorem isSettled_iff (loads : PendingLoads) : loads.isSettled = true ↔ loads.outstanding = 0 :=
  beq_iff_eq

theorem pollBarrier_cases (loads : PendingLoads) (now : Instant) (timeout : Duration) :
    loads.isSettled = true ∧ loads.pollBarrier now timeout = .ok true ∨
      loads.isSettled = false ∧ timeout ≤ now - loads.started ∧ loads.pollBarrier now timeout =
        .error (.timeout loads.outstanding (now - loads.started)) ∨
      loads.isSettled = false ∧ now - loads.started < timeout ∧
        loads.pollBarrier now timeout = .ok false := by
  rw [pollBarrier, waited]
  by_cases hsettled : loads.isSettled = true
  · exact .inl ⟨hsettled, if_pos hsettled⟩
  · right
    rw [if_neg hsettled]
    rw [Bool.not_eq_true] at hsettled
    by_cases hlate : timeout ≤ now - loads.started
    · exact .inl ⟨hsettled, hlate, if_pos hlate⟩
    · exact .inr ⟨hsettled, Nat.lt_of_not_le hlate, if_neg hlate⟩

theorem Balanced.outstanding_pos (h : s.Balanced) (hheld : ticket ∈ s.ledger.held) :
    0 < s.loads.outstanding := by
  rw [h.outstanding_eq]
  exact List.length_pos_of_mem hheld

/-- No ticket is out exactly if all of them came back. -/
theorem Balanced.settled_iff (h : s.Balanced) : s.loads.isSettled = true ↔
    ∀ ticket ∈ s.ledger.issued, ticket ∈ s.ledger.returned.map (·.1) := by
  rw [isSettled_iff, h.outstanding_eq, List.length_eq_zero_iff]
  constructor
  · intro hnil ticket hissued
    have hmem := h.parted.mem_iff.2 hissued
    rwa [hnil, List.nil_append] at hmem
  · intro hall
    -- A ticket that is out as well as back would be among the issued ones twice.
    have hnodup : (s.ledger.held ++ s.ledger.returned.map (·.1)).Nodup := by
      rw [h.parted.nodup_iff, h.issued_eq]
      exact List.nodup_range'
    rw [List.eq_nil_iff_forall_not_mem]
    intro ticket hheld
    have hissued := h.parted.mem_iff.1 (List.mem_append_left _ hheld)
    exact List.disjoint_of_nodup_append hnodup hheld (hall ticket hissued)

theorem Balanced.guarded (h : s.Balanced) : s.Guarded where
  distinct := by
    rw [h.issued_eq]
    exact List.nodup_range'
  parted := h.parted
  issued_eq := by rw [h.issued_eq, List.length_range']
  outstanding_eq := h.outstanding_eq
  lowers ticket hheld := by
    have hpos := h.outstanding_pos hheld
    exact ⟨Nat.sub_add_cancel hpos, fun _ => Nat.sub_add_cancel hpos⟩
  failures_eq := h.failures_eq
  settled_iff := h.settled_iff
  open_iff now timeout := by
    rcases pollBarrier_cases s.loads now timeout with ⟨hs, hp⟩ | ⟨hs, -, hp⟩ | ⟨hs, -, hp⟩ <;>
      simp [hs, hp]
  timeout_iff now timeout e := by
    rw [← h.started_eq, ← h.outstanding_eq]
    rcases pollBarrier_cases s.loads now timeout with ⟨hs, hp⟩ | ⟨hs, hlate, hp⟩ | ⟨hs, hlate, hp⟩
    · simp [hs, hp]
    · simp [hs, hp, hlate, eq_comm]
    · simp [hs, hp, Nat.not_le.2 hlate]
  waits_iff now timeout := by
    rw [← h.started_eq]
    rcases pollBarrier_cases s.loads now timeout with ⟨hs, hp⟩ | ⟨hs, hlate, hp⟩ | ⟨hs, hlate, hp⟩
    · simp [hs, hp]
    · simp [hs, hp, Nat.not_lt.2 hlate]
    · simp [hs, hp, hlate]

/-- However the loads of a start come back, its barrier is closed while one of them is out. -/
theorem run_guarded (now : Instant) (h : (new now).Linear calls) : ((new now).run calls).Guarded :=
  ((Balanced.new now).run h).guarded

/-- Two loads come back in the other order, the second without its resource, while one that runs by
itself is still out. -/
def threeLoads : List Call :=
  [.enqueue, .spawn, .enqueue, .start 7, .fail 3 "lost", .poll 8 5, .complete 1]

theorem run_guarded_three : (new 0).Linear threeLoads ∧ ((new 0).run threeLoads).Guarded ∧
    (new 0).run threeLoads = ⟨⟨7, [1, 2, 3], [2], [(3, some "lost"), (1, none)]⟩,
      ⟨3, 1, ["lost"], 7⟩⟩ := by
  have hlinear : (new 0).Linear threeLoads := by simp [threeLoads, Linear, Permits, act, new,
    Ledger.take, Ledger.giveBack, enqueue, spawn, PendingLoads.start]
  exact ⟨hlinear, run_guarded 0 hlinear, by decide⟩

end Phase

end Diorama.PendingLoads

import Mathlib.Data.List.Induction
import Mathlib.Order.Bounds.Basic
import Diorama.Uid.Pool

/-! Which identifier a pool hands out next.  Whatever was called before, it is the one that its owner
gave back last and that was not handed out since, or else the least that never was handed out; so no
identifier has two owners.  What carries the proof is that the list of a pool is the identifiers that
wait, in the order in which they came back. -/

namespace Diorama.UidPool

/-- A call of a pool.  Any number can be given back, also one that is not in use. -/
inductive Call where
  | reserve
  | release (uid : Uid)

inductive Event where
  | handedOut (uid : Uid)
  /-- There was a call to give an identifier back, whether it was in use or not. -/
  | givenBack (uid : Uid)
deriving DecidableEq

def call (pool : UidPool) : Call → Event × UidPool
  | .reserve => (.handedOut pool.reserve.1, pool.reserve.2)
  | .release uid => (.givenBack uid, (pool.release uid).value)

/-- A pool after calls, with what happened, the last first. -/
def run (calls : List Call) : List Event × UidPool :=
  calls.foldl (fun s next => ((s.2.call next).1 :: s.1, (s.2.call next).2)) ([], {})

/-! ### Histories -/

section History

variable {events later : List Event} {uid other : Uid}

/-- An identifier was handed out, and not given back since. -/
def Owned (events : List Event) (uid : Uid) : Prop :=
  ∃ later earlier, events = later ++ .handedOut uid :: earlier ∧ .givenBack uid ∉ later

/-- An identifier was given back by an owner, and in what came `later` it was not handed out. -/
def WaitsSince (events later : List Event) (uid : Uid) : Prop :=
  ∃ earlier, events = later ++ .givenBack uid :: earlier ∧ Owned earlier uid ∧
    .handedOut uid ∉ later

def Waits (events : List Event) (uid : Uid) : Prop := ∃ later, WaitsSince events later uid

/-- Of the identifiers that wait, this one was given back last. -/
def WaitsShortest (events : List Event) (uid : Uid) : Prop :=
  ∃ later, WaitsSince events later uid ∧
    ∀ other ≠ uid, ∀ later', WaitsSince events later' other → later.length < later'.length

/-- The identifier to hand out after these events: the last of those that wait, or the least new
one if none waits. -/
def IsNext (events : List Event) (uid : Uid) : Prop :=
  WaitsShortest events uid ∨
    (∀ other, ¬Waits events other) ∧ IsLeast {uid | .handedOut uid ∉ events} uid

theorem not_owned_nil (uid : Uid) : ¬Owned [] uid := by simp [Owned]

theorem owned_cons_handedOut : Owned (.handedOut other :: events) uid ↔
    uid = other ∨ Owned events uid := by
  constructor
  · rintro ⟨later, earlier, hsplit, hlater⟩
    cases later with
    | nil =>
      cases hsplit
      exact .inl rfl
    | cons event later =>
      cases hsplit
      exact .inr ⟨later, earlier, rfl, fun h => hlater (List.mem_cons_of_mem _ h)⟩
  · rintro (rfl | ⟨later, earlier, rfl, hlater⟩)
    · exact ⟨[], events, rfl, List.not_mem_nil⟩
    · exact ⟨.handedOut other :: later, earlier, rfl, by simpa using hlater⟩

theorem owned_cons_givenBack : Owned (.givenBack other :: events) uid ↔
    uid ≠ other ∧ Owned events uid := by
  constructor
  · rintro ⟨later, earlier, hsplit, hlater⟩
    cases later with
    | nil => cases hsplit
    | cons event later =>
      cases hsplit
      have hboth : uid ≠ other ∧ Event.givenBack uid ∉ later := by simpa using hlater
      exact ⟨hboth.1, later, earlier, rfl, hboth.2⟩
  · rintro ⟨hne, later, earlier, rfl, hlater⟩
    exact ⟨.givenBack other :: later, earlier, rfl, by simpa using ⟨hne, hlater⟩⟩

theorem not_waitsSince_nil : ¬WaitsSince [] later uid := by simp [WaitsSince]

theorem waitsSince_cons_handedOut : WaitsSince (.handedOut other :: events) later uid ↔
    uid ≠ other ∧ ∃ since, later = .handedOut other :: since ∧ WaitsSince events since uid := by
  constructor
  · rintro ⟨earlier, hsplit, howned, hlater⟩
    cases later with
    | nil => cases hsplit
    | cons event since =>
      cases hsplit
      have hboth : uid ≠ other ∧ Event.handedOut uid ∉ since := by simpa using hlater
      exact ⟨hboth.1, since, rfl, earlier, rfl, howned, hboth.2⟩
  · rintro ⟨hne, since, rfl, earlier, rfl, howned, hsince⟩
    exact ⟨earlier, rfl, howned, by simpa using ⟨hne, hsince⟩⟩

theorem waitsSince_cons_givenBack : WaitsSince (.givenBack other :: events) later uid ↔
    (later = [] ∧ uid = other ∧ Owned events other) ∨
      ∃ since, later = .givenBack other :: since ∧ WaitsSince events since uid := by
  constructor
  · rintro ⟨earlier, hsplit, howned, hlater⟩
    cases later with
    | nil =>
      cases hsplit
      exact .inl ⟨rfl, rfl, howned⟩
    | cons event since =>
      cases hsplit
      exact .inr ⟨since, rfl, earlier, rfl, howned, fun h => hlater (List.mem_cons_of_mem _ h)⟩
  · rintro (⟨rfl, rfl, howned⟩ | ⟨since, rfl, earlier, rfl, howned, hsince⟩)
    · exact ⟨events, rfl, howned, List.not_mem_nil⟩
    · exact ⟨earlier, rfl, howned, by simpa using hsince⟩

/-- Unless its owner has just given it back, an identifier has waited for longer. -/
theorem WaitsSince.exists_since (h : WaitsSince (.givenBack other :: events) later uid)
    (hold : uid = other → ¬Owned events other) :
    ∃ since, later = .givenBack other :: since ∧ WaitsSince events since uid := by
  obtain ⟨-, heq, howned⟩ | hsince := waitsSince_cons_givenBack.1 h
  · exact absurd howned (hold heq)
  · exact hsince

theorem waits_cons_handedOut : Waits (.handedOut other :: events) uid ↔
    uid ≠ other ∧ Waits events uid := by
  simp [Waits, waitsSince_cons_handedOut]

theorem waits_cons_givenBack : Waits (.givenBack other :: events) uid ↔
    (uid = other ∧ Owned events other) ∨ Waits events uid := by
  simp [Waits, waitsSince_cons_givenBack, exists_or]

/-- What was handed out has an owner, or waits. -/
theorem mem_iff_owned_or_waits : .handedOut uid ∈ events ↔ Owned events uid ∨ Waits events uid := by
  induction events with
  | nil => simp [not_owned_nil, Waits, not_waitsSince_nil]
  | cons event events ih =>
    cases event with
    | handedOut other =>
      rw [List.mem_cons, Event.handedOut.injEq, ih, owned_cons_handedOut, waits_cons_handedOut]
      by_cases huid : uid = other <;> simp [huid]
    | givenBack other =>
      have hne : Event.handedOut uid ≠ .givenBack other := Event.noConfusion
      rw [List.mem_cons, or_iff_right hne, ih, owned_cons_givenBack, waits_cons_givenBack]
      by_cases huid : uid = other <;> simp [huid]

theorem IsNext.unique (h : IsNext events uid) (h' : IsNext events other) : uid = other := by
  rcases h, h' with ⟨⟨later, hlater, hlast⟩ | ⟨hnone, hleast⟩,
    ⟨later', hlater', hlast'⟩ | ⟨hnone', hleast'⟩⟩
  · by_contra hne
    have hlt := hlast other (Ne.symm hne) later' hlater'
    exact Nat.lt_asymm hlt (hlast' uid hne later hlater)
  · exact absurd ⟨later, hlater⟩ (hnone' uid)
  · exact absurd ⟨later', hlater'⟩ (hnone other)
  · exact hleast.unique hleast'

end History

/-! ### The list of a pool -/

theorem release_of_not_isReserved {pool : UidPool} {uid : Uid} (h : ¬pool.IsReserved uid) :
    pool.release uid = ⟨pool, [.notReserved uid]⟩ := by
  rw [release, if_neg h]
  rfl

/-- A pool is kept according to what happened.  Its list is the identifiers that wait, the one that
came back last first. -/
structure Tracks (events : List Event) (pool : UidPool) : Prop where
  wellFormed : pool.WellFormed
  owned_iff : ∀ uid, Owned events uid ↔ pool.IsReserved uid
  waits_iff : ∀ uid, Waits events uid ↔ uid ∈ pool.released
  ordered : pool.released.Pairwise fun first second => ∀ later later',
    WaitsSince events later first → WaitsSince events later' second → later.length < later'.length

theorem tracks_new : Tracks [] {} where
  wellFormed := ⟨.nil, by simp⟩
  owned_iff uid := by simp [not_owned_nil, IsReserved]
  waits_iff uid := by simp [Waits, not_waitsSince_nil]
  ordered := .nil

namespace Tracks

variable {events : List Event} {pool : UidPool} {uid : Uid}

theorem mem_reserve_iff (h : Tracks events pool) (uid : Uid) :
    uid ∈ pool.reserve.2.released ↔ uid ≠ pool.reserve.1 ∧ uid ∈ pool.released := by
  obtain ⟨released, issued⟩ := pool
  cases released with
  | nil => simp [UidPool.reserve]
  | cons first rest =>
    have hfirst : first ∉ rest := (List.nodup_cons.1 h.wellFormed.nodup).1
    simp only [UidPool.reserve, List.mem_cons]
    constructor
    · intro hrest
      exact ⟨fun heq => hfirst (heq ▸ hrest), .inr hrest⟩
    · rintro ⟨hne, heq | hrest⟩
      · exact absurd heq hne
      · exact hrest

theorem reserve (h : Tracks events pool) :
    Tracks (.handedOut pool.reserve.1 :: events) pool.reserve.2 := by
  obtain ⟨hwell, -, hreserved⟩ := h.wellFormed.reserve
  refine ⟨hwell, fun uid => ?_, fun uid => ?_, ?_⟩
  · rw [owned_cons_handedOut, h.owned_iff, hreserved]
  · rw [waits_cons_handedOut, h.waits_iff, h.mem_reserve_iff]
  · have hsub : pool.reserve.2.released.Sublist pool.released := by
      unfold UidPool.reserve
      split
      next heq => exact heq ▸ List.sublist_cons_self _ _
      next => exact List.Sublist.refl _
    refine (h.ordered.sublist hsub).imp fun hlt later later' hlater hlater' => ?_
    obtain ⟨-, since, rfl, hsince⟩ := waitsSince_cons_handedOut.1 hlater
    obtain ⟨-, since', rfl, hsince'⟩ := waitsSince_cons_handedOut.1 hlater'
    simpa using hlt since since' hsince hsince'

/-- A call to give back changes nothing in the order of those that waited before. -/
theorem ordered_givenBack (h : Tracks events pool) (hold : Owned events uid → uid ∉ pool.released) :
    pool.released.Pairwise fun first second => ∀ later later',
      WaitsSince (.givenBack uid :: events) later first →
        WaitsSince (.givenBack uid :: events) later' second → later.length < later'.length := by
  have hother {other : Uid} (hmem : other ∈ pool.released) (heq : other = uid) :
      ¬Owned events uid := fun howned => hold howned (heq ▸ hmem)
  refine h.ordered.imp_of_mem fun hfirst hsecond hlt later later' hlater hlater' => ?_
  obtain ⟨since, rfl, hsince⟩ := hlater.exists_since (hother hfirst)
  obtain ⟨since', rfl, hsince'⟩ := hlater'.exists_since (hother hsecond)
  simpa using hlt since since' hsince hsince'

theorem release (h : Tracks events pool) (uid : Uid) :
    Tracks (.givenBack uid :: events) (pool.release uid).value := by
  by_cases huid : pool.IsReserved uid
  · obtain ⟨hwell, hreserved⟩ := h.wellFormed.release huid
    have howned := (h.owned_iff uid).2 huid
    refine ⟨hwell, fun other => ?_, fun other => ?_, ?_⟩
    · rw [owned_cons_givenBack, h.owned_iff, hreserved]
    · rw [waits_cons_givenBack, h.waits_iff, and_iff_left howned, value_release huid, List.mem_cons]
    · rw [value_release huid]
      refine List.pairwise_cons.2 ⟨fun second hsecond later later' hlater hlater' => ?_,
        h.ordered_givenBack fun _ => huid.2⟩
      have hne : second ≠ uid := fun heq => huid.2 (heq ▸ hsecond)
      obtain ⟨since', rfl, -⟩ := hlater'.exists_since fun heq => absurd heq hne
      obtain ⟨rfl, -, -⟩ | ⟨since, -, hsince⟩ := waitsSince_cons_givenBack.1 hlater
      · exact Nat.succ_pos _
      · exact absurd ((h.waits_iff uid).1 ⟨since, hsince⟩) huid.2
  · have hnot : ¬Owned events uid := mt (h.owned_iff uid).1 huid
    rw [release_of_not_isReserved huid]
    refine ⟨h.wellFormed, fun other => ?_, fun other => ?_,
      h.ordered_givenBack fun howned => absurd howned hnot⟩
    · rw [owned_cons_givenBack, ← h.owned_iff]
      exact and_iff_right_of_imp fun howned heq => hnot (heq ▸ howned)
    · rw [waits_cons_givenBack, ← h.waits_iff]
      exact or_iff_right fun hboth => hnot hboth.2

theorem call (h : Tracks events pool) (next : Call) :
    Tracks ((pool.call next).1 :: events) (pool.call next).2 := by
  cases next with
  | reserve => exact h.reserve
  | release uid => exact h.release uid

theorem lt_issued_iff (h : Tracks events pool) (uid : Uid) :
    uid < pool.issued ↔ .handedOut uid ∈ events := by
  rw [mem_iff_owned_or_waits, h.owned_iff, h.waits_iff]
  constructor
  · intro hlt
    by_cases hmem : uid ∈ pool.released
    · exact .inr hmem
    · exact .inl ⟨hlt, hmem⟩
  · rintro (huid | hmem)
    · exact huid.1
    · exact h.wellFormed.lt_issued uid hmem

theorem isLeast_issued (h : Tracks events pool) :
    IsLeast {uid | .handedOut uid ∉ events} pool.issued := by
  constructor
  · exact mt (h.lt_issued_iff pool.issued).2 (Nat.lt_irrefl _)
  · exact fun uid huid => Nat.not_lt.1 (mt (h.lt_issued_iff uid).1 huid)

theorem isNext_reserve (h : Tracks events pool) : IsNext events pool.reserve.1 := by
  cases hreleased : pool.released with
  | nil =>
    have hissued : pool.reserve.1 = pool.issued := by rw [UidPool.reserve, hreleased]
    rw [hissued]
    exact .inr ⟨fun other hwaits => by simpa [hreleased] using (h.waits_iff other).1 hwaits,
      h.isLeast_issued⟩
  | cons first rest =>
    have hfirst : pool.reserve.1 = first := by rw [UidPool.reserve, hreleased]
    have hordered := h.ordered
    rw [hreleased, List.pairwise_cons] at hordered
    obtain ⟨later, hlater⟩ := (h.waits_iff first).2 (by simp [hreleased])
    rw [hfirst]
    refine .inl ⟨later, hlater, fun other hne later' hlater' => ?_⟩
    have hother : other ∈ first :: rest := hreleased ▸ (h.waits_iff other).1 ⟨later', hlater'⟩
    exact hordered.1 other ((List.mem_cons.1 hother).resolve_left hne) later later' hlater hlater'

end Tracks

theorem tracks_run (calls : List Call) : Tracks (run calls).1 (run calls).2 := by
  -- From the end: the last call meets the pool and the history that the others left.
  induction calls using List.reverseRecOn with
  | nil => exact tracks_new
  | append_singleton calls next ih =>
    rw [run, List.foldl_append]
    exact ih.call next

/-- What a pool with this history hands out and takes back. -/
structure Disciplined (events : List Event) (pool : UidPool) : Prop where
  /-- Nothing is handed out that has an owner. -/
  not_owned_reserve : ¬Owned events pool.reserve.1
  reserve_eq_iff : ∀ uid, pool.reserve.1 = uid ↔ IsNext events uid
  /-- A return changes the pool if there was an owner, and otherwise there is a warning. -/
  release_ne_iff : ∀ uid, (pool.release uid).value ≠ pool ↔ Owned events uid
  release_of_owned : ∀ uid, Owned events uid →
    pool.release uid = ⟨{ pool with released := uid :: pool.released }, []⟩
  release_of_not_owned : ∀ uid, ¬Owned events uid → pool.release uid = ⟨pool, [.notReserved uid]⟩
  nodup_released : pool.released.Nodup
  not_owned_of_mem : ∀ uid ∈ pool.released, ¬Owned events uid
  lt_issued_iff : ∀ uid, uid < pool.issued ↔ Owned events uid ∨ uid ∈ pool.released
  isLeast_issued : IsLeast {uid | .handedOut uid ∉ events} pool.issued

/-- After any calls of a new pool: no identifier is handed out that has an owner; the next one is the
one that its owner gave back last, of those that wait, or else the least new one; a return has an
effect if there is an owner, and no other; and each number below that of new identifiers has an owner
or waits, and not both. -/
theorem run_disciplined (calls : List Call) : Disciplined (run calls).1 (run calls).2 := by
  have h := tracks_run calls
  generalize (run calls).1 = events at h ⊢
  generalize (run calls).2 = pool at h ⊢
  have hrelease : ∀ uid, Owned events uid →
      pool.release uid = ⟨{ pool with released := uid :: pool.released }, []⟩ := fun uid howned => by
    rw [UidPool.release, if_pos ((h.owned_iff uid).1 howned)]
    rfl
  have hignore : ∀ uid, ¬Owned events uid → pool.release uid = ⟨pool, [.notReserved uid]⟩ :=
    fun uid hnot => release_of_not_isReserved (mt (h.owned_iff uid).2 hnot)
  refine ⟨?_, fun uid => ⟨?_, h.isNext_reserve.unique⟩, fun uid => ⟨?_, ?_⟩, hrelease, hignore,
    h.wellFormed.nodup, fun uid hmem howned => ((h.owned_iff uid).1 howned).2 hmem, fun uid => ?_,
    h.isLeast_issued⟩
  · exact mt (h.owned_iff _).1 h.wellFormed.reserve.2.1
  · rintro rfl
    exact h.isNext_reserve
  · intro hne
    by_contra hnot
    exact hne (by rw [hignore uid hnot])
  · intro howned heq
    rw [hrelease uid howned] at heq
    simpa using congrArg (·.released.length) heq
  · rw [h.lt_issued_iff, mem_iff_owned_or_waits, h.waits_iff]

/-- A second return of one identifier does not put it first again. -/
example : (run [.reserve, .reserve, .release 0, .release 1, .release 0]).2.reserve.1 = 1 := rfl

end Diorama.UidPool

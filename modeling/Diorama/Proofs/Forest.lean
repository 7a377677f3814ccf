import Diorama.Graph.Path
import Mathlib.Data.List.Nodup

/-! The check of a graph accepts forests and nothing else. -/

namespace Diorama.Graph

variable {M : Type} {nodes : List (Node M)} {names roots path : List Nat} {meshes : Option Nat}

/-- The start of a path has the start of its trail. -/
theorem trail?_take {trail : List Nat} (h : trail? nodes names path = some trail) (n : Nat) :
    trail? nodes names (path.take n) = some (trail.take n) := by
  induction path generalizing names trail n with
  | nil => simp_all [trail?]
  | cons position path ih =>
    cases n with
    | zero => simp [trail?]
    | succ n =>
      simp only [trail?_cons, Option.bind_eq_some_iff, Option.map_eq_some_iff] at h
      obtain ⟨i, hi, rest, hrest, rfl⟩ := h
      simp [trail?_cons, hi, ih hrest]

theorem target?_take {trail : List Nat} (h : trail? nodes names path = some trail) {n : Nat}
    (hn : n < trail.length) : target? nodes names (path.take (n + 1)) = some trail[n] := by
  rw [target?, trail?_take h, Option.bind_some, List.getLast?_take]
  simp [hn]

/-- A path on which all children are in range leads into the range. -/
theorem lt_of_target? {i : Nat} (hnames : ∀ j ∈ names, j < nodes.length)
    (hchildren : ∀ j, Reachable nodes names j → ∀ child ∈ childrenOf nodes j, child < nodes.length)
    (h : target? nodes names path = some i) : i < nodes.length := by
  induction path generalizing names with
  | nil => simp at h
  | cons position path ih =>
    cases path with
    | nil =>
      rw [target?_singleton] at h
      exact hnames i (List.mem_of_getElem? h)
    | cons step path =>
      rw [target?_cons _ (by simp), Option.bind_eq_some_iff] at h
      obtain ⟨j, hj, h⟩ := h
      refine ih (hchildren j ⟨[position], by rw [target?_singleton, hj]⟩) ?_ h
      rintro k ⟨lower, hlower⟩
      have hne : lower ≠ [] := by
        rintro rfl
        simp at hlower
      exact hchildren k ⟨position :: lower, by rw [target?_cons _ hne, hj, Option.bind_some, hlower]⟩

namespace IsForest

theorem lt (h : IsForest nodes roots meshes) {i : Nat} (hi : target? nodes roots path = some i) :
    i < nodes.length :=
  lt_of_target? h.root_lt h.child_lt hi

/-- A path through a forest comes to no node twice, so it has no more steps than there are nodes. -/
theorem length_le (h : IsForest nodes roots meshes) {trail : List Nat}
    (htrail : trail? nodes roots path = some trail) : trail.length ≤ nodes.length := by
  have hnodup : trail.Nodup := by
    rw [List.nodup_iff_getElem?_ne_getElem?]
    intro m n hmn hn heq
    have hm : m < trail.length := by omega
    rw [List.getElem?_eq_getElem hm, List.getElem?_eq_getElem hn, Option.some.injEq] at heq
    have htake := (h.path_unique trail[m] ⟨_, target?_take htrail hm⟩).unique
      (target?_take htrail hm) (heq ▸ target?_take htrail hn)
    have hlength := congrArg List.length htake
    rw [List.length_take, List.length_take, ← length_of_trail? htrail] at hlength
    omega
  have hsubset : trail ⊆ List.range nodes.length := by
    intro i hi
    obtain ⟨n, hn, rfl⟩ := List.getElem_of_mem hi
    exact List.mem_range.2 (h.lt (target?_take htrail hn))
  simpa using hnodup.length_le_of_subset hsubset

end IsForest

/-- Names from which all paths are short and stay in range have a depth-first order. -/
theorem exists_depthFirst (depth : Nat) (h : ∀ path i, target? nodes names path = some i →
    path.length ≤ depth ∧ i < nodes.length) : ∃ order, DepthFirst nodes names order := by
  induction depth generalizing names with
  | zero =>
    cases names with
    | nil => exact ⟨[], .nil⟩
    | cons i names => exact absurd (h [0] i (by simp [target?_singleton])).1 (by simp)
  | succ depth ih =>
    induction names with
    | nil => exact ⟨[], .nil⟩
    | cons i names ihNames =>
      have hchildren : ∀ path j, target? nodes (childrenOf nodes i) path = some j →
          path.length ≤ depth ∧ j < nodes.length := by
        intro path j hj
        simpa using h (0 :: path) j (target?_below hj)
      obtain ⟨below, hbelow⟩ := ih hchildren
      obtain ⟨after, hafter⟩ := ihNames fun path j hj => by
        obtain ⟨position, rest, rfl, hrest⟩ := target?_past (i := i) hj
        simpa using h _ j hrest
      exact ⟨_, .cons (h [0] i (by simp [target?_singleton])).2 hbelow hafter⟩

/-- The check accepts a graph exactly where the nodes below the roots form a forest. -/
theorem check_ok_iff_isForest (nodes : List (Node M)) (roots : List Nat) (meshes : Option Nat) :
    check nodes roots meshes = .ok () ↔ IsForest nodes roots meshes := by
  rw [check_eq_ok_iff]
  constructor
  · rintro ⟨order, horder, hnodup, hmesh⟩
    refine ⟨horder.lt_of_mem, ?_, ?_, ?_⟩
    · exact fun i hi => horder.child_lt_of_mem i (horder.mem_iff.2 hi)
    · exact fun i hi => hmesh i (horder.mem_iff.2 hi)
    · rintro i ⟨path, hpath⟩
      exact ⟨path, hpath, fun path' hpath' => horder.nodup_iff.1 hnodup i path' path hpath' hpath⟩
  · intro h
    obtain ⟨order, horder⟩ := exists_depthFirst nodes.length fun path i hi => by
      obtain ⟨trail, htrail, -⟩ := Option.bind_eq_some_iff.1 hi
      rw [← length_of_trail? htrail]
      exact ⟨h.length_le htrail, h.lt hi⟩
    refine ⟨order, horder, horder.nodup_iff.2 fun i path path' hpath hpath' => ?_, fun i hi => ?_⟩
    · exact (h.path_unique i ⟨path, hpath⟩).unique hpath hpath'
    · exact h.mesh_lt i (horder.mem_iff.1 hi)

end Diorama.Graph

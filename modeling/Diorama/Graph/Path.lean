import Diorama.Graph.Order
import Mathlib.Logic.ExistsUnique

/-! Paths through a graph, and what makes the nodes below some roots a forest.  A depth-first order
has a node as often as there are paths to it. -/

namespace Diorama.Graph

variable {M : Type}

/-- The nodes along a path.  A path is a position in a list of names, and then one in the children
of each node that it comes to. -/
def trail? (nodes : List (Node M)) : (names path : List Nat) → Option (List Nat)
  | _, [] => some []
  | names, position :: path => do
    let i ← names[position]?
    let trail ← trail? nodes (childrenOf nodes i) path
    return i :: trail

/-- The node that a path leads to, the last one along it. -/
def target? (nodes : List (Node M)) (names path : List Nat) : Option Nat :=
  (trail? nodes names path).bind (·.getLast?)

/-- A node is reachable where a path leads to it. -/
def Reachable (nodes : List (Node M)) (roots : List Nat) (i : Nat) : Prop :=
  ∃ path, target? nodes roots path = some i

/-- The nodes below the roots are a forest: all indices are in range, and exactly one path leads to
each node. -/
structure IsForest (nodes : List (Node M)) (roots : List Nat) (meshes : Option Nat) : Prop where
  root_lt : ∀ i ∈ roots, i < nodes.length
  child_lt : ∀ i, Reachable nodes roots i → ∀ child ∈ childrenOf nodes i, child < nodes.length
  mesh_lt : ∀ i, Reachable nodes roots i → MeshInRange nodes meshes i
  path_unique : ∀ i, Reachable nodes roots i → ∃! path, target? nodes roots path = some i

variable {nodes : List (Node M)} {names path : List Nat} {i j : Nat}

theorem trail?_cons (position : Nat) : trail? nodes names (position :: path) =
    names[position]?.bind fun i => (trail? nodes (childrenOf nodes i) path).map (i :: ·) := by
  cases h : names[position]? with
  | none => simp [trail?, h]
  | some i => cases h' : trail? nodes (childrenOf nodes i) path <;> simp [trail?, h, h']

theorem length_of_trail? {trail : List Nat} (h : trail? nodes names path = some trail) :
    trail.length = path.length := by
  induction path generalizing names trail with
  | nil => simp_all [trail?]
  | cons position path ih =>
    simp only [trail?_cons, Option.bind_eq_some_iff, Option.map_eq_some_iff] at h
    obtain ⟨i, -, rest, hrest, rfl⟩ := h
    simp [ih hrest]

@[simp] theorem target?_nil : target? nodes names [] = none := rfl

theorem target?_singleton (position : Nat) : target? nodes names [position] = names[position]? := by
  cases h : names[position]? <;> simp [target?, trail?, h]

/-- Where a path goes on, it does so from the children of the node that it comes to first. -/
theorem target?_cons (position : Nat) (hpath : path ≠ []) :
    target? nodes names (position :: path) =
      names[position]?.bind fun i => target? nodes (childrenOf nodes i) path := by
  cases h : names[position]? with
  | none => simp [target?, trail?_cons, h]
  | some i =>
    cases h' : trail? nodes (childrenOf nodes i) path with
    | none => simp [target?, trail?_cons, h, h']
    | some trail =>
      have hlength := length_of_trail? h'
      cases trail with
      | nil => exact absurd (List.length_eq_zero_iff.1 hlength.symm) hpath
      | cons k trail => simp [target?, trail?_cons, h, h']

theorem target?_succ (position : Nat) :
    target? nodes (i :: names) ((position + 1) :: path) = target? nodes names (position :: path) := by
  simp [target?, trail?_cons]

/-- A path leads to the first name, or below it, or past it. -/
theorem target?_cons_names_iff : target? nodes (i :: names) path = some j ↔
    (path = [0] ∧ j = i) ∨
    (∃ down, path = 0 :: down ∧ target? nodes (childrenOf nodes i) down = some j) ∨
    (∃ position rest, path = (position + 1) :: rest ∧
      target? nodes names (position :: rest) = some j) := by
  match path with
  | [] => simp
  | [0] => simp [target?_singleton, eq_comm]
  | 0 :: step :: path => simp [target?_cons]
  | (position + 1) :: rest => simp [target?_succ, and_assoc]

theorem target?_below (h : target? nodes (childrenOf nodes i) path = some j) :
    target? nodes (i :: names) (0 :: path) = some j :=
  target?_cons_names_iff.2 (.inr (.inl ⟨path, rfl, h⟩))

/-- Past a further name, a path starts one position later. -/
theorem target?_past (h : target? nodes names path = some j) :
    ∃ position rest, path = position :: rest ∧
      target? nodes (i :: names) ((position + 1) :: rest) = some j := by
  cases path with
  | nil => simp at h
  | cons position rest => exact ⟨position, rest, rfl, by rwa [target?_succ]⟩

namespace DepthFirst

variable {order : List Nat}

/-- A depth-first order holds the nodes that paths lead to. -/
theorem mem_iff (h : DepthFirst nodes names order) : j ∈ order ↔ Reachable nodes names j := by
  unfold Reachable
  induction h with
  | nil =>
    have hnone : ∀ path, target? nodes [] path = none := by
      rintro (_ | _) <;> rfl
    simp [hnone]
  | @cons i names below after hi down later ihDown ihLater =>
    simp only [List.mem_cons, List.mem_append, ihDown, ihLater]
    constructor
    · rintro (rfl | ⟨path, hpath⟩ | ⟨path, hpath⟩)
      · exact ⟨[0], by simp [target?_singleton]⟩
      · exact ⟨0 :: path, target?_below hpath⟩
      · obtain ⟨position, rest, rfl, hrest⟩ := target?_past (i := i) hpath
        exact ⟨_, hrest⟩
    · rintro ⟨path, hpath⟩
      rcases target?_cons_names_iff.1 hpath with ⟨-, rfl⟩ | ⟨down, -, hdown⟩ |
        ⟨position, rest, -, hrest⟩
      · exact .inl rfl
      · exact .inr (.inl ⟨down, hdown⟩)
      · exact .inr (.inr ⟨position :: rest, hrest⟩)

/-- Nothing stands twice in a depth-first order exactly where paths that lead to one node are one
path. -/
theorem nodup_iff (h : DepthFirst nodes names order) : order.Nodup ↔
    ∀ j path path', target? nodes names path = some j → target? nodes names path' = some j →
      path = path' := by
  induction h with
  | nil =>
    simp only [List.nodup_nil, true_iff]
    rintro j (_ | _) _ hpath
    · simp at hpath
    · simp [target?, trail?_cons] at hpath
  | @cons i names below after hi down later ihDown ihLater =>
    rw [List.nodup_cons, List.nodup_append, List.mem_append, ihDown, ihLater]
    constructor
    · rintro ⟨hnew, hbelow, hafter, hdisjoint⟩ j path path' hpath hpath'
      have memBelow {path} (h : target? nodes (childrenOf nodes i) path = some j) : j ∈ below :=
        down.mem_iff.2 ⟨path, h⟩
      have memAfter {path} (h : target? nodes names path = some j) : j ∈ after :=
        later.mem_iff.2 ⟨path, h⟩
      rcases target?_cons_names_iff.1 hpath with ⟨rfl, rfl⟩ | ⟨lower, rfl, hlower⟩ |
        ⟨position, rest, rfl, hrest⟩ <;>
        rcases target?_cons_names_iff.1 hpath' with ⟨rfl, hj⟩ | ⟨lower', rfl, hlower'⟩ |
          ⟨position', rest', rfl, hrest'⟩
      · rfl
      · exact absurd (.inl (memBelow hlower')) hnew
      · exact absurd (.inr (memAfter hrest')) hnew
      · exact absurd (.inl (hj ▸ memBelow hlower)) hnew
      · rw [hbelow j lower lower' hlower hlower']
      · exact absurd rfl (hdisjoint j (memBelow hlower) j (memAfter hrest'))
      · exact absurd (.inr (hj ▸ memAfter hrest)) hnew
      · exact absurd rfl (hdisjoint j (memBelow hlower') j (memAfter hrest))
      · simpa using hafter j _ _ hrest hrest'
    · intro hunique
      refine ⟨?_, ?_, ?_, ?_⟩
      · rintro (hmem | hmem)
        · obtain ⟨path, hpath⟩ := down.mem_iff.1 hmem
          have := hunique i [0] (0 :: path) (by simp [target?_singleton]) (target?_below hpath)
          simp [← List.cons.inj this |>.2] at hpath
        · obtain ⟨path, hpath⟩ := later.mem_iff.1 hmem
          obtain ⟨position, rest, -, hrest⟩ := target?_past (i := i) hpath
          simpa using hunique i [0] _ (by simp [target?_singleton]) hrest
      · intro j path path' hpath hpath'
        simpa using hunique j _ _ (target?_below hpath) (target?_below hpath')
      · intro j path path' hpath hpath'
        obtain ⟨position, rest, rfl, hrest⟩ := target?_past (i := i) hpath
        obtain ⟨position', rest', rfl, hrest'⟩ := target?_past (i := i) hpath'
        simpa using hunique j _ _ hrest hrest'
      · rintro j hbelow _ hafter rfl
        obtain ⟨path, hpath⟩ := down.mem_iff.1 hbelow
        obtain ⟨path', hpath'⟩ := later.mem_iff.1 hafter
        obtain ⟨position, rest, -, hrest⟩ := target?_past (i := i) hpath'
        simpa using hunique j _ _ (target?_below hpath) hrest

end DepthFirst

end Diorama.Graph

import Diorama.Graph.Order

/-! The walk over a forest, level by level, with the matrix of each node in the world. -/

namespace Diorama.Graph

variable {M σ : Type}

/-- A node on the walk: its index, its mesh, and its matrix in the world. -/
structure Visit (M : Type) where
  node : Nat
  mesh : Option Nat
  matrix : M

/-- A root keeps its matrix. -/
def visitRoot? (nodes : List (Node M)) (root : Nat) : Option (Visit M) :=
  nodes[root]?.map fun node => ⟨root, node.mesh, node.matrix⟩

/-- The visits to the roots. -/
def visitRoots (nodes : List (Node M)) (roots : List Nat) : List (Visit M) :=
  roots.filterMap (visitRoot? nodes)

/-- A child's matrix is its parent's times its own. -/
def visitChild? [Mul M] (nodes : List (Node M)) (parent : Visit M) (child : Nat) :
    Option (Visit M) :=
  nodes[child]?.map fun node => ⟨child, node.mesh, parent.matrix * node.matrix⟩

/-- The visits to the children of a visited node. -/
def visitChildren [Mul M] (nodes : List (Node M)) (visit : Visit M) : List (Visit M) :=
  (childrenOf nodes visit.node).filterMap (visitChild? nodes visit)

theorem map_node_visitRoots {nodes : List (Node M)} {names : List Nat}
    (h : ∀ i ∈ names, i < nodes.length) :
    (visitRoots nodes names).map (·.node) = names := by
  unfold visitRoots
  induction names with
  | nil => rfl
  | cons i names ih =>
    have hi := h i List.mem_cons_self
    simp [visitRoot?, hi, ih fun j hj => h j (List.mem_cons_of_mem _ hj)]

theorem map_node_visitChildren [Mul M] {nodes : List (Node M)} {visit : Visit M}
    (h : ∀ i ∈ childrenOf nodes visit.node, i < nodes.length) :
    (visitChildren nodes visit).map (·.node) = childrenOf nodes visit.node := by
  unfold visitChildren
  generalize childrenOf nodes visit.node = names at h
  induction names with
  | nil => rfl
  | cons i names ih =>
    have hi := h i List.mem_cons_self
    simp [visitChild?, hi, ih fun j hj => h j (List.mem_cons_of_mem _ hj)]

/-- All ways down from the names stay in range and end. -/
def Ends (nodes : List (Node M)) (names : List Nat) : Prop := ∃ order, DepthFirst nodes names order

namespace Ends

variable {nodes : List (Node M)}

/-- The number of nodes below the names. -/
noncomputable def size {names : List Nat} (h : Ends nodes names) : Nat := h.choose.length

theorem size_eq {names order : List Nat} (h : Ends nodes names) (horder : DepthFirst nodes names order) :
    h.size = order.length := by
  rw [size, h.choose_spec.unique horder]

variable [Mul M] {head : Visit M} {others : List (Visit M)}

/-- A visit takes one node out of what a queue still has before it. -/
theorem exists_next (h : Ends nodes ((head :: others).map (·.node))) : ∃ order,
    DepthFirst nodes ((others ++ visitChildren nodes head).map (·.node)) order ∧
      h.size = order.length + 1 := by
  obtain ⟨order, horder⟩ := id h
  rw [h.size_eq horder]
  rw [List.map_cons] at horder
  cases horder with
  | @cons _ _ below after hi down later =>
    refine ⟨after ++ below, ?_, by simp [Nat.add_comm]⟩
    rw [List.map_append, map_node_visitChildren down.lt_of_mem]
    exact later.append down

theorem next (h : Ends nodes ((head :: others).map (·.node))) :
    Ends nodes ((others ++ visitChildren nodes head).map (·.node)) := by
  obtain ⟨order, horder, -⟩ := h.exists_next
  exact ⟨order, horder⟩

theorem size_next_lt (h : Ends nodes ((head :: others).map (·.node))) : h.next.size < h.size := by
  obtain ⟨order, horder, hsize⟩ := h.exists_next
  rw [h.next.size_eq horder, hsize]
  exact Nat.lt_succ_self _

end Ends

/-- Visits the nodes of a queue from its front, and puts the children of each behind the others. -/
def drain [Mul M] (nodes : List (Node M)) (visit : Visit M → σ → σ) (queue : List (Visit M))
    (h : Ends nodes (queue.map (·.node))) (state : σ) : σ :=
  match queue with
  | [] => state
  | next :: others =>
    drain nodes visit (others ++ visitChildren nodes next) h.next (visit next state)
termination_by h.size
decreasing_by exact h.size_next_lt

section Drain

variable [Mul M] {nodes : List (Node M)} {visit : Visit M → σ → σ} {state : σ}

theorem drain_nil (h : Ends nodes (([] : List (Visit M)).map (·.node))) :
    drain nodes visit [] h state = state := by
  rw [drain]

theorem drain_cons {next : Visit M} {others : List (Visit M)}
    (h : Ends nodes ((next :: others).map (·.node))) : drain nodes visit (next :: others) h state =
      drain nodes visit (others ++ visitChildren nodes next) h.next (visit next state) := by
  rw [drain]

end Drain

theorem ends_of_check {nodes : List (Node M)} {roots : List Nat}
    (h : check nodes roots none = .ok ()) :
    Ends nodes ((visitRoots nodes roots).map (·.node)) := by
  obtain ⟨order, horder, -⟩ := check_eq_ok_iff.1 h
  exact ⟨order, (map_node_visitRoots horder.lt_of_mem).symm ▸ horder⟩

/-- Checks a graph and hands `visit` all nodes below the roots, level by level, each level in the
order of its parents.  A graph that fails the check is not walked over. -/
def traverse [Mul M] (nodes : List (Node M)) (roots : List Nat) (visit : Visit M → σ → σ)
    (state : σ) : Except GraphError Unit × σ :=
  match h : check nodes roots none with
  | .error e => (.error e, state)
  | .ok () => (.ok (), drain nodes visit (visitRoots nodes roots) (ends_of_check h) state)

/-- The visits to all nodes below the roots, in their order. -/
def walk [Mul M] (nodes : List (Node M)) (roots : List Nat) :
    Except GraphError (List (Visit M)) :=
  match traverse nodes roots (fun visit visits => visits.push visit) #[] with
  | (.error e, _) => .error e
  | (.ok (), visits) => .ok visits.toList

end Diorama.Graph

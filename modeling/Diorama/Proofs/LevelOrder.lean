import Diorama.Graph.Level

/-! The walk over a graph that passes the check visits each node below the roots once, level by
level, with the product of the matrices along the path to it. -/

namespace Diorama.Graph

variable {M σ : Type} {nodes : List (Node M)} {names order roots : List Nat}

namespace DepthFirst

/-- A depth-first order holds the names, and below them an order of their children. -/
theorem flatMap (h : DepthFirst nodes names order) : ∃ order', order.Perm (names ++ order') ∧
    DepthFirst nodes (names.flatMap (childrenOf nodes)) order' := by
  induction h with
  | nil => exact ⟨[], .refl _, .nil⟩
  | @cons i names below after hi down later _ ihLater =>
    obtain ⟨order', hperm, horder'⟩ := ihLater
    refine ⟨below ++ order', ?_, by simpa using down.append horder'⟩
    refine .cons i ((hperm.append_left below).trans ?_)
    show (below ++ (names ++ order')).Perm (names ++ (below ++ order'))
    rw [← List.append_assoc, ← List.append_assoc]
    exact List.perm_append_comm.append_right order'

/-- The levels below the names end, and together they hold what a depth-first order holds. -/
theorem exists_depth (h : DepthFirst nodes names order) :
    ∃ depth, generation (childrenOf nodes) names depth = [] ∧
      order.Perm (generations (childrenOf nodes) names depth) := by
  induction hn : order.length using Nat.strongRecOn generalizing names order with
  | _ n ih =>
    by_cases hnames : names = []
    · subst hnames
      exact ⟨0, rfl, by simp [nil_iff.1 h, generations]⟩
    · obtain ⟨order', hperm, horder'⟩ := h.flatMap
      have hlength := hperm.length_eq
      have hpos := List.length_pos_iff.2 hnames
      rw [List.length_append] at hlength
      obtain ⟨depth, hend, hperm'⟩ := ih order'.length (by omega) horder' rfl
      refine ⟨depth + 1, by rw [generation_succ, hend], ?_⟩
      rw [generations_succ]
      exact hperm.trans (hperm'.append_left names)

end DepthFirst

section Queue

variable [Mul M] {queue : List (Visit M)} {visit : Visit M → σ → σ}

theorem map_node_flatMap (h : ∀ i ∈ (queue.map (·.node)).flatMap (childrenOf nodes),
    i < nodes.length) : (queue.flatMap (visitChildren nodes)).map (·.node) =
      (queue.map (·.node)).flatMap (childrenOf nodes) := by
  induction queue with
  | nil => rfl
  | cons next queue ih =>
    rw [List.map_cons, List.flatMap_cons] at h
    rw [List.flatMap_cons, List.map_append, List.map_cons, List.flatMap_cons,
      map_node_visitChildren fun i hi => h i (List.mem_append_left _ hi),
      ih fun i hi => h i (List.mem_append_right _ hi)]

theorem ends_flatMap (h : Ends nodes (queue.map (·.node))) :
    Ends nodes ((queue.flatMap (visitChildren nodes)).map (·.node)) := by
  obtain ⟨order, horder⟩ := h
  obtain ⟨order', -, horder'⟩ := horder.flatMap
  exact ⟨order', (map_node_flatMap horder'.lt_of_mem).symm ▸ horder'⟩

/-- The nodes in a queue are visited before the children that they put behind it. -/
theorem drain_append (front back : List (Visit M)) (state : σ)
    (h : Ends nodes ((front ++ back).map (·.node)))
    (h' : Ends nodes ((back ++ front.flatMap (visitChildren nodes)).map (·.node))) :
    drain nodes visit (front ++ back) h state =
      drain nodes visit (back ++ front.flatMap (visitChildren nodes)) h'
        (front.foldl (fun state next => visit next state) state) := by
  induction front generalizing back state with
  | nil => simp
  | cons next front ih =>
    have hqueue : front ++ back ++ visitChildren nodes next =
      front ++ (back ++ visitChildren nodes next) := List.append_assoc _ _ _
    have hbehind : back ++ (next :: front).flatMap (visitChildren nodes) =
        back ++ visitChildren nodes next ++ front.flatMap (visitChildren nodes) := by
      rw [List.flatMap_cons, List.append_assoc]
    simp only [List.cons_append, drain_cons, hqueue, hbehind, List.foldl_cons]
    exact ih (back ++ visitChildren nodes next) (visit next state) _ _

theorem drain_eq_foldl {depth : Nat} {state : σ} (hends : Ends nodes (queue.map (·.node)))
    (h : generation (visitChildren nodes) queue depth = []) :
    drain nodes visit queue hends state = (generations (visitChildren nodes) queue depth).foldl
      (fun state next => visit next state) state := by
  induction depth generalizing queue state with
  | zero =>
    obtain rfl : queue = [] := h
    exact drain_nil hends
  | succ depth ih =>
    rw [generation_succ] at h
    have hqueue : drain nodes visit (queue ++ []) (by simpa using hends) state = _ :=
      drain_append queue [] state _ (by simpa using ends_flatMap hends)
    simp only [List.append_nil, List.nil_append] at hqueue
    rw [hqueue, ih (ends_flatMap hends) h, generations_succ, List.foldl_append]

/-- The nodes visited in generation `n` are the names in generation `n`. -/
theorem map_node_generation (h : DepthFirst nodes (queue.map (·.node)) order) (n : Nat) :
    (generation (visitChildren nodes) queue n).map (·.node) =
      generation (childrenOf nodes) (queue.map (·.node)) n := by
  induction n generalizing queue order with
  | zero => rfl
  | succ n ih =>
    obtain ⟨order', -, horder'⟩ := h.flatMap
    have hmap := map_node_flatMap horder'.lt_of_mem
    rw [generation_succ, generation_succ, ← hmap]
    exact ih (hmap ▸ horder')

end Queue

section Placed

variable [Mul M] {visit : Visit M}

/-- A visit hands over what belongs to its node: its own mesh, and the matrix along a path to it. -/
def Visit.Placed (nodes : List (Node M)) (roots : List Nat) (visit : Visit M) : Prop :=
  nodes[visit.node]?.map (·.mesh) = some visit.mesh ∧
    ∃ path, target? nodes roots path = some visit.node ∧ world? nodes roots path = some visit.matrix

theorem placed_root (h : visit ∈ visitRoots nodes roots) : visit.Placed nodes roots := by
  obtain ⟨i, hi, hvisit⟩ := List.mem_filterMap.1 h
  obtain ⟨node, hnode, rfl⟩ := Option.map_eq_some_iff.1 hvisit
  obtain ⟨position, hposition⟩ := List.mem_iff_getElem?.1 hi
  refine ⟨by simp [hnode], [position], by rw [target?_singleton, hposition], ?_⟩
  simp [world?, trail?, product?, hposition, hnode]

/-- A child of a placed node is placed: its path has one more step, and its matrix one more
factor. -/
theorem Visit.Placed.child (h : visit.Placed nodes roots) {child : Visit M}
    (hchild : child ∈ visitChildren nodes visit) : child.Placed nodes roots := by
  obtain ⟨-, path, htarget, hworld⟩ := h
  obtain ⟨trail, htrail, hlast⟩ := Option.bind_eq_some_iff.1 htarget
  rw [world?, htrail, Option.bind_some] at hworld
  obtain ⟨i, hi, hvisit⟩ := List.mem_filterMap.1 hchild
  obtain ⟨node, hnode, rfl⟩ := Option.map_eq_some_iff.1 hvisit
  obtain ⟨position, hposition⟩ := List.mem_iff_getElem?.1 hi
  have hpath := trail?_concat htrail hlast hposition
  have hne : trail ≠ [] := by
    rintro rfl
    simp at hlast
  refine ⟨by simp [hnode], path ++ [position], ?_, ?_⟩
  · rw [target?, hpath, Option.bind_some, List.getLast?_concat]
  · rw [world?, hpath, Option.bind_some, product?_concat hne, hworld]
    simp [hnode]

end Placed

theorem traverse_of_error [Mul M] {e : GraphError} (h : check nodes roots none = .error e)
    (visit : Visit M → σ → σ) (state : σ) :
    traverse nodes roots visit state = (.error e, state) := by
  unfold traverse
  split
  · simp_all
  · simp_all

theorem traverse_of_ok [Mul M] (h : check nodes roots none = .ok ()) (visit : Visit M → σ → σ)
    (state : σ) : traverse nodes roots visit state =
      (.ok (), drain nodes visit (visitRoots nodes roots) (ends_of_check h) state) := by
  unfold traverse
  split
  · simp_all
  · rfl

/-- A graph that fails the check is not visited at all.  On any other the walk visits the levels
below the roots one after the other, and so each reachable node once, and hands over with a node its
own mesh and the product of the matrices along the one path to it. -/
theorem walk_level_order [Mul M] (nodes : List (Node M)) (roots : List Nat) :
    match check nodes roots none with
    | .error e => walk nodes roots = .error e ∧
        ∀ (σ : Type) (visit : Visit M → σ → σ) (state : σ),
          traverse nodes roots visit state = (.error e, state)
    | .ok () => ∃ visits : List (Visit M), walk nodes roots = .ok visits ∧
        (∀ (σ : Type) (visit : Visit M → σ → σ) (state : σ), traverse nodes roots visit state =
          (.ok (), visits.foldl (fun state next => visit next state) state)) ∧
        (∃ depth, generation (childrenOf nodes) roots depth = [] ∧
          visits.map (·.node) = generations (childrenOf nodes) roots depth) ∧
        (visits.map (·.node)).Nodup ∧
        (∀ i, i ∈ visits.map (·.node) ↔ Reachable nodes roots i) ∧
        ∀ visit ∈ visits, nodes[visit.node]?.map (·.mesh) = some visit.mesh ∧
          ∃ path, (∀ other, target? nodes roots other = some visit.node ↔ other = path) ∧
            world? nodes roots path = some visit.matrix := by
  split
  next e h => exact ⟨by simp [walk, traverse_of_error h], fun σ => traverse_of_error h⟩
  next h =>
    obtain ⟨order, horder, hnodup, -⟩ := check_eq_ok_iff.1 h
    obtain ⟨depth, hend, hperm⟩ := horder.exists_depth
    have hroots := map_node_visitRoots horder.lt_of_mem
    have hlevels := map_node_generation (hroots.symm ▸ horder)
    rw [hroots] at hlevels
    have hempty : generation (visitChildren nodes) (visitRoots nodes roots) depth = [] :=
      List.map_eq_nil_iff.1 ((hlevels depth).trans hend)
    have hnodes : (generations (visitChildren nodes) (visitRoots nodes roots) depth).map (·.node) =
        generations (childrenOf nodes) roots depth := by
      simp only [generations, List.map_flatMap, hlevels]
    have hplaced : ∀ visit ∈ generations (visitChildren nodes) (visitRoots nodes roots) depth,
        visit.Placed nodes roots :=
      mem_generations_of_step (fun _ => placed_root) (fun _ h _ => h.child) depth
    have htraverse (σ : Type) (visit : Visit M → σ → σ) (state : σ) :
        traverse nodes roots visit state = (.ok (),
          (generations (visitChildren nodes) (visitRoots nodes roots) depth).foldl
            (fun state next => visit next state) state) := by
      rw [traverse_of_ok h, drain_eq_foldl _ hempty]
    refine ⟨_, ?_, htraverse, ⟨depth, hend, hnodes⟩, ?_, fun i => ?_, fun visit hvisit => ?_⟩
    · rw [walk, htraverse]
      simp
    · rw [hnodes]
      exact hperm.nodup hnodup
    · rw [hnodes, ← hperm.mem_iff]
      exact horder.mem_iff
    · obtain ⟨hmesh, path, hpath, hworld⟩ := hplaced visit hvisit
      refine ⟨hmesh, path, fun other => ⟨fun hother => ?_, fun hother => hother ▸ hpath⟩, hworld⟩
      exact horder.nodup_iff.1 hnodup visit.node other path hother hpath

end Diorama.Graph

import Diorama.Proofs.Catalogue
import Diorama.Proofs.Diagnosis
import Mathlib.Data.Fintype.EquivFin
import Mathlib.Data.List.Perm.Subperm
import Mathlib.Logic.Relation
import Mathlib.Order.WellFounded

/-! The walk over a document without scenes.  It starts at the nodes that no node lists as a child,
and there is such a node above each one that is neither on a cycle nor below one: to go up from
parent to parent has an end, because no node comes twice. -/

namespace Diorama

namespace Graph

variable {M : Type} {nodes : List (Node M)} {roots names order path : List Nat} {i j : Nat}

/-- Node `i` lists `j` as a child. -/
def Parent (nodes : List (Node M)) (i j : Nat) : Prop := j ∈ childrenOf nodes i

/-- Node `j` is a child of `i`, or a child of a child, and so on. -/
def Below (nodes : List (Node M)) : Nat → Nat → Prop := Relation.TransGen (Parent nodes)

def OnCycle (nodes : List (Node M)) (i : Nat) : Prop := Below nodes i i

theorem Parent.lt (h : Parent nodes i j) : i < nodes.length := by
  apply Nat.lt_of_not_le
  intro hle
  simp [Parent, childrenOf, hle] at h

/-- What lies below a node has a longer path than the node. -/
theorem exists_longer (hpath : target? nodes names path = some i) (h : Below nodes i j) :
    ∃ path', path.length < path'.length ∧ target? nodes names path' = some j := by
  induction h with
  | single hchild =>
    obtain ⟨position, hposition⟩ := List.mem_iff_getElem?.1 hchild
    exact ⟨path ++ [position], by simp, target?_concat hpath hposition⟩
  | tail _ hchild ih =>
    obtain ⟨path', hlength, hpath'⟩ := ih
    obtain ⟨position, hposition⟩ := List.mem_iff_getElem?.1 hchild
    refine ⟨path' ++ [position], ?_, target?_concat hpath' hposition⟩
    rw [List.length_append]
    omega

theorem reachable_of_root (hi : i ∈ roots) : Reachable nodes roots i := by
  obtain ⟨position, hposition⟩ := List.mem_iff_getElem?.1 hi
  exact ⟨[position], by rw [target?_singleton, hposition]⟩

theorem Reachable.below (hi : Reachable nodes roots i) (h : Below nodes i j) :
    Reachable nodes roots j := by
  obtain ⟨path, hpath⟩ := hi
  obtain ⟨path', -, hpath'⟩ := exists_longer hpath h
  exact ⟨path', hpath'⟩

theorem DepthFirst.order_lt (h : DepthFirst nodes roots order) : ∀ i ∈ order, i < nodes.length := by
  induction h with
  | nil => simp
  | cons hi _ _ ihDown ihLater =>
    rw [List.forall_mem_cons, List.forall_mem_append]
    exact ⟨hi, ihDown, ihLater⟩

/-- There is one path to each node below the roots of a graph that passes the check, and none of
them comes back to its node. -/
theorem DepthFirst.not_onCycle (h : DepthFirst nodes roots order) (hnodup : order.Nodup)
    (hi : Reachable nodes roots i) : ¬OnCycle nodes i := by
  intro hcycle
  obtain ⟨path, hpath⟩ := hi
  obtain ⟨path', hlength, hpath'⟩ := exists_longer hpath hcycle
  obtain rfl := h.nodup_iff.1 hnodup i path path' hpath hpath'
  omega

/-- Neither on a cycle nor below one. -/
def Apart (nodes : List (Node M)) (i : Nat) : Prop :=
  ¬OnCycle nodes i ∧ ∀ j, OnCycle nodes j → ¬Below nodes j i

theorem Apart.parent (h : Apart nodes j) (hij : Parent nodes i j) : Apart nodes i :=
  ⟨fun hcycle => h.2 i hcycle (.single hij), fun k hcycle hk => h.2 k hcycle (hk.tail hij)⟩

/-- A way up from a node that is apart from all cycles comes to no node twice, so what parents hand
on to their children holds of the node. -/
theorem Apart.induct {P : Nat → Prop} (hstep : ∀ j, (∀ i, Parent nodes i j → P i) → P j)
    (h : Apart nodes i) : P i := by
  have hwf : WellFounded fun a b : {a : Fin nodes.length // ¬OnCycle nodes a} =>
      Below nodes a.1 b.1 := by
    have : IsTrans {a : Fin nodes.length // ¬OnCycle nodes a} fun a b => Below nodes a.1 b.1 :=
      ⟨fun _ _ _ hab hbc => hab.trans hbc⟩
    have : Std.Irrefl fun a b : {a : Fin nodes.length // ¬OnCycle nodes a} =>
        Below nodes a.1 b.1 := ⟨fun a => a.2⟩
    exact Finite.wellFounded_of_trans_of_irrefl _
  have hparents : ∀ a : {a : Fin nodes.length // ¬OnCycle nodes a}, Apart nodes a.1 → P a.1 := by
    intro a
    induction a using hwf.induction with
    | _ a ih =>
      intro ha
      apply hstep
      intro i hi
      have hapart := ha.parent hi
      exact ih ⟨⟨i, hi.lt⟩, hapart.1⟩ (.single hi) hapart
  apply hstep
  intro j hj
  have hapart := h.parent hj
  exact hparents ⟨⟨j, hj.lt⟩, hapart.1⟩ hapart

/-- A walk visits an order of the nodes below the roots. -/
theorem exists_order_of_walk [Mul M] {visits : List (Visit M)} (h : walk nodes roots = .ok visits) :
    ∃ order, DepthFirst nodes roots order ∧ order.Nodup ∧ order.Perm (visits.map (·.node)) := by
  cases hcheck : check nodes roots none with
  | error e =>
    rw [walk, traverse_of_error hcheck] at h
    cases h
  | ok =>
    obtain ⟨order, horder, hnodup, -⟩ := check_eq_ok_iff.1 hcheck
    obtain ⟨depth, hend, hperm⟩ := horder.exists_depth
    have hroots := map_node_visitRoots horder.lt_of_mem
    have hlevels := map_node_generation (hroots.symm ▸ horder)
    rw [hroots] at hlevels
    have hempty : generation (visitChildren nodes) (visitRoots nodes roots) depth = [] :=
      List.map_eq_nil_iff.1 ((hlevels depth).trans hend)
    have hvisits : generations (visitChildren nodes) (visitRoots nodes roots) depth = visits := by
      rw [walk, traverse_of_ok hcheck, drain_eq_foldl _ hempty] at h
      simpa using h
    refine ⟨order, horder, hnodup, ?_⟩
    rw [← hvisits]
    simpa only [generations, List.map_flatMap, hlevels] using hperm

end Graph

namespace SceneData

open Diorama.Graph

variable {scene : SceneData} {nodes : List (Node Mat4)} {i : Nat}

theorem mem_orphans_iff : i ∈ orphans nodes ↔ i < nodes.length ∧ ∀ j, ¬Parent nodes j i := by
  rw [orphans, List.mem_filter, List.mem_range, List.all_eq_true]
  refine and_congr_right fun _ => ⟨?_, ?_⟩
  · intro hall j hj
    have hlt := hj.lt
    rw [Parent, childrenOf_eq hlt] at hj
    simpa [hj] using hall nodes[j] (List.getElem_mem hlt)
  · intro hnone node hnode
    obtain ⟨j, hj, rfl⟩ := List.getElem_of_mem hnode
    have := hnone j
    rw [Parent, childrenOf_eq hj] at this
    simpa using this

theorem roots_sceneless (hscenes : scene.document.scenes = []) :
    scene.roots none = orphans scene.graph := by
  simp [roots, hscenes]

theorem reachable_of_apart (hi : i < nodes.length) (h : Apart nodes i) :
    Reachable nodes (orphans nodes) i := by
  revert hi
  refine h.induct (P := fun i => i < nodes.length → Reachable nodes (orphans nodes) i) ?_
  intro j hparents hj
  by_cases horphan : j ∈ orphans nodes
  · exact reachable_of_root horphan
  · rw [mem_orphans_iff, not_and, not_forall] at horphan
    obtain ⟨i, hi⟩ := horphan hj
    rw [not_not] at hi
    exact (hparents i hi hi.lt).below (.single hi)

/-- The walk over a document without scenes visits each node once that is neither on a cycle of
children nor below one, and no node on a cycle.  Where there are no cycles, it visits every node. -/
theorem walk_sceneless (hscenes : scene.document.scenes = []) {visits : List (Visit Mat4)}
    (h : scene.walk none = .ok visits) :
    (∀ i < scene.document.nodes.length, Apart scene.graph i →
        (visits.map (·.node)).count i = 1) ∧
      (∀ visit ∈ visits, ¬OnCycle scene.graph visit.node) ∧
        ((∀ i, ¬OnCycle scene.graph i) →
          (visits.map (·.node)).Perm (List.range scene.document.nodes.length)) := by
  have hlength : scene.graph.length = scene.document.nodes.length := List.length_map _
  obtain ⟨_, -, hwalk⟩ := bind_eq_ok_iff.1 h
  rw [roots_sceneless hscenes] at hwalk
  obtain ⟨order, horder, hnodup, hperm⟩ := exists_order_of_walk hwalk
  have hmem (i : Nat) : i ∈ visits.map (·.node) ↔ Reachable scene.graph (orphans scene.graph) i := by
    rw [← hperm.mem_iff, horder.mem_iff]
  have hapart : ∀ i < scene.document.nodes.length, Apart scene.graph i →
      i ∈ visits.map (·.node) := by
    intro i hi hi'
    exact (hmem i).2 (reachable_of_apart (hlength ▸ hi) hi')
  refine ⟨?_, ?_, ?_⟩
  · intro i hi hi'
    exact List.count_eq_one_of_mem (hperm.nodup hnodup) (hapart i hi hi')
  · intro visit hvisit
    exact horder.not_onCycle hnodup ((hmem visit.node).1 (List.mem_map_of_mem hvisit))
  · intro hcycles
    apply (List.perm_ext_iff_of_nodup (hperm.nodup hnodup) List.nodup_range).2
    intro i
    rw [List.mem_range]
    constructor
    · intro hi
      rw [hmem, ← horder.mem_iff] at hi
      exact hlength ▸ horder.order_lt i hi
    · intro hi
      exact hapart i hi ⟨hcycles i, fun j hj => absurd hj (hcycles j)⟩

/-- Nodes 1, 2 and 3 are on a cycle, and node 4 is a child of node 2 as well as of node 0. -/
def besideCycle : SceneData :=
  ⟨⟨none, [], [[4], [3], [1, 4], [2], []].map fun children =>
    ⟨none, none, none, none, none, none, children⟩, [], [], [], [], [], [], []⟩, []⟩

theorem walk_sceneless_beside_cycle : besideCycle.document.scenes = [] ∧
    ∃ visits, besideCycle.walk none = .ok visits ∧ (visits.map (·.node)).count 0 = 1 ∧
      ∀ visit ∈ visits, visit.node ≠ 1 := by
  have hroots : besideCycle.roots none = [0] := by cbv
  have hcheck (meshes : Option Nat) : check besideCycle.graph [0] meshes = .ok () := by
    cases meshes <;> cbv
  obtain ⟨visits, hvisits⟩ : ∃ visits, besideCycle.walk none = .ok visits := by
    rw [SceneData.walk, hroots, hcheck, Graph.walk, traverse_of_ok (hcheck none)]
    exact ⟨_, rfl⟩
  obtain ⟨hapart, hcycle, -⟩ := walk_sceneless rfl hvisits
  refine ⟨rfl, visits, hvisits, hapart 0 (by decide) ?_, ?_⟩
  · have hnone (i : Nat) : ¬Below besideCycle.graph i 0 := by
      intro h
      obtain ⟨j, -, hj⟩ := Relation.TransGen.tail'_iff.1 h
      have horphan : 0 ∈ orphans besideCycle.graph := by decide
      exact (mem_orphans_iff.1 horphan).2 j hj
    exact ⟨hnone 0, fun i _ => hnone i⟩
  · rintro visit hvisit hnode
    apply hcycle visit hvisit
    rw [hnode]
    have h13 : Parent besideCycle.graph 1 3 := List.mem_cons_self
    have h32 : Parent besideCycle.graph 3 2 := List.mem_cons_self
    have h21 : Parent besideCycle.graph 2 1 := List.mem_cons_self
    exact ((Relation.TransGen.single h13).tail h32).tail h21

end SceneData

end Diorama

import Diorama.Graph.Basic

/-! The check that the nodes below some roots form a forest: every index is in range, and no node
is met twice.  The search goes depth first.  It keeps the nodes that it has met, and a stack of the
nodes on the path to where it stands, each with the children that are still to be tried. -/

namespace Diorama.Graph

variable {M : Type}

/-- Whether the node's mesh is one of the meshes, where their number is given. -/
def checkMesh (meshes : Option Nat) (index : Nat) (node : Node M) : Except GraphError Unit :=
  match node.mesh, meshes with
  | some mesh, some count =>
    if count ≤ mesh then .error (.danglingMesh index mesh count) else .ok ()
  | _, _ => .ok ()

/-- The indices below `n` that are not in `met`. -/
def unmet (n : Nat) (met : List Nat) : Nat := ((List.range n).filter (· ∉ met)).length

/-- The children that wait on a stack, and the nodes that they wait for. -/
def weight (stack : List (Nat × List Nat)) : Nat := stack.foldr (fun f n => f.2.length + 1 + n) 0

theorem length_filter_lt_of_imp {p q : Nat → Bool} {l : List Nat} {x : Nat} (hx : x ∈ l)
    (hq : q x = true) (hp : p x = false) (h : ∀ y ∈ l, p y = true → q y = true) :
    (l.filter p).length < (l.filter q).length := by
  induction l with
  | nil => simp at hx
  | cons y l ih =>
    have hl : (l.filter p).length ≤ (l.filter q).length := by
      have := List.countP_mono_left (l := l) (p := p) (q := q)
        fun z hz => h z (List.mem_cons_of_mem _ hz)
      simpa [List.countP_eq_length_filter] using this
    rcases List.mem_cons.1 hx with rfl | hx
    · simp [hq, hp]
      omega
    · have := ih hx fun z hz => h z (List.mem_cons_of_mem _ hz)
      have hy := h y List.mem_cons_self
      cases hpy : p y
      · cases hqy : q y <;> simp [hpy, hqy] <;> omega
      · simp [hpy, hy hpy, this]

theorem unmet_cons_lt {n i : Nat} {met : List Nat} (hi : i < n) (hm : i ∉ met) :
    unmet n (i :: met) < unmet n met :=
  length_filter_lt_of_imp (List.mem_range.2 hi) (by simpa using hm) (by simp) (by simp)

/-- Searches on from a stack, and returns the nodes met at its end. -/
def search (nodes : List (Node M)) (meshes : Option Nat) (met : List Nat)
    (stack : List (Nat × List Nat)) : Except GraphError (List Nat) :=
  match stack with
  | [] => .ok met
  | (_, []) :: path => search nodes meshes met path
  | (parent, child :: others) :: path =>
    if h : child < nodes.length then
      if child = parent ∨ child ∈ path.map (·.1) then .error (.cycle child)
      else if child ∈ met then .error (.sharedNode child)
      else
        match checkMesh meshes child nodes[child] with
        | .error e => .error e
        | .ok () =>
          search nodes meshes (child :: met)
            ((child, nodes[child].children) :: (parent, others) :: path)
    else .error (.danglingChild parent child nodes.length)
termination_by (unmet nodes.length met, weight stack)
decreasing_by
  · exact Prod.Lex.right _ (by simp [weight])
  · exact Prod.Lex.left _ _ (unmet_cons_lt h ‹_›)

/-- Searches below each root in turn, and returns the nodes met. -/
def searchRoots (nodes : List (Node M)) (meshes : Option Nat) (met : List Nat) :
    List Nat → Except GraphError (List Nat)
  | [] => .ok met
  | root :: more =>
    if h : root < nodes.length then
      if root ∈ met then .error (.sharedNode root)
      else do
        checkMesh meshes root nodes[root]
        let met ← search nodes meshes (root :: met) [(root, nodes[root].children)]
        searchRoots nodes meshes met more
    else .error (.danglingRoot root nodes.length)

/-- Checks that the nodes below `roots` form a forest, and that they show meshes below `meshes`
where a number is given. -/
def check (nodes : List (Node M)) (roots : List Nat) (meshes : Option Nat) :
    Except GraphError Unit :=
  (searchRoots nodes meshes [] roots).map fun _ => ()

end Diorama.Graph

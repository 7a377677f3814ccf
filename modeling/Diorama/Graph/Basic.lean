/-! Scene graphs: a flat list of nodes that name each other by index. -/

namespace Diorama.Graph

/-- A node: its matrix relative to its parent, the mesh that it shows, and its children.  Matrices
may be of any type. -/
structure Node (M : Type) where
  matrix : M
  mesh : Option Nat
  children : List Nat

/-- The children of the node with an index.  An index past the end names no node and has none. -/
def childrenOf {M : Type} (nodes : List (Node M)) (i : Nat) : List Nat :=
  (nodes[i]?.map (·.children)).getD []

theorem childrenOf_eq {M : Type} {nodes : List (Node M)} {i : Nat} (h : i < nodes.length) :
    childrenOf nodes i = nodes[i].children := by
  simp [childrenOf, h]

end Diorama.Graph

namespace Diorama

/-- Why a graph is no forest. -/
inductive GraphError where
  | danglingRoot (root nodes : Nat)
  | danglingChild (node child nodes : Nat)
  | danglingMesh (node mesh meshes : Nat)
  | cycle (node : Nat)
  | sharedNode (node : Nat)
deriving DecidableEq, Repr

def GraphError.message : GraphError → String
  | danglingRoot root nodes => s!"root index {root} is out of range for {nodes} nodes"
  | danglingChild node child nodes =>
    s!"node {node} lists child {child}, but there are only {nodes} nodes"
  | danglingMesh node mesh meshes =>
    s!"node {node} references mesh {mesh}, but there are only {meshes} meshes"
  | cycle node => s!"node {node} is its own ancestor"
  | sharedNode node => s!"node {node} is reachable along more than one path"

end Diorama

import Diorama.Graph.Path
import Diorama.Graph.Walk

/-! The levels of a graph below some names, and the matrix that a node gets along a path. -/

namespace Diorama.Graph

variable {M : Type}

/-- What comes `n` steps after `start`, where `f` gives what comes after one thing. -/
def generation {α : Type} (f : α → List α) (start : List α) : Nat → List α
  | 0 => start
  | n + 1 => (generation f start n).flatMap f

/-- The first `n` generations, one after the other. -/
def generations {α : Type} (f : α → List α) (start : List α) (n : Nat) : List α :=
  (List.range n).flatMap (generation f start)

section Generations

variable {α β : Type} {f : α → List α} {start : List α}

theorem generation_succ (n : Nat) :
    generation f start (n + 1) = generation f (start.flatMap f) n := by
  induction n with
  | zero => rfl
  | succ n ih => rw [generation, ih, generation]

theorem generations_succ (n : Nat) :
    generations f start (n + 1) = start ++ generations f (start.flatMap f) n := by
  rw [generations, List.range_succ_eq_map, List.flatMap_cons, List.flatMap_map]
  simp only [generation_succ]
  rfl

theorem mem_generations_of_step {p : α → Prop} (hstart : ∀ a ∈ start, p a)
    (hstep : ∀ a, p a → ∀ b ∈ f a, p b) (n : Nat) : ∀ a ∈ generations f start n, p a := by
  have hgeneration (k : Nat) : ∀ a ∈ generation f start k, p a := by
    induction k with
    | zero => exact hstart
    | succ k ih =>
      intro b hb
      obtain ⟨a, ha, hb⟩ := List.mem_flatMap.1 hb
      exact hstep a (ih a ha) b hb
  intro a ha
  obtain ⟨k, -, hk⟩ := List.mem_flatMap.1 ha
  exact hgeneration k a hk

end Generations

/-- The matrices along a trail multiplied from the left, one step at a time. -/
def product? [Mul M] (nodes : List (Node M)) : (trail : List Nat) → Option M
  | [] => none
  | i :: trail => do
    let node ← nodes[i]?
    trail.foldlM (fun matrix j => nodes[j]?.map (matrix * ·.matrix)) node.matrix

/-- The matrix in the world of the node that a path leads to. -/
def world? [Mul M] (nodes : List (Node M)) (roots path : List Nat) : Option M :=
  (trail? nodes roots path).bind (product? nodes)

variable {nodes : List (Node M)}

theorem trail?_concat {names path trail : List Nat} {position i child : Nat}
    (h : trail? nodes names path = some trail) (hi : trail.getLast? = some i)
    (hchild : (childrenOf nodes i)[position]? = some child) :
    trail? nodes names (path ++ [position]) = some (trail ++ [child]) := by
  induction path generalizing names trail with
  | nil => simp_all [trail?]
  | cons first path ih =>
    simp only [trail?_cons, Option.bind_eq_some_iff, Option.map_eq_some_iff] at h
    obtain ⟨j, hj, rest, hrest, rfl⟩ := h
    have hlength := length_of_trail? hrest
    rw [List.cons_append, trail?_cons, hj, Option.bind_some]
    cases rest with
    | nil =>
      obtain rfl : path = [] := List.length_eq_zero_iff.1 hlength.symm
      obtain rfl : j = i := by simpa using hi
      simp [trail?, hchild]
    | cons k rest =>
      rw [List.getLast?_cons_cons] at hi
      rw [ih hrest hi, Option.map_some, List.cons_append, List.cons_append, List.cons_append]

theorem product?_concat [Mul M] {trail : List Nat} {i : Nat} (h : trail ≠ []) :
    product? nodes (trail ++ [i]) =
      (product? nodes trail).bind fun matrix => nodes[i]?.map (matrix * ·.matrix) := by
  cases trail with
  | nil => exact absurd rfl h
  | cons j trail => simp [product?, List.foldlM_append, Option.bind_assoc]

end Diorama.Graph

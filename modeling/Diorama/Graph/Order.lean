import Diorama.Graph.Check
import Diorama.Outcome

/-! The depth-first order of the nodes below some names.  The search succeeds exactly where there is
such an order, no node stands in it twice, and no node in it shows a mesh out of range; what it has
met is then the order backwards. -/

namespace Diorama.Graph

variable {M : Type} {nodes : List (Node M)} {meshes : Option Nat}

/-- `order` lists the nodes below `names`, each of them before the nodes below it and as often as
there are ways down to it.  No list does where a way down leaves the range or has no end. -/
inductive DepthFirst (nodes : List (Node M)) : List Nat → List Nat → Prop
  | nil : DepthFirst nodes [] []
  | cons {i : Nat} {names below after : List Nat} (h : i < nodes.length)
      (down : DepthFirst nodes (childrenOf nodes i) below) (later : DepthFirst nodes names after) :
      DepthFirst nodes (i :: names) (i :: (below ++ after))

namespace DepthFirst

variable {names more order : List Nat}

theorem append {order' : List Nat} (h : DepthFirst nodes names order)
    (h' : DepthFirst nodes more order') : DepthFirst nodes (names ++ more) (order ++ order') := by
  induction h with
  | nil => exact h'
  | cons hi down _ _ ih =>
    rw [List.cons_append, List.cons_append, List.append_assoc]
    exact .cons hi down ih

theorem of_append (h : DepthFirst nodes (names ++ more) order) :
    ∃ first rest, order = first ++ rest ∧ DepthFirst nodes names first ∧
      DepthFirst nodes more rest := by
  induction names generalizing order with
  | nil => exact ⟨[], order, rfl, .nil, h⟩
  | cons i names ih =>
    cases h with
    | cons hi down later =>
      obtain ⟨first, rest, rfl, h1, h2⟩ := ih later
      exact ⟨_, rest, by simp, .cons hi down h1, h2⟩

theorem lt_of_mem (h : DepthFirst nodes names order) : ∀ i ∈ names, i < nodes.length := by
  induction h with
  | nil => simp
  | cons hi _ _ _ ih => simpa [hi] using ih

theorem child_lt_of_mem (h : DepthFirst nodes names order) :
    ∀ i ∈ order, ∀ child ∈ childrenOf nodes i, child < nodes.length := by
  induction h with
  | nil => simp
  | cons hi down later ihDown ihLater =>
    intro j hj
    rcases List.mem_cons.1 hj with rfl | hj
    · exact down.lt_of_mem
    · rcases List.mem_append.1 hj with hj | hj
      · exact ihDown j hj
      · exact ihLater j hj

theorem unique {order' : List Nat} (h : DepthFirst nodes names order)
    (h' : DepthFirst nodes names order') : order = order' := by
  induction h generalizing order' with
  | nil =>
    cases h'
    rfl
  | cons _ _ _ ihDown ihLater =>
    cases h' with
    | cons _ down later => rw [ihDown down, ihLater later]

theorem nil_iff : DepthFirst nodes [] order ↔ order = [] := by
  constructor
  · rintro (_ | _)
    rfl
  · rintro rfl
    exact .nil

/-- Taking the first name away takes its node away, and puts its children in front. -/
theorem cons_iff {i : Nat} : DepthFirst nodes (i :: names) order ↔
    i < nodes.length ∧ ∃ order', order = i :: order' ∧
      DepthFirst nodes (childrenOf nodes i ++ names) order' := by
  constructor
  · rintro (_ | ⟨hi, down, later⟩)
    exact ⟨hi, _, rfl, down.append later⟩
  · rintro ⟨hi, order', rfl, h⟩
    obtain ⟨below, after, rfl, down, later⟩ := h.of_append
    exact .cons hi down later

end DepthFirst

/-- Whether a node shows a mesh in range, where it shows one and their number is given. -/
def MeshInRange (nodes : List (Node M)) (meshes : Option Nat) (i : Nat) : Prop :=
  ∀ mesh count, nodes[i]?.bind (·.mesh) = some mesh → meshes = some count → mesh < count

theorem checkMesh_eq_ok_iff {i : Nat} (h : i < nodes.length) :
    checkMesh meshes i nodes[i] = .ok () ↔ MeshInRange nodes meshes i := by
  simp only [MeshInRange, List.getElem?_eq_getElem h, Option.bind_some, checkMesh]
  cases nodes[i].mesh <;> cases meshes <;> simp

/-- The order of a search that has met `met`: every node in it is new, and none shows a mesh out of
range. -/
structure Fresh (nodes : List (Node M)) (meshes : Option Nat) (met order : List Nat) : Prop where
  nodup : order.Nodup
  new : ∀ i ∈ order, i ∉ met
  mesh : ∀ i ∈ order, MeshInRange nodes meshes i

theorem fresh_nil {met : List Nat} : Fresh nodes meshes met [] :=
  ⟨List.nodup_nil, by simp, by simp⟩

theorem fresh_cons_iff {met order : List Nat} {i : Nat} :
    Fresh nodes meshes met (i :: order) ↔
      i ∉ met ∧ MeshInRange nodes meshes i ∧ Fresh nodes meshes (i :: met) order := by
  constructor
  · rintro ⟨hnodup, hnew, hmesh⟩
    rw [List.nodup_cons] at hnodup
    refine ⟨hnew i (by simp), hmesh i (by simp), hnodup.2, fun j hj => ?_, fun j hj =>
      hmesh j (by simp [hj])⟩
    rintro (_ | ⟨_, hmet⟩)
    · exact hnodup.1 hj
    · exact hnew j (by simp [hj]) hmet
  · rintro ⟨hmet, hmesh, hfresh⟩
    refine ⟨List.nodup_cons.2 ⟨fun hi => hfresh.new i hi (by simp), hfresh.nodup⟩, ?_, ?_⟩
    · rintro j (_ | ⟨_, hj⟩)
      · exact hmet
      · exact fun h => hfresh.new j hj (by simp [h])
    · rintro j (_ | ⟨_, hj⟩)
      · exact hmesh
      · exact hfresh.mesh j hj

theorem fresh_append_iff {met first rest : List Nat} :
    Fresh nodes meshes met (first ++ rest) ↔
      Fresh nodes meshes met first ∧ Fresh nodes meshes (first.reverse ++ met) rest := by
  induction first generalizing met with
  | nil => simp [fresh_nil]
  | cons i first ih =>
    rw [List.cons_append, fresh_cons_iff, fresh_cons_iff, ih]
    simp [and_assoc]

/-- A search for what is below `names` that has met `met` can end with `met'`: there is a depth-first
order, and its nodes are the ones that came to `met`. -/
def Explored (nodes : List (Node M)) (meshes : Option Nat) (met names met' : List Nat) : Prop :=
  ∃ order, DepthFirst nodes names order ∧ Fresh nodes meshes met order ∧
    met' = order.reverse ++ met

theorem explored_nil_iff {met met' : List Nat} : Explored nodes meshes met [] met' ↔ met' = met := by
  simp [Explored, DepthFirst.nil_iff, fresh_nil]

/-- To go below one more name is to meet its node and to go below its children first. -/
theorem explored_cons_iff {met names met' : List Nat} {i : Nat} :
    Explored nodes meshes met (i :: names) met' ↔
      i < nodes.length ∧ i ∉ met ∧ MeshInRange nodes meshes i ∧
        Explored nodes meshes (i :: met) (childrenOf nodes i ++ names) met' := by
  constructor
  · rintro ⟨order, horder, hfresh, rfl⟩
    obtain ⟨hi, below, rfl, hbelow⟩ := DepthFirst.cons_iff.1 horder
    obtain ⟨hmet, hmesh, hfresh⟩ := fresh_cons_iff.1 hfresh
    exact ⟨hi, hmet, hmesh, below, hbelow, hfresh, by simp⟩
  · rintro ⟨hi, hmet, hmesh, order, horder, hfresh, rfl⟩
    exact ⟨i :: order, DepthFirst.cons_iff.2 ⟨hi, order, rfl, horder⟩,
      fresh_cons_iff.2 ⟨hmet, hmesh, hfresh⟩, by simp⟩

theorem explored_append_iff {met names more met' : List Nat} :
    Explored nodes meshes met (names ++ more) met' ↔
      ∃ between, Explored nodes meshes met names between ∧
        Explored nodes meshes between more met' := by
  constructor
  · rintro ⟨order, horder, hfresh, rfl⟩
    obtain ⟨first, rest, rfl, h1, h2⟩ := horder.of_append
    rw [fresh_append_iff] at hfresh
    exact ⟨_, ⟨first, h1, hfresh.1, rfl⟩, rest, h2, hfresh.2, by simp⟩
  · rintro ⟨_, ⟨first, h1, hfirst, rfl⟩, rest, h2, hrest, rfl⟩
    exact ⟨first ++ rest, h1.append h2, fresh_append_iff.2 ⟨hfirst, hrest⟩, by simp⟩

/-- A search from a stack goes below the children that wait on the stack, from its top down.  The
nodes of the stack have been met, so a child on the path is refused like any other that was met. -/
theorem search_eq_ok_iff {met met' : List Nat} {stack : List (Nat × List Nat)}
    (hpath : ∀ f ∈ stack, f.1 ∈ met) :
    search nodes meshes met stack = .ok met' ↔
      Explored nodes meshes met (stack.flatMap (·.2)) met' := by
  fun_induction search nodes meshes met stack with
  | case1 met => simp [explored_nil_iff, eq_comm]
  | case2 met _ path ih => simpa using ih fun f hf => hpath f (by simp [hf])
  | case3 met parent child others path h hcycle =>
    have hmet : child ∈ met := by
      rcases hcycle with rfl | hcycle
      · exact hpath _ List.mem_cons_self
      · obtain ⟨f, hf, rfl⟩ := List.mem_map.1 hcycle
        exact hpath f (List.mem_cons_of_mem _ hf)
    simp [explored_cons_iff, hmet]
  | case4 met parent child others path h _ hmet => simp [explored_cons_iff, hmet]
  | case5 met parent child others path h _ hmet e he =>
    have hmesh : ¬MeshInRange nodes meshes child := by
      rw [← checkMesh_eq_ok_iff h, he]
      simp
    simp [explored_cons_iff, hmesh]
  | case6 met parent child others path h _ hmet hok ih =>
    have hmesh := (checkMesh_eq_ok_iff h).1 hok
    have hpath' : ∀ f ∈ (child, nodes[child].children) :: (parent, others) :: path,
        f.1 ∈ child :: met := by
      rintro f (_ | ⟨_, _ | ⟨_, hf⟩⟩)
      · exact List.mem_cons_self
      · exact List.mem_cons_of_mem _ (hpath (parent, child :: others) List.mem_cons_self)
      · exact List.mem_cons_of_mem _ (hpath f (List.mem_cons_of_mem _ hf))
    rw [ih hpath']
    simp [explored_cons_iff, hmesh, hmet, h, childrenOf_eq h]
  | case7 met parent child others path h => simp [explored_cons_iff, h]

theorem searchRoots_eq_ok_iff {met met' roots : List Nat} :
    searchRoots nodes meshes met roots = .ok met' ↔ Explored nodes meshes met roots met' := by
  induction roots generalizing met with
  | nil => simp [searchRoots, explored_nil_iff, eq_comm]
  | cons root more ih =>
    rw [searchRoots, explored_cons_iff]
    by_cases h : root < nodes.length
    case neg => simp [h]
    by_cases hmet : root ∈ met
    case pos => simp [h, hmet]
    have hbelow (between : List Nat) :
        search nodes meshes (root :: met) [(root, nodes[root].children)] = .ok between ↔
          Explored nodes meshes (root :: met) (childrenOf nodes root) between := by
      rw [search_eq_ok_iff (by simp), childrenOf_eq h]
      simp
    have hmesh (done : Unit) : checkMesh meshes root nodes[root] = .ok done ↔
        MeshInRange nodes meshes root := checkMesh_eq_ok_iff h
    simp [h, hmet, bind_eq_ok_iff, hmesh, hbelow, ih, explored_append_iff]

theorem check_eq_ok_iff {roots : List Nat} : check nodes roots meshes = .ok () ↔
    ∃ order, DepthFirst nodes roots order ∧ order.Nodup ∧
      ∀ i ∈ order, MeshInRange nodes meshes i := by
  have hcheck : check nodes roots meshes = .ok () ↔
      ∃ met, searchRoots nodes meshes [] roots = .ok met := by
    unfold check
    cases searchRoots nodes meshes [] roots <;> simp [Except.map]
  rw [hcheck]
  constructor
  · rintro ⟨met, h⟩
    obtain ⟨order, horder, hfresh, -⟩ := searchRoots_eq_ok_iff.1 h
    exact ⟨order, horder, hfresh.nodup, hfresh.mesh⟩
  · rintro ⟨order, horder, hnodup, hmesh⟩
    exact ⟨_, searchRoots_eq_ok_iff.2 ⟨order, horder, ⟨hnodup, by simp, hmesh⟩, rfl⟩⟩

end Diorama.Graph

import Diorama.Graph.Level

/-! What the check of a graph says of the graphs that it refuses.  The nodes on the search's stack lie
on one path from the roots, and each node that the search has met has a path that comes before the
place where the search stands.  So a node that is met again on the stack lies below itself, and any
other node that is met again has two paths. -/

namespace Diorama.Graph

variable {M : Type} {nodes : List (Node M)} {roots names path place met : List Nat}
  {meshes : Option Nat} {stack : List (Nat × List Nat)} {position next i j : Nat}

/-- What an error says of a graph. -/
def Explains (nodes : List (Node M)) (roots : List Nat) (meshes : Option Nat) : GraphError → Prop
  | .danglingRoot root count => root ∈ roots ∧ count = nodes.length ∧ count ≤ root
  | .danglingChild i child count =>
    Reachable nodes roots i ∧ child ∈ childrenOf nodes i ∧ count = nodes.length ∧ count ≤ child
  | .danglingMesh i mesh count =>
    Reachable nodes roots i ∧ nodes[i]?.bind (·.mesh) = some mesh ∧ meshes = some count ∧
      count ≤ mesh
  | .cycle i => Reachable nodes roots i ∧ Reachable nodes (childrenOf nodes i) i
  | .sharedNode i => ∃ path path', path ≠ path' ∧ target? nodes roots path = some i ∧
    target? nodes roots path' = some i

/-- A path goes on to each child of the node that it leads to. -/
theorem target?_concat (h : target? nodes names path = some i)
    (hj : (childrenOf nodes i)[position]? = some j) :
    target? nodes names (path ++ [position]) = some j := by
  obtain ⟨trail, htrail, hlast⟩ := Option.bind_eq_some_iff.1 h
  rw [target?, trail?_concat htrail hlast hj, Option.bind_some, List.getLast?_concat]

/-! ### The stack -/

/-- The names among which a search goes on: the children of its stack's top node, or the roots where
the stack is empty. -/
def namesAt (nodes : List (Node M)) (roots : List Nat) : List (Nat × List Nat) → List Nat
  | [] => roots
  | (i, _) :: _ => childrenOf nodes i

/-- The search stands below root number `position`: `path` leads along the nodes of its stack to the
top, and `next` is the number of the name that comes next.  The children that wait on the stack with
a node are those that were not tried yet. -/
inductive Descent (nodes : List (Node M)) (roots : List Nat) (position : Nat) :
    List (Nat × List Nat) → List Nat → Nat → Prop
  | top : Descent nodes roots position [] [] (position + 1)
  | push {stack : List (Nat × List Nat)} {path waiting : List Nat} {next i tried : Nat}
      (above : Descent nodes roots position stack path (next + 1))
      (named : (namesAt nodes roots stack)[next]? = some i)
      (waits : waiting = (childrenOf nodes i).drop tried) :
      Descent nodes roots position ((i, waiting) :: stack) (path ++ [next]) tried

namespace Descent

/-- The path goes on to each name among which the search goes on. -/
theorem target?_concat (h : Descent nodes roots position stack path next) {k : Nat}
    (hj : (namesAt nodes roots stack)[k]? = some j) :
    target? nodes roots (path ++ [k]) = some j := by
  induction h generalizing j k with
  | top => rwa [List.nil_append, target?_singleton]
  | push above named _ ih => exact Graph.target?_concat (ih named) hj

/-- What the search comes to next lies below each node of the stack. -/
theorem reachable_below (h : Descent nodes roots position stack path next) {k : Nat}
    (hj : (namesAt nodes roots stack)[k]? = some j) :
    ∀ f ∈ stack, Reachable nodes (childrenOf nodes f.1) j := by
  induction h generalizing j k with
  | top => simp
  | push above named _ ih =>
    rw [List.forall_mem_cons]
    refine ⟨⟨[k], by rw [target?_singleton]; exact hj⟩, fun f hf => ?_⟩
    obtain ⟨down, hdown⟩ := ih named f hf
    exact ⟨_, Graph.target?_concat hdown hj⟩

/-- The search takes the next name, and one less waits. -/
theorem step {waiting : List Nat}
    (h : Descent nodes roots position ((i, j :: waiting) :: stack) path next) :
    (childrenOf nodes i)[next]? = some j ∧
      Descent nodes roots position ((i, waiting) :: stack) path (next + 1) := by
  cases h with
  | push above named waits =>
    have hget := congrArg (·[0]?) waits
    have htail := congrArg List.tail waits
    simp only [List.getElem?_cons_zero, List.getElem?_drop, Nat.add_zero] at hget
    rw [List.tail_cons, List.tail_drop] at htail
    exact ⟨hget.symm, .push above named htail⟩

end Descent

/-- A node has a path that comes before a place, in the order of a search that goes depth first. -/
def Precedes (nodes : List (Node M)) (roots place : List Nat) (i : Nat) : Prop :=
  ∃ path, target? nodes roots path = some i ∧ path < place

theorem Precedes.mono {later : List Nat} (h : Precedes nodes roots place i) (hlt : place < later) :
    Precedes nodes roots later i := by
  obtain ⟨path, hpath, hbefore⟩ := h
  exact ⟨path, hpath, List.lt_trans hbefore hlt⟩

theorem Precedes.explains_sharedNode (h : Precedes nodes roots place i)
    (hplace : target? nodes roots place = some i) :
    Explains nodes roots meshes (.sharedNode i) := by
  obtain ⟨path, hpath, hbefore⟩ := h
  refine ⟨path, place, ?_, hpath, hplace⟩
  rintro rfl
  exact List.lt_irrefl _ hbefore

/-- Below a name comes after it. -/
theorem concat_lt_concat_concat (path : List Nat) (k n : Nat) :
    path ++ [k] < path ++ [k] ++ [n] := by
  have hlt : path ++ [k] ++ [] < path ++ [k] ++ [n] := List.append_left_lt (List.nil_lt_cons n [])
  rwa [List.append_nil] at hlt

/-- The next name comes after all that lies below one. -/
theorem concat_concat_lt (path : List Nat) (k n : Nat) :
    path ++ [k] ++ [n] < path ++ [k + 1] := by
  rw [List.append_assoc]
  exact List.append_left_lt (List.cons_lt_cons_iff.2 (.inl (Nat.lt_succ_self k)))

theorem explains_of_checkMesh {e : GraphError} (hi : i < nodes.length)
    (h : checkMesh meshes i nodes[i] = .error e) (hreach : Reachable nodes roots i) :
    Explains nodes roots meshes e := by
  unfold checkMesh at h
  split at h
  next mesh count hmesh =>
    split at h
    next hle =>
      cases h
      exact ⟨hreach, by simpa [hi] using hmesh, rfl, hle⟩
    · cases h
  · cases h

/-- A search from a stack either explains why it fails, or has gone past the root below which it
started. -/
theorem search_explains (meshes : Option Nat)
    (hdescent : Descent nodes roots position stack path next)
    (hmet : ∀ i ∈ met, Precedes nodes roots (path ++ [next]) i) :
    match search nodes meshes met stack with
    | .ok met' => ∀ i ∈ met', Precedes nodes roots [position + 1] i
    | .error e => Explains nodes roots meshes e := by
  fun_induction search nodes meshes met stack generalizing path next with
  | case1 met =>
    cases hdescent
    exact hmet
  | case2 met _ stack ih =>
    cases hdescent with
    | push above named _ =>
      exact ih above fun i hi => (hmet i hi).mono (concat_concat_lt _ _ _)
  | case3 met parent child others stack h hcycle =>
    obtain ⟨hchild, -⟩ := hdescent.step
    have hbelow := hdescent.reachable_below hchild
    refine ⟨⟨_, hdescent.target?_concat hchild⟩, ?_⟩
    rcases hcycle with rfl | hcycle
    · exact hbelow _ List.mem_cons_self
    · obtain ⟨f, hf, rfl⟩ := List.mem_map.1 hcycle
      exact hbelow f (List.mem_cons_of_mem _ hf)
  | case4 met parent child others stack h _ hagain =>
    obtain ⟨hchild, -⟩ := hdescent.step
    exact (hmet child hagain).explains_sharedNode (hdescent.target?_concat hchild)
  | case5 met parent child others stack h _ _ e he =>
    obtain ⟨hchild, -⟩ := hdescent.step
    exact explains_of_checkMesh h he ⟨_, hdescent.target?_concat hchild⟩
  | case6 met parent child others stack h _ _ _ ih =>
    obtain ⟨hchild, hothers⟩ := hdescent.step
    have hbefore := concat_lt_concat_concat path next 0
    have hpush : Descent nodes roots position
        ((child, nodes[child].children) :: (parent, others) :: stack) (path ++ [next]) 0 :=
      .push hothers hchild (childrenOf_eq h).symm
    refine ih hpush ?_
    rw [List.forall_mem_cons]
    exact ⟨⟨_, hdescent.target?_concat hchild, hbefore⟩, fun i hi => (hmet i hi).mono hbefore⟩
  | case7 met parent child others stack h =>
    obtain ⟨hchild, -⟩ := hdescent.step
    cases hdescent with
    | push above named _ =>
      exact ⟨⟨_, above.target?_concat named⟩, List.mem_of_getElem? hchild, rfl, Nat.not_lt.1 h⟩

/-- The roots from number `position` on are searched. -/
theorem searchRoots_explains {tried more : List Nat} {e : GraphError} (hroots : roots = tried ++ more)
    (hmet : ∀ i ∈ met, Precedes nodes roots [tried.length] i)
    (h : searchRoots nodes meshes met more = .error e) : Explains nodes roots meshes e := by
  induction more generalizing tried met with
  | nil => cases h
  | cons root more ih =>
    have hroot : target? nodes roots [tried.length] = some root := by
      rw [target?_singleton, hroots]
      simp
    rw [searchRoots] at h
    split at h
    next hlt =>
      split at h
      next hagain =>
        cases h
        exact (hmet root hagain).explains_sharedNode hroot
      · obtain hmesh | ⟨_, -, h⟩ := bind_eq_error_iff.1 h
        · exact explains_of_checkMesh hlt hmesh ⟨_, hroot⟩
        · have hbefore := concat_lt_concat_concat [] tried.length 0
          have hdescent : Descent nodes roots tried.length [(root, nodes[root].children)]
              ([] ++ [tried.length]) 0 :=
            .push .top (by rw [← target?_singleton]; exact hroot) (childrenOf_eq hlt).symm
          have hmet' : ∀ i ∈ root :: met, Precedes nodes roots ([] ++ [tried.length] ++ [0]) i := by
            rw [List.forall_mem_cons]
            exact ⟨⟨_, hroot, hbefore⟩, fun i hi => (hmet i hi).mono hbefore⟩
          have hsearch := search_explains meshes hdescent hmet'
          obtain hfound | ⟨met', hfound, h⟩ := bind_eq_error_iff.1 h
          · rwa [hfound] at hsearch
          · rw [hfound] at hsearch
            have hrest : roots = tried ++ [root] ++ more := by simp [hroots]
            exact ih hrest (by simpa using hsearch) h
    next hge =>
      cases h
      exact ⟨by simp [hroots], rfl, Nat.not_lt.1 hge⟩

/-- What the check says of a graph that it refuses is true of the graph. -/
theorem check_error_explains {e : GraphError} (h : check nodes roots meshes = .error e) :
    Explains nodes roots meshes e := by
  unfold check at h
  cases hsearch : searchRoots nodes meshes [] roots with
  | ok met =>
    rw [hsearch] at h
    cases h
  | error e' =>
    rw [hsearch] at h
    cases h
    exact searchRoots_explains (List.nil_append roots).symm (by simp) hsearch

/-- A root that lies below another root too has two paths. -/
theorem check_error_explains_lower_root :
    check [⟨(), none, [2]⟩, ⟨(), none, []⟩, ⟨(), some 0, [3, 1]⟩, ⟨(), none, []⟩] [1, 0] (some 1) =
        .error (.sharedNode 1) ∧
      Explains [⟨(), none, [2]⟩, ⟨(), none, []⟩, ⟨(), some 0, [3, 1]⟩, ⟨(), none, []⟩] [1, 0]
        (some 1) (.sharedNode 1) := by
  have hcheck : check [⟨(), none, [2]⟩, ⟨(), none, []⟩, ⟨(), some 0, [3, 1]⟩, ⟨(), none, []⟩] [1, 0]
      (some 1) = .error (.sharedNode 1) := by cbv
  exact ⟨hcheck, check_error_explains hcheck⟩

end Diorama.Graph

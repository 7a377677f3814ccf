import Diorama.Outcome

/-! Warnings: what the library reports without failing, and `Logged`, a value together with the
warnings given while it was computed, in the order in which they were given. -/

namespace Diorama

/-- Something worth telling the user that stops nothing. -/
inductive Warning where
  /-- An identifier was released that was not reserved. -/
  | notReserved (uid : Nat)
  /-- A line with `@group` is no declaration. -/
  | malformedBinding (line : String)
  /-- A line with `@attribute=` is no vertex input. -/
  | malformedAttribute (line : String)
  /-- A semantic has a second vertex input, which replaces the first. -/
  | repeatedAttribute (semantic : String)
  /-- No stage of the shader mentions the binding. -/
  | unusedBinding (binding shader : String)
  /-- Several entries carry one tag, and the first is used. -/
  | repeatedTag (tag : String) (count : Nat) (shader chosen : String)
  /-- An object tag stands outside the object group. -/
  | strayTag (tag shader : String) (group objectGroup : UInt32)
  /-- A world matrix has no inverse. -/
  | singularWorld
  /-- A view matrix has no inverse. -/
  | singularView
  /-- A mesh has primitives after the first. -/
  | extraPrimitives (mesh : String) (count : Nat)
  /-- Indices are of another component type than 16-bit words. -/
  | foreignIndices (mesh component : String)
  /-- The bytes of an index buffer do not fill whole words of four. -/
  | unevenIndices (mesh : String) (size : UInt64)
  /-- The bytes of an image could not be decoded. -/
  | undecodable (image : Nat)
  /-- An arrival at an open latch. -/
  | extraArrival
  /-- A load came back without its resource. -/
  | failedLoad (reason : String)
deriving DecidableEq, Repr

/-- The text of a warning. -/
def Warning.message : Warning → String
  | notReserved uid => s!"Ignoring release of uid {uid}, it is not currently reserved."
  | malformedBinding line => s!"Skipping malformed binding declaration: {line}"
  | malformedAttribute line => s!"Skipping malformed attribute declaration: {line}"
  | repeatedAttribute semantic =>
    s!"Attribute {semantic} is declared twice, keeping the last one."
  | unusedBinding binding shader =>
    s!"Binding {binding} is not referenced by any stage of {shader}."
  | repeatedTag tag count shader chosen =>
    s!"Tag {tag} is declared {count} times in {shader}, using {chosen}."
  | strayTag tag shader group objectGroup =>
    s!"Tag {tag} of {shader} is in group {group}, not the object group {objectGroup}; " ++
      "it will not be bound."
  | singularWorld => "World matrix is singular, keeping the previous inverse."
  | singularView => "View matrix is singular, keeping the previous inverse."
  | extraPrimitives mesh count =>
    s!"Mesh {mesh} has {count} primitives, only the first is loaded."
  | foreignIndices mesh component =>
    s!"Mesh {mesh} has {component} indices, they will be read as 16-bit."
  | unevenIndices mesh size =>
    s!"Index buffer of mesh {mesh} is {size} bytes, truncating to a multiple of 4."
  | undecodable image => s!"image {image} could not be decoded"
  | extraArrival => "Completion latch received more arrivals than expected."
  | failedLoad reason => s!"Load failed: {reason}"

/-- A value and the warnings given on the way to it. -/
structure Logged (α : Type) where
  value : α
  warnings : List Warning := []

namespace Logged

variable {α β : Type}

instance : Monad Logged where
  pure value := ⟨value, []⟩
  bind x f := ⟨(f x.value).value, x.warnings ++ (f x.value).warnings⟩

/-- Gives one warning. -/
def warn (w : Warning) : Logged Unit := ⟨(), [w]⟩

/-- Gives `w` if the condition holds. -/
def warnIf (condition : Bool) (w : Warning) : Logged Unit := ⟨(), if condition then [w] else []⟩

/-- Applies `f` to the members of a list, as far as the first where it fails. -/
def traverse {ε : Type} (f : α → Logged (Except ε β)) : List α → Logged (Except ε (List β))
  | [] => pure (.ok [])
  | a :: more => do
    match ← f a with
    | .error e => return .error e
    | .ok b => return (b :: ·) <$> (← traverse f more)

/-- Goes on with the value of a computation that has one. -/
def proceed {ε : Type} (x : Option (Except ε α)) (f : α → Logged (Option (Except ε β))) :
    Logged (Option (Except ε β)) :=
  match x with
  | none => pure none
  | some (.error e) => pure (some (.error e))
  | some (.ok a) => f a

@[simp] theorem value_pure (a : α) : (pure a : Logged α).value = a := rfl

@[simp] theorem warnings_pure (a : α) : (pure a : Logged α).warnings = [] := rfl

@[simp] theorem value_bind (x : Logged α) (f : α → Logged β) :
    (x >>= f).value = (f x.value).value := rfl

@[simp] theorem warnings_bind (x : Logged α) (f : α → Logged β) :
    (x >>= f).warnings = x.warnings ++ (f x.value).warnings := rfl

@[simp] theorem value_map (f : α → β) (x : Logged α) : (f <$> x).value = f x.value := rfl

theorem settle_value_proceed {ε : Type} (x : Option (Except ε α))
    (f : α → Logged (Option (Except ε β))) :
    settle (proceed x f).value = settle x >>= fun a => settle (f a).value := by
  rcases x with _ | _ | _ <;> rfl

section Traverse

variable {ε : Type} {f : α → Logged (Except ε β)}

theorem traverse_map {γ : Type} (g : γ → α) (cs : List γ) :
    traverse f (cs.map g) = traverse (f ∘ g) cs := by
  induction cs with
  | nil => rfl
  | cons c more ih => rw [List.map_cons, traverse, traverse, ih, Function.comp_apply]

theorem value_traverse_cons (a : α) (more : List α) :
    (traverse f (a :: more)).value =
      (do return (← (f a).value) :: (← (traverse f more).value)) := by
  cases h : (f a).value with
  | error e => simp [traverse, h, bind, Except.bind]
  | ok b => simp [traverse, h, bind, Except.bind]; rfl

theorem value_traverse (as : List α) :
    (traverse f as).value = as.mapM fun a => (f a).value := by
  induction as with
  | nil => rfl
  | cons a more ih => rw [value_traverse_cons, List.mapM_cons, ih]

theorem value_traverse_eq_ok_iff {as : List α} {bs : List β} :
    (traverse f as).value = .ok bs ↔ as.map (fun a => (f a).value) = bs.map .ok := by
  rw [value_traverse, mapM_eq_ok_iff]

theorem getElem?_of_value_traverse {as : List α} {bs : List β}
    (h : (traverse f as).value = .ok bs) (i : Nat) :
    as[i]?.map (fun a => (f a).value) = bs[i]?.map .ok := by
  rw [← List.getElem?_map, value_traverse_eq_ok_iff.1 h, List.getElem?_map]

theorem length_of_value_traverse {as : List α} {bs : List β}
    (h : (traverse f as).value = .ok bs) : as.length = bs.length := by
  simpa using congrArg List.length (value_traverse_eq_ok_iff.1 h)

/-- Where each result shows what it was made from, so do the results. -/
theorem map_eq_of_value_traverse {g : β → α} (hg : ∀ a b, (f a).value = .ok b → g b = a)
    {as : List α} {bs : List β} (h : (traverse f as).value = .ok bs) : bs.map g = as := by
  refine List.ext_getElem? fun i => ?_
  have hi := getElem?_of_value_traverse h i
  rw [List.getElem?_map]
  cases hb : bs[i]? with
  | none =>
    rw [hb] at hi
    exact (Option.map_eq_none_iff.1 hi).symm
  | some b =>
    rw [hb] at hi
    obtain ⟨a, ha, hvalue⟩ := Option.map_eq_some_iff.1 hi
    rw [ha, Option.map_some, hg a b hvalue]

theorem exists_value_traverse_iff {as : List α} :
    (∃ bs, (traverse f as).value = .ok bs) ↔ ∀ a ∈ as, ∃ b, (f a).value = .ok b := by
  rw [value_traverse, exists_mapM_eq_ok_iff]

end Traverse

instance : LawfulMonad Logged :=
  LawfulMonad.mk' Logged (fun x => by cases x; simp [Functor.map])
    (fun a f => by simp [bind, pure]) (fun x f g => by simp [bind, List.append_assoc])

end Logged

end Diorama

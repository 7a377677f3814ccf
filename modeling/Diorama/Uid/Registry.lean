import Diorama.Uid.Pool

/-! Objects by identifier.  A slot is kept for each identifier that was ever handed out; the slot 0
is never filled. -/

namespace Diorama

structure Registry (α : Type) where
  pool : UidPool
  slots : Array (Option α)

namespace Registry

variable {α : Type}

/-- No objects; the identifier 0 is taken, so that no object gets it. -/
def empty : Registry α := ⟨(({} : UidPool).reserve).2, #[none]⟩

def get? (r : Registry α) (uid : Uid) : Option α := if uid = 0 then none else (r.slots[uid]?).join

/-- Fills the slot `index`, or adds a slot at the end where there is none of that number. -/
def fill (slots : Array (Option α)) (index : Nat) (object : α) : Array (Option α) :=
  if index < slots.size then slots.setIfInBounds index (some object) else slots.push (some object)

/-- A slot that is there or comes next is the one that is filled. -/
theorem getElem?_fill {slots : Array (Option α)} {index : Nat} (h : index ≤ slots.size)
    (object : α) (other : Nat) :
    (fill slots index object)[other]? =
      if other = index then some (some object) else slots[other]? := by
  unfold fill
  split
  next hlt =>
    rw [Array.getElem?_setIfInBounds, if_pos hlt]
    simp only [eq_comm]
  next hlt => rw [Array.getElem?_push, show slots.size = index by omega]

theorem size_fill {slots : Array (Option α)} {index : Nat} (h : index ≤ slots.size) (object : α) :
    (fill slots index object).size = max slots.size (index + 1) := by
  unfold fill
  split
  · rw [Array.size_setIfInBounds]
    omega
  · rw [Array.size_push]
    omega

/-- Stores the object that `make` gives for its own identifier. -/
def insertWith (r : Registry α) (make : Uid → α) : Uid × Registry α :=
  let (uid, pool) := r.pool.reserve
  (uid, ⟨pool, fill r.slots uid (make uid)⟩)

def insert (r : Registry α) (object : α) : Uid × Registry α := r.insertWith fun _ => object

/-- Changes the object under an identifier, where there is one. -/
def modify (r : Registry α) (uid : Uid) (f : α → α) : Registry α :=
  match r.get? uid with
  | some object => { r with slots := r.slots.setIfInBounds uid (some (f object)) }
  | none => r

def remove (r : Registry α) (uid : Uid) : Logged (Option α × Registry α) :=
  match r.get? uid with
  | none => pure (none, r)
  | some object => do
    return (some object, ⟨← r.pool.release uid, r.slots.setIfInBounds uid none⟩)

/-- The objects with their identifiers, in the order of identifiers. -/
def toList (r : Registry α) : List (Uid × α) :=
  r.slots.toList.zipIdx.filterMap fun (slot, uid) => slot.map fun object => (uid, object)

/-- The objects in the order of identifiers. -/
def objects (r : Registry α) : List α := r.toList.map (·.2)

def size (r : Registry α) : Nat := (r.slots.toList.filter (·.isSome)).length

def isEmpty (r : Registry α) : Bool := r.size == 0

/-- Changes the objects in slots from `uid` on. -/
def mapSlotsM {m : Type → Type} [Monad m] (f : Uid → α → m α) :
    Uid → List (Option α) → m (List (Option α))
  | _, [] => pure []
  | uid, none :: rest => do return none :: (← mapSlotsM f (uid + 1) rest)
  | uid, some object :: rest => do
    let object ← f uid object
    return some object :: (← mapSlotsM f (uid + 1) rest)

/-- Changes each object, in the order of identifiers. -/
def mapM {m : Type → Type} [Monad m] (r : Registry α) (f : Uid → α → m α) : m (Registry α) := do
  return { r with slots := (← mapSlotsM f 0 r.slots.toList).toArray }

end Registry

end Diorama

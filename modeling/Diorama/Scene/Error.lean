import Diorama.Uid.Pool

/-! Why a resource of a scene cannot be had. -/

namespace Diorama

/-- The causes, each with what its message needs. -/
inductive ResourceError where
  | missingView (view : Nat)
  | missingAccessor (accessor : Nat)
  | sparseAccessor (accessor : Nat)
  | invalidAccessor (accessor : Nat)
  | missingChunk (buffer : Nat)
  | outOfBounds (view : Nat) (stop chunk : UInt64)
  | interleaved (accessor : Nat) (stride element : UInt64)
  | noPrimitives (mesh : String)
  | externalImage (image : Nat)
  | notReady (what : String)
  | unknownUid (uid : Uid)
deriving DecidableEq, Repr

def ResourceError.message : ResourceError → String
  | missingView view => s!"buffer view {view} does not exist"
  | missingAccessor accessor => s!"accessor {accessor} does not exist"
  | sparseAccessor accessor => s!"accessor {accessor} has no buffer view"
  | invalidAccessor accessor =>
    s!"accessor {accessor} has an invalid component type or element type"
  | missingChunk buffer => s!"buffer {buffer} has no binary chunk"
  | outOfBounds view stop chunk =>
    s!"buffer view {view} ends at byte {stop}, past the end of its {chunk}-byte chunk"
  | interleaved accessor stride element =>
    s!"accessor {accessor} reads an interleaved view ({stride}-byte stride, " ++
      s!"{element}-byte elements)"
  | noPrimitives mesh => s!"mesh `{mesh}` has no primitives"
  | externalImage image => s!"image {image} is not embedded in a binary chunk"
  | notReady what => s!"{what} is not ready"
  | unknownUid uid => s!"no resource with uid {uid}"

end Diorama

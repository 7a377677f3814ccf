import Diorama.Linear.Matrix

/-! The graphics processor, as far as the library deals with it: it makes every object that it is
asked for, under a handle that no other object has, and keeps a log of what it was asked.  The
contents of a buffer are what the log last says of it. -/

namespace Diorama

/-- The name of an object on the graphics processor. -/
abbrev Handle := Nat

inductive BufferUsage where
  | uniform
  | vertex
  | index
deriving DecidableEq, Repr

inductive Contents where
  | matrix (m : Mat4)
  | bytes (b : List UInt8)

inductive GpuEvent where
  | createBuffer (handle : Handle) (label : String) (usage : BufferUsage) (contents : Contents)
  | writeBuffer (handle : Handle) (contents : Contents)
  | createTexture (handle : Handle) (label : String) (width height : Nat)
  | createSampler (handle : Handle) (label : String)

def GpuEvent.contentsOf? (handle : Handle) : GpuEvent → Option Contents
  | .createBuffer h _ _ contents => if h = handle then some contents else none
  | .writeBuffer h contents => if h = handle then some contents else none
  | _ => none

/-- The object that a request makes. -/
def GpuEvent.made? : GpuEvent → Option Handle
  | .createBuffer handle _ _ _ | .createTexture handle _ _ _ | .createSampler handle _ =>
    some handle
  | .writeBuffer _ _ => none

/-- The state of the graphics processor: the number of objects made, and all requests in order. -/
structure Gpu where
  made : Nat := 0
  log : List GpuEvent := []

namespace Gpu

def createBuffer (gpu : Gpu) (label : String) (usage : BufferUsage) (contents : Contents) :
    Handle × Gpu :=
  (gpu.made, ⟨gpu.made + 1, gpu.log ++ [.createBuffer gpu.made label usage contents]⟩)

def writeBuffer (gpu : Gpu) (handle : Handle) (contents : Contents) : Gpu :=
  { gpu with log := gpu.log ++ [.writeBuffer handle contents] }

def createTexture (gpu : Gpu) (label : String) (width height : Nat) : Handle × Gpu :=
  (gpu.made, ⟨gpu.made + 1, gpu.log ++ [.createTexture gpu.made label width height]⟩)

def createSampler (gpu : Gpu) (label : String) : Handle × Gpu :=
  (gpu.made, ⟨gpu.made + 1, gpu.log ++ [.createSampler gpu.made label]⟩)

def contents? (gpu : Gpu) (handle : Handle) : Option Contents :=
  gpu.log.reverse.findSome? (GpuEvent.contentsOf? handle)

/-- Later requests decide about a buffer that they name; any other is as it was. -/
theorem contents?_of_log {gpu after : Gpu} {events : List GpuEvent}
    (h : after.log = gpu.log ++ events) (handle : Handle) : after.contents? handle =
      (events.reverse.findSome? (GpuEvent.contentsOf? handle)).or (gpu.contents? handle) := by
  rw [contents?, contents?, h, List.reverse_append, List.findSome?_append]

/-- The requests since an earlier state. -/
def since (gpu earlier : Gpu) : List GpuEvent := gpu.log.drop earlier.log.length

end Gpu

inductive Resource where
  | buffer (handle : Handle)
  | texture (handle : Handle)
  | sampler (handle : Handle)
deriving DecidableEq, Repr

end Diorama

/-! The fixed part of a drawing pipeline: how vertices make triangles, which sides of them are
drawn, and how depths are compared. -/

namespace Diorama

inductive TextureFormat where
  | rgba8UnormSrgb
  | depth24Plus
deriving DecidableEq, Repr

inductive Topology where
  | triangleList
  | triangleStrip
  | lineList
  | lineStrip
  | pointList
deriving DecidableEq, Repr

/-- The turn of a triangle's corners that is seen from its front: counter-clockwise or
clockwise. -/
inductive FrontFace where
  | ccw
  | cw
deriving DecidableEq, Repr

inductive Face where
  | front
  | back
deriving DecidableEq, Repr

/-- How the depth of a new pixel has to compare with the one that is there. -/
inductive Comparison where
  | never
  | less
  | equal
  | lessEqual
  | greater
  | notEqual
  | greaterEqual
  | always
deriving DecidableEq, Repr

/-- The settings that shaders of the library are drawn with, unless others are chosen. -/
structure PipelineProps where
  label : Option String := none
  topology : Topology := .triangleList
  frontFace : FrontFace := .ccw
  /-- The side that is not drawn. -/
  cullMode : Option Face := some .back
  depthFormat : TextureFormat := .depth24Plus
  /-- Whether drawing replaces depths. -/
  depthWrite : Bool := true
  depthCompare : Option Comparison := some .less
deriving DecidableEq, Repr

end Diorama

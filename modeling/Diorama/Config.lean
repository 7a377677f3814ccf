import Diorama.Time.Duration

/-! The settings that a program starts with. -/

namespace Diorama

/-- A colour with its opacity, each part from 0 to 1. -/
structure Colour where
  red : Float
  green : Float
  blue : Float
  alpha : Float
deriving Repr

/-- What a program may choose before it starts. -/
structure EngineConfig where
  title : String := "scene-ngin"
  width : UInt32 := 512
  height : UInt32 := 384
  /-- Pulses per second. -/
  pulseRate : UInt32 := 60
  /-- What a frame is filled with before it is drawn. -/
  clearColour : Colour := ⟨0, 0, 0.3, 1⟩
  /-- How long a start waits for loads. -/
  loadTimeout : Duration := 10 * Duration.second
deriving Repr

end Diorama

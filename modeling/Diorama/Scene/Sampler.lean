import Diorama.Gltf.Types

/-! How textures are sampled. -/

namespace Diorama

/-- Wrapping along each axis, and filters for a magnified texture, for a shrunk one, and between
its levels. -/
structure SamplerConfig where
  u : Gltf.WrappingMode := .repeating
  v : Gltf.WrappingMode := .repeating
  w : Gltf.WrappingMode := .repeating
  mag : Gltf.FilterMode := .linear
  min : Gltf.FilterMode := .linear
  mipmap : Gltf.FilterMode := .linear
deriving DecidableEq, Repr

/-- The configuration of a document's sampler.  Filters that it does not give are linear. -/
def SamplerConfig.ofSampler (s : Gltf.Sampler) : SamplerConfig :=
  { u := s.wrapS
    v := s.wrapT
    mag := s.magFilter.getD .linear
    min := (s.minFilter.map (·.filter)).getD .linear
    mipmap := (s.minFilter.bind (·.mipmap)).getD .linear }

end Diorama

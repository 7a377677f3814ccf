import Diorama.Assets
import Diorama.Config
import Diorama.Entity.Registry
import Diorama.Load.Pending
import Diorama.Surface
import Diorama.Graph.Order
import Diorama.Graph.Path
import Diorama.Proofs.Forest
import Diorama.Graph.Level
import Diorama.Proofs.LevelOrder
import Diorama.Proofs.Tiling
import Diorama.Proofs.ByteRanges
import Diorama.Proofs.RoundTrip
import Diorama.Proofs.FiniteMap
import Diorama.Proofs.Mirror
import Diorama.Proofs.Grouping
import Diorama.Proofs.Slots
import Diorama.Proofs.Baking
import Diorama.Proofs.SharedNames
import Diorama.Proofs.Sweep
import Diorama.Proofs.Ownership
import Diorama.Proofs.Sketch
import Diorama.Proofs.Storing
import Diorama.Proofs.Decoding
import Diorama.Proofs.Residency
import Diorama.Proofs.Reading
import Diorama.Proofs.Calls
import Diorama.Proofs.Reordering
import Diorama.Proofs.Capacity
import Diorama.Proofs.Barrier
import Diorama.Proofs.Reciprocal
import Diorama.Proofs.Cadence
import Diorama.Proofs.Diagnosis
import Diorama.Proofs.Catalogue
import Diorama.Proofs.Opening
import Diorama.Proofs.Faults
import Diorama.Proofs.Verdict
import Diorama.Proofs.Orphans
import Diorama.Proofs.Elements
import Diorama.Proofs.BrokenChunk
import Diorama.Proofs.Attributes
import Diorama.Proofs.MeshBuffers
import Diorama.Proofs.Reuse
import Diorama.Proofs.Drift
import Diorama.Proofs.Laziness
import Diorama.Proofs.Failures
import Diorama.Proofs.Recovery
import Diorama.Proofs.Drawing
import Diorama.Proofs.Scanning
import Diorama.Proofs.Spelling
import Diorama.Proofs.TagOrder
import Diorama.Proofs.Elapsed
import Diorama.Proofs.VertexInputs
import Diorama.Proofs.Addresses
import Diorama.Proofs.Components
import Diorama.Proofs.Dissection
import Diorama.Proofs.Seams
import Diorama.Proofs.WholeWords

import Diorama.Proofs.LevelOrder
import Diorama.Proofs.Reading

/-! The resources of a scene under the numbers of its document: image and mesh `i` of the document
have the identifier `i + 1`, and what the walk over a scene shows is a mesh of the document.  A scene
in which an image or a mesh cannot be read ends as the first of them does, images before meshes. -/

namespace Diorama

namespace Graph

variable {M σ : Type} [Mul M] {nodes : List (Node M)} {roots : List Nat}

end Graph

namespace Registry

variable {α : Type} {r : Registry α}

end Registry

namespace SceneResources

variable {scene : SceneData} {r : SceneResources}

section Collect

variable {makes : List (Uid → SceneImage)} {meshes : List Mesh}
  (hmakes : scene.document.images.zipIdx.mapM
    (fun entry => settle (readImage scene entry.2 entry.1)) = .ok makes)
  (hmeshes : (List.range scene.document.meshes.length).mapM
    (fun index => settle (Mesh.ofDocument scene index).value) = .ok meshes)

end Collect

end SceneResources

end Diorama

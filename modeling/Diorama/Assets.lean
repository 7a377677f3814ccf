import Diorama.Scene.Resources

/-! The folder of assets that scenes are loaded from: files under their paths, and the loading of
texts, bytes and scenes. -/

namespace Diorama

/-- Files with their paths, a list of names each.  Of two files under one path the last counts. -/
structure Assets where
  files : List (List String × List UInt8)

/-- Where the loading of an asset failed. -/
inductive AssetError where
  | reading (name : String)
  | decoding (name : String)
  | loadingResources (name : String)
deriving DecidableEq, Repr

def AssetError.message : AssetError → String
  | reading name => s!"reading {name}"
  | decoding name => s!"decoding {name}"
  | loadingResources name => s!"loading resources of {name}"

namespace Assets

def folder : String := "assets"

def namesOf (path : String) : List String :=
  ((path.splitOn "/").filter fun name => name ≠ "" ∧ name ≠ ".")

def ofFiles (files : List (String × List UInt8)) : Assets :=
  ⟨files.reverse.map fun (path, bytes) => (folder :: namesOf path, bytes)⟩

def file? (assets : Assets) (path : List String) : Option (List UInt8) := assets.files.lookup path

/-- Whether a path from the folder's parent leads to a directory: to a part of a file's path. -/
def isDirectory (assets : Assets) (path : List String) : Bool :=
  path.length ≤ 1 && path.isPrefixOf [folder] ||
    assets.files.any fun (file, _) => path.isPrefixOf file && path.length < file.length

/-- Follows a path name by name, each from a directory.  Nothing lies above the folder's parent. -/
def resolve? (assets : Assets) (here : List String) : List String → Option (List String)
  | [] => some here
  | name :: rest =>
    if !assets.isDirectory here then none
    else if name = "" ∨ name = "." then resolve? assets here rest
    else if name = ".." then if here.isEmpty then none else resolve? assets here.dropLast rest
    else resolve? assets (here ++ [name]) rest

/-- The bytes of a file.  A path from the root leads nowhere. -/
def loadBinary (assets : Assets) (name : String) : Except AssetError (List UInt8) :=
  let found := do
    guard (!"/".toList.isPrefixOf name.toList)
    assets.file? (← assets.resolve? [folder] (name.splitOn "/"))
  match found with
  | some bytes => .ok bytes
  | none => .error (.reading name)

/-- The text of a file, which has to be UTF-8. -/
def loadString (assets : Assets) (name : String) : Except AssetError String := do
  let bytes ← assets.loadBinary name
  match String.fromUTF8? ⟨bytes.toArray⟩ with
  | some text => return text
  | none => throw (.reading name)

/-- The scene in a file, with its resources and their images decoded. -/
def loadScene (assets : Assets) (decoder : ImageDecoder) (name : String) :
    Logged (Option (Except AssetError (SceneData × SceneResources))) :=
  match assets.loadBinary name with
  | .error e => pure (some (.error e))
  | .ok bytes =>
    match SceneData.decode bytes with
    | .error _ => pure (some (.error (.decoding name)))
    | .ok scene => do
      match ← SceneResources.load scene decoder with
      | none => return none
      | some (.error _) => return some (.error (.loadingResources name))
      | some (.ok resources) => return some (.ok (scene, resources))

end Assets

end Diorama

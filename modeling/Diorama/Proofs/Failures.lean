import Diorama.Proofs.Baking
import Diorama.Proofs.Calls
import Diorama.Proofs.Uploads

/-! Uses of a mesh instance that fail.  A resource of another kind is refused before anything is set,
and so is a frame without buffers; a bake that fails binds nothing.  But a texture is set before its
sampler is looked up: where only the sampler cannot be had, the instance is left with the texture and
without its bound group. -/

namespace Diorama

namespace SceneResources

/-- Each texture that is there has its sampler. -/
def Sampled (r : SceneResources) : Prop :=
  ∀ texture view, r.textureView texture = .ok view → ∃ handle, r.sampler texture = .ok handle

/-- Images and samplers are stored by the same call, so after calls only a document that names a
sampler which it does not have leaves a texture without one. -/
theorem sampled_of_run {scene : SceneData} {r after : SceneResources} {decoder : ImageDecoder}
    {gpu gpu' : Gpu} {count : Nat} {calls : List Call} (hnew : (new scene).value = some (.ok r))
    (hrun : r.run decoder gpu calls = some (count, after, gpu'))
    (hindex : ∀ (t : Nat) (source : Gltf.Texture) (i : Nat),
      scene.document.textures[t]? = some source → source.sampler = some i →
        i < scene.document.samplers.length) : after.Sampled := by
  intro t texture hview
  have haccounts := (isRead_of_new hnew).accounts hrun
  obtain ⟨source, image, hsource, himage, htexture⟩ := (haccounts.textureView t texture).1 hview
  obtain ⟨uid, -, hget⟩ := Option.bind_eq_some_iff.1 himage
  have hloaded : image.isLoaded := by simp [SceneImage.isLoaded, htexture]
  have hstored : .storeAll ∈ calls :=
    ((haccounts.reflects.isLoaded uid image hget).1 hloaded).2.subset (by simp)
  exact (haccounts.sampler t).2
    ⟨hstored, source, hsource, fun i hi => hindex t source i hsource hi⟩

end SceneResources

namespace MeshInstance

open Shader

/-- What a use returns, but for the instance. -/
def outcome (i : MeshInstance) : Use → Except RenderError Unit
  | .set tag resource => (i.set tag resource).map fun _ => ()
  | .setFrame frame => (i.setFrame frame).1
  | .setAlbedo scene texture => (i.setAlbedo scene texture).1
  | .bake => i.bake.map fun _ => ()

/-- One instance has the resources of the other, and is like it in all else. -/
structure Same (i after : MeshInstance) : Prop where
  resources : ∀ name, after.resources.get? name = i.resources.get? name
  eq : after = { i with resources := after.resources }

theorem Same.refl (i : MeshInstance) : i.Same i := ⟨fun _ => rfl, rfl⟩

/-- A use that fails leaves the instance as it was. -/
def KeptOnError (i : MeshInstance) (next : Use) : Prop :=
  ∀ e, i.outcome next = .error e → i.Same (i.use next)

/-- A texture is there for the shader, and the sampler that the shader wants with it is not. -/
structure Interrupted (i : MeshInstance) (scene : SceneResources) (texture : Nat) (slot : TagSlot)
    (view : Texture) : Prop where
  slot : i.slot? .albedoTexture = some slot
  view : scene.textureView texture = .ok view
  accepts : i.accepts .albedoSampler
  sampler : scene.sampler? texture = none

variable {i after : MeshInstance} {tag : Tag} {resource : Resource} {slot : TagSlot}
  {scene : SceneResources} {texture : Nat} {view : Texture} {e : RenderError}

/-! ### Settings one after the other -/

/-- The last setting of several leaves no trace where it fails. -/
theorem setAll_last_of_error {found : Except RenderError Resource}
    (hkind : ∀ resource, found = .ok resource → resource.kind = tag.kind)
    (h : (i.setAll [(tag, found)]).1 = .error e) :
    (i.setAll [(tag, found)]).2 = i ∧ i.accepts tag ∧ found = .error e := by
  cases hslot : i.slot? tag with
  | none =>
    rw [setAll_cons_of_not_accepts [] hslot] at h
    cases h
  | some slot =>
    cases found with
    | error _ =>
      rw [setAll_cons_error [] hslot] at h ⊢
      cases h
      exact ⟨rfl, Option.isSome_of_eq_some hslot, rfl⟩
    | ok resource =>
      rw [setAll_cons_ok [] hslot (hkind resource rfl)] at h
      cases h

/-- Where no resource can be had, none is set. -/
theorem setAll_of_errors (i : MeshInstance) {sets : List (Tag × Except RenderError Resource)}
    (h : ∀ next ∈ sets, ∃ e, next.2 = .error e) : (i.setAll sets).2 = i := by
  induction sets with
  | nil => rfl
  | cons next rest ih =>
    obtain ⟨tag, found⟩ := next
    obtain ⟨⟨e, rfl⟩, hrest⟩ := List.forall_mem_cons.1 h
    cases hslot : i.slot? tag with
    | none => rw [setAll_cons_of_not_accepts rest hslot, ih hrest]
    | some slot => rw [setAll_cons_error rest hslot]

theorem setFrame_of_error {frame : WorldFrame} (h : (i.setFrame frame).1 = .error e) :
    (i.setFrame frame).2 = i := by
  cases hbuffers : frame.buffers with
  | none =>
    refine i.setAll_of_errors fun next hnext =>
      ⟨.resource (.notReady "transform frame buffers"), ?_⟩
    simp only [frameBuffer, hbuffers, List.mem_cons, List.not_mem_nil, or_false] at hnext
    rcases hnext with rfl | rfl | rfl <;> rfl
  | some u =>
    obtain ⟨after, hset, -⟩ := i.setFrame_eq hbuffers
    rw [hset] at h
    cases h

/-! ### Textures and their samplers -/

theorem setAlbedo_of_view (hslot : i.slot? .albedoTexture = some slot)
    (hview : scene.textureView texture = .ok view) : i.setAlbedo scene texture =
      setAll { i with resources := i.resources.set slot.name (.texture view.handle), baked := none }
        [(.albedoSampler, ((scene.sampler texture).map .sampler).mapError .resource)] := by
  rw [setAlbedo, hview]
  exact setAll_cons_ok _ hslot rfl

/-- The texture takes the place of the one there, and of the bound group, before the sampler is
missed. -/
theorem Interrupted.setAlbedo_eq (h : i.Interrupted scene texture slot view) :
    i.setAlbedo scene texture =
      (.error (.resource (.notReady s!"sampler of texture {texture}")),
        { i with resources := i.resources.set slot.name (.texture view.handle), baked := none }) := by
  obtain ⟨sampler, hslot⟩ := Option.isSome_iff_exists.1 h.accepts
  rw [setAlbedo_of_view h.slot h.view, SceneResources.sampler, h.sampler]
  exact setAll_cons_error _ hslot

/-- Only the sampler can be missed once the texture is set, and the shader has to want it. -/
theorem setAlbedo_of_error (h : (i.setAlbedo scene texture).1 = .error e) :
    (i.setAlbedo scene texture).2 = i ∨ ∃ slot view, i.Interrupted scene texture slot view := by
  have hkind : ∀ resource, ((scene.sampler texture).map Resource.sampler).mapError
      RenderError.resource = .ok resource → resource.kind = Tag.albedoSampler.kind := by
    intro resource hfound
    cases hsampler : scene.sampler texture <;> rw [hsampler] at hfound <;> cases hfound
    rfl
  cases hslot : i.slot? .albedoTexture with
  | none =>
    rw [setAlbedo, setAll_cons_of_not_accepts _ hslot] at h ⊢
    exact .inl (setAll_last_of_error hkind h).1
  | some slot =>
    cases hview : scene.textureView texture with
    | error _ =>
      rw [setAlbedo, hview]
      exact .inl (congrArg Prod.snd (setAll_cons_error _ hslot))
    | ok view =>
      rw [setAlbedo_of_view hslot hview] at h
      obtain ⟨-, haccepts, hfound⟩ := setAll_last_of_error hkind h
      refine .inr ⟨slot, view, hslot, hview, haccepts, ?_⟩
      cases hsampler : scene.sampler? texture with
      | none => rfl
      | some handle =>
        rw [SceneResources.sampler, hsampler] at hfound
        cases hfound

theorem Interrupted.use_eq (h : i.Interrupted scene texture slot view) :
    i.use (.setAlbedo scene texture) = { i with
      resources := i.resources.set slot.name (.texture view.handle), baked := none } :=
  congrArg Prod.snd h.setAlbedo_eq

theorem Interrupted.same_iff (h : i.Interrupted scene texture slot view) :
    i.Same (i.use (.setAlbedo scene texture)) ↔
      i.baked = none ∧ i.resources.get? slot.name = some (.texture view.handle) := by
  rw [h.use_eq]
  constructor
  · rintro ⟨hresources, heq⟩
    refine ⟨(congrArg baked heq).symm, ?_⟩
    rw [← hresources slot.name, ResourceMap.get?_set, if_pos rfl]
  · rintro ⟨hbaked, hresource⟩
    refine ⟨fun name => ?_, by rw [hbaked]⟩
    rw [ResourceMap.get?_set]
    split
    next hname => rw [hname, hresource]
    next => rfl

/-! ### Any use -/

theorem use_of_error {next : Use} (h : i.outcome next = .error e) :
    i.use next = i ∨ ∃ scene texture slot view,
      next = .setAlbedo scene texture ∧ i.Interrupted scene texture slot view := by
  cases next with
  | set tag resource =>
    rw [use]
    cases hset : i.set tag resource with
    | error _ => exact .inl rfl
    | ok _ =>
      rw [outcome, hset] at h
      cases h
  | setFrame frame => exact .inl (setFrame_of_error h)
  | setAlbedo scene texture =>
    rcases setAlbedo_of_error h with hkept | ⟨slot, view, hinterrupted⟩
    · exact .inl hkept
    · exact .inr ⟨scene, texture, slot, view, rfl, hinterrupted⟩
  | bake =>
    rw [use]
    cases hbake : i.bake with
    | error _ => exact .inl rfl
    | ok _ =>
      rw [outcome, hbake] at h
      cases h

/-- What a failed use leaves. -/
structure Failures (i : MeshInstance) : Prop where
  /-- It leaves the instance as it was, unless it sets a texture that was not set already, or on an
  instance that was baked, and misses the sampler. -/
  keptOnError_iff : ∀ next, i.KeptOnError next ↔ ∀ scene texture slot view,
    next = .setAlbedo scene texture → i.Interrupted scene texture slot view →
      i.baked = none ∧ i.resources.get? slot.name = some (.texture view.handle)
  use_of_error : ∀ next e, i.outcome next = .error e → i.use next = i ∨
    ∃ scene texture slot view, next = .setAlbedo scene texture ∧
      i.Interrupted scene texture slot view
  interrupted : ∀ scene texture slot view, i.Interrupted scene texture slot view →
    i.outcome (.setAlbedo scene texture) =
      .error (.resource (.notReady s!"sampler of texture {texture}")) ∧
    i.use (.setAlbedo scene texture) =
      { i with resources := i.resources.set slot.name (.texture view.handle), baked := none }
  /-- The instance is no longer drawn then. -/
  draw : ∀ scene texture slot view, i.Interrupted scene texture slot view →
    ∀ meshes, (i.use (.setAlbedo scene texture)).draw meshes = .error (.notBaked i.mesh)

/-- Of the uses of an instance that fail, only a texture whose sampler is missed changes it. -/
theorem failures (i : MeshInstance) : i.Failures where
  keptOnError_iff next := by
    constructor
    · rintro hkept scene texture slot view rfl h
      exact h.same_iff.1 (hkept _ (congrArg Prod.fst h.setAlbedo_eq))
    · intro hall e he
      rcases use_of_error he with huse | ⟨scene, texture, slot, view, rfl, h⟩
      · rw [huse]
        exact .refl i
      · exact h.same_iff.2 (hall scene texture slot view rfl h)
  use_of_error _ _ := use_of_error
  interrupted _ _ _ _ h := ⟨congrArg Prod.fst h.setAlbedo_eq, h.use_eq⟩
  draw _ _ _ _ h meshes := by
    rw [h.use_eq]
    rfl

/-- A texture for an object, and in another group a sampler. -/
def litText : String :=
  "[\"s\",[\"v\",\"\"],[\"f\",\"\n@tag(albedo_texture) @group(1) @binding(0) var t: " ++
    "texture_2d<f32>;\n@tag(albedo_sampler) @group(2) @binding(0) var s: sampler;\n\"]]"

def lit : Compiled :=
  ⟨⟨"s", ⟨"v", ""⟩, ⟨"f", "  @group(1) @binding(0) var t: texture_2d<f32>;" ++
        "  @group(2) @binding(0) var s: sampler; "⟩, [], [], [],
      [⟨groupLabel "s" 1, 1,
          [⟨"t", "var", "texture_2d<f32>", some "albedo_texture", .texture, ⟨false, true⟩⟩]⟩,
        ⟨groupLabel "s" 2, 2,
          [⟨"s", "var", "sampler", some "albedo_sampler", .sampler, ⟨false, true⟩⟩]⟩]⟩,
    [[], [⟨0, ⟨false, true⟩, .texture⟩], [⟨0, ⟨false, true⟩, .sampler⟩]]⟩

/-- A scene whose first image is stored by itself, before there are samplers. -/
def unsampled : Option SceneResources := do
  let r ← (← (SceneResources.new SceneResources.painted).value).toOption
  let decoded ← r.decodeImages Image.decoder
  let image ← decoded.value.images.get? 1
  let (_, stored, _) ← (image.store {}).toOption
  return { decoded.value with images := decoded.value.images.modify 1 fun _ => stored }

/-- An instance with a texture and a sampler, baked. -/
def litInstance : MeshInstance :=
  (new 1 lit).value.run [.set .albedoTexture (.texture 7), .set .albedoSampler (.sampler 8), .bake]

/-- Given another texture, and with its sampler missed, the instance is baked no longer. -/
theorem not_keptOnError_lit : (compile 4 litText).value = some (.ok lit) ∧ litInstance.isBaked ∧
    ∃ scene, unsampled = some scene ∧ ¬litInstance.KeptOnError (.setAlbedo scene 0) := by
  have hcompile : (compile 4 litText).value = some (.ok lit) := by decide +kernel
  have hbaked : litInstance.isBaked := by decide +kernel
  have hscene : unsampled.map (fun scene => (scene.textureView 0, scene.sampler? 0)) =
      some (.ok ⟨0, 1, 1⟩, none) := by decide +kernel
  obtain ⟨scene, hunsampled, hfound⟩ := Option.map_eq_some_iff.1 hscene
  obtain ⟨hview, hsampler⟩ := Prod.mk.inj hfound
  refine ⟨hcompile, hbaked, scene, hunsampled, fun hkept => ?_⟩
  have hinterrupted : litInstance.Interrupted scene 0 ⟨.albedoTexture, 1, 0, "t"⟩ ⟨0, 1, 1⟩ :=
    ⟨by decide +kernel, hview, by decide +kernel, hsampler⟩
  have hsame := hkept _ (congrArg Prod.fst hinterrupted.setAlbedo_eq)
  rw [isBaked, (hinterrupted.same_iff.1 hsame).1] at hbaked
  cases hbaked

/-! ### Runs -/

/-- The uses of a run that succeed. -/
def succeeding (i : MeshInstance) : List Use → List Use
  | [] => []
  | next :: rest => match i.outcome next with
    | .ok () => next :: (i.use next).succeeding rest
    | .error _ => (i.use next).succeeding rest

/-- Where the scenes have the samplers of their textures, the uses that fail may be left out. -/
theorem run_succeeding (i : MeshInstance) {uses : List Use}
    (h : ∀ scene texture, .setAlbedo scene texture ∈ uses → scene.Sampled) :
    i.run (i.succeeding uses) = i.run uses := by
  induction uses generalizing i with
  | nil => rfl
  | cons next rest ih =>
    have hrest := ih (i.use next) fun scene texture hmem => h scene texture (.tail _ hmem)
    rw [succeeding]
    cases houtcome : i.outcome next with
    | ok _ => exact hrest
    | error e =>
      rcases use_of_error houtcome with huse | ⟨scene, texture, slot, view, rfl, hinterrupted⟩
      · rw [huse] at hrest ⊢
        rw [hrest, run, run, List.foldl_cons, huse]
      · obtain ⟨handle, hfound⟩ :=
          h scene texture List.mem_cons_self texture view hinterrupted.view
        rw [SceneResources.sampler, hinterrupted.sampler] at hfound
        cases hfound

end MeshInstance

end Diorama

import Diorama.Gltf.Reader
import Mathlib.Data.List.Nodup

/-! The attributes of a primitive in a document that was read: no semantic comes twice.  Semantics
have different names, so no name comes twice either. -/

namespace Diorama

/-! ### Reading -/

namespace Json

variable {α κ : Type} {item? : Json → Option α}

theorem of_mapM {β : Type} {f : β → Option α} {items : List β} {as : List α}
    (h : items.mapM f = some as) : ∀ a ∈ as, ∃ item, f item = some a := by
  induction items generalizing as with
  | nil =>
    cases h
    simp
  | cons item items ih =>
    simp only [List.mapM_cons, Option.bind_eq_bind, Option.bind_eq_some_iff] at h
    obtain ⟨a, ha, rest, hrest, has⟩ := h
    cases has
    exact List.forall_mem_cons.2 ⟨⟨item, ha⟩, ih hrest⟩

theorem of_list? {json : Json} {as : List α} (h : json.list? item? = some as) :
    ∀ a ∈ as, ∃ json, item? json = some a := by
  unfold list? at h
  split at h
  · exact of_mapM h
  · cases h

theorem Record.of_required? {r : Record} {name : String} {a : α}
    (h : r.required? name item? = some a) : ∃ json, item? json = some a := by
  obtain ⟨json, -, ha⟩ := Option.bind_eq_some_iff.1 h
  exact ⟨json, ha⟩

theorem Record.of_withDefault? {r : Record} {name : String} {default a : α}
    (h : r.withDefault? name default item? = some a) : a = default ∨ ∃ json, item? json = some a := by
  unfold withDefault? at h
  split at h
  · exact .inl (Option.some.inj h).symm
  · exact .inr ⟨_, h⟩

variable [BEq κ]

theorem sublist_lastValues (entries : List (κ × α)) : (lastValues entries).Sublist entries := by
  induction entries with
  | nil => exact .slnil
  | cons entry entries ih =>
    rw [lastValues]
    split
    · exact ih.cons _
    · exact ih.cons_cons _

theorem nodup_lastValues [LawfulBEq κ] (entries : List (κ × α)) :
    ((lastValues entries).map (·.1)).Nodup := by
  induction entries with
  | nil => exact List.nodup_nil
  | cons entry entries ih =>
    rw [lastValues]
    split
    · exact ih
    next hnew =>
      rw [List.map_cons, List.nodup_cons]
      refine ⟨?_, ih⟩
      intro hmem
      obtain ⟨other, hother, hkey⟩ := List.mem_map.1 hmem
      apply hnew
      rw [List.any_eq_true]
      exact ⟨other, (sublist_lastValues entries).subset hother, beq_iff_eq.2 hkey⟩

end Json

/-! ### Documents -/

namespace Gltf

open Json

/-- No semantic comes twice among the attributes. -/
def Primitive.Distinct (primitive : Primitive) : Prop := (primitive.attributes.map (·.1)).Nodup

theorem nodup_attributes? {json : Json} {attributes : List (Semantic × Nat)}
    (h : attributes? json = some attributes) : (attributes.map (·.1)).Nodup := by
  unfold attributes? at h
  simp only [Option.bind_eq_bind, Option.bind_eq_some_iff] at h
  obtain ⟨members, -, named, -, hsorted⟩ := h
  cases hsorted
  exact ((List.mergeSort_perm _ _).map _).nodup_iff.2 (nodup_lastValues _)

theorem Primitive.distinct_of_ofJson? {json : Json} {primitive : Primitive}
    (h : Primitive.ofJson? json = some primitive) : primitive.Distinct := by
  unfold Primitive.ofJson? at h
  simp only [Option.bind_eq_bind, Option.bind_eq_some_iff] at h
  obtain ⟨r, -, attributes, hattributes, indices, -, material, -, mode, -, targets, -, h⟩ := h
  cases h
  obtain ⟨json, hjson⟩ := Record.of_required? hattributes
  exact nodup_attributes? hjson

theorem Mesh.distinct_of_ofJson? {json : Json} {mesh : Mesh} (h : Mesh.ofJson? json = some mesh) :
    ∀ primitive ∈ mesh.primitives, primitive.Distinct := by
  unfold Mesh.ofJson? at h
  simp only [Option.bind_eq_bind, Option.bind_eq_some_iff] at h
  obtain ⟨r, -, name, -, primitives, hprimitives, weights, -, h⟩ := h
  cases h
  obtain ⟨json, hjson⟩ := Record.of_required? hprimitives
  intro primitive hprimitive
  obtain ⟨json, hjson⟩ := of_list? hjson primitive hprimitive
  exact Primitive.distinct_of_ofJson? hjson

theorem Document.distinct_of_ofBytes? {bytes : List UInt8} {document : Document}
    (h : Document.ofBytes? bytes = some document) :
    ∀ mesh ∈ document.meshes, ∀ primitive ∈ mesh.primitives, primitive.Distinct := by
  obtain ⟨json, -, h⟩ := Option.bind_eq_some_iff.1 h
  unfold Document.ofJson? at h
  simp only [Option.bind_eq_bind, Option.bind_eq_some_iff] at h
  obtain ⟨r, -, accessors, -, _, -, _, -, _, -, bufferViews, -, scene, -, _, -, _, -, _, -, images, -,
    materials, -, meshes, hmeshes, nodes, -, samplers, -, scenes, -, _, -, textures, -, h⟩ := h
  cases h
  intro mesh hmesh
  rcases Record.of_withDefault? hmeshes with rfl | ⟨json, hjson⟩
  · cases hmesh
  · obtain ⟨json, hjson⟩ := of_list? hjson mesh hmesh
    exact Mesh.distinct_of_ofJson? hjson

/-! ### Names -/

theorem toString_inj {a b : UInt32} (h : toString a = toString b) : a = b := by
  have hdigits : Nat.toDigits 10 a.toNat = Nat.toDigits 10 b.toNat := by
    rw [← Nat.toList_repr, ← Nat.toList_repr]
    exact congrArg String.toList h
  have hread (n : Nat) : Nat.ofDigitChars 10 (Nat.toDigits 10 n) 0 = n :=
    Nat.ofDigitChars_toDigits (by decide) (Nat.le_refl 10)
  apply UInt32.toNat_inj.1
  rw [← hread a.toNat, hdigits, hread]

theorem Semantic.name_injective : Function.Injective Semantic.name := by
  have hliteral : ∀ s : String, toString s = s := fun _ => rfl
  intro a b h
  have hletters := congrArg String.toList h
  -- Two meanings differ in one of the first two letters; after the same meaning stands the set.
  cases a <;> cases b <;>
    simp only [name, hliteral, String.toList_append] at hletters <;> simp at hletters ⊢
  all_goals exact toString_inj (String.toList_inj.1 hletters)

end Gltf

end Diorama

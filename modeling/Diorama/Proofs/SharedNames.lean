import Diorama.Component.Camera
import Diorama.Proofs.Baking

/-! Resources are kept under the names of variables, so tags whose variables have one name share
what is kept.  A tag's slot is bound to the tag's own resource where no other tag can take its
place, and nowhere else. -/

namespace Diorama

open Shader

namespace MeshInstance

variable {i after : MeshInstance} {tag other : Tag} {slot : TagSlot} {resource : Resource}
  {sets : List (Tag × Resource)} {p q : Tag → Bool} {name : String}

/-- Sets resources one after the other, as long as each can be set. -/
def setEach (i : MeshInstance) (sets : List (Tag × Resource)) : Except RenderError MeshInstance :=
  sets.foldlM (fun i next => do return (← i.set next.1 next.2).2) i

/-- The last of several settings that is of a tag with `p`. -/
def lastFor? (p : Tag → Bool) (sets : List (Tag × Resource)) : Option (Tag × Resource) :=
  sets.reverse.find? fun next => p next.1

/-- Whether a tag is declared at a variable with the given name. -/
def names (i : MeshInstance) (name : String) (tag : Tag) : Bool :=
  (i.slot? tag).any fun slot => slot.name == name

theorem lastFor?_concat (p : Tag → Bool) (sets : List (Tag × Resource)) (next : Tag × Resource) :
    lastFor? p (sets ++ [next]) = if p next.1 then some next else lastFor? p sets := by
  rw [lastFor?, List.reverse_append, List.reverse_singleton, List.singleton_append,
    List.find?_cons]
  cases p next.1 <;> rfl

/-- The last setting for more tags is the last for fewer, if it is for one of these. -/
theorem lastFor?_of_imp {next : Tag × Resource} (himp : ∀ tag, q tag → p tag)
    (h : lastFor? p sets = some next) (hq : q next.1) : lastFor? q sets = some next := by
  induction sets using List.reverseRecOn with
  | nil => cases h
  | append_singleton sets last ih =>
    rw [lastFor?_concat] at h ⊢
    by_cases hlast : p last.1
    · rw [if_pos hlast] at h
      obtain rfl := Option.some.inj h
      rw [if_pos hq]
    · rw [if_neg hlast] at h
      rw [if_neg fun hqlast => hlast (himp _ hqlast)]
      exact ih h

theorem setEach_concat {next : Tag × Resource} : i.setEach (sets ++ [next]) = .ok after ↔
    ∃ before declared, i.setEach sets = .ok before ∧
      before.set next.1 next.2 = .ok (declared, after) := by
  simp only [setEach, List.foldlM_append, bind_eq_ok_iff]
  constructor
  · rintro ⟨before, hbefore, hlast⟩
    obtain ⟨last, hlast, hnil⟩ := bind_eq_ok_iff.1 hlast
    obtain ⟨⟨declared, set⟩, hset, hpure⟩ := bind_eq_ok_iff.1 hlast
    obtain rfl : set = last := Except.ok.inj hpure
    obtain rfl : set = after := Except.ok.inj hnil
    exact ⟨before, declared, hbefore, hset⟩
  · rintro ⟨before, declared, hbefore, hset⟩
    exact ⟨before, hbefore, bind_eq_ok_iff.2 ⟨after, bind_eq_ok_iff.2 ⟨_, hset, rfl⟩, rfl⟩⟩

/-- What several settings make of an instance: under each name there is the last resource that was
set for a tag of that name. -/
structure Fills (i : MeshInstance) (sets : List (Tag × Resource)) (after : MeshInstance) :
    Prop where
  shader_eq : after.shader = i.shader
  slots_eq : after.slots = i.slots
  objectGroup_eq : after.objectGroup = i.objectGroup
  get?_eq : ∀ name, after.resources.get? name =
    ((lastFor? (i.names name) sets).map (·.2)).or (i.resources.get? name)
  kind_eq : ∀ name next, lastFor? (i.names name) sets = some next → next.2.kind = next.1.kind

theorem Fills.set {before : MeshInstance} {next : Tag × Resource} {declared : Bool}
    (h : i.Fills sets before) (hset : before.set next.1 next.2 = .ok (declared, after)) :
    i.Fills (sets ++ [next]) after := by
  have hslot : before.slot? next.1 = i.slot? next.1 := by rw [slot?, slot?, h.slots_eq]
  rcases set_eq_ok_iff.1 hset with ⟨hnone, -, rfl⟩ | ⟨slot, hsome, hkind, -, rfl⟩
  · have hnames : ∀ name, i.names name next.1 = false := fun name => by
      rw [names, ← hslot, hnone, Option.any_none]
    exact ⟨h.shader_eq, h.slots_eq, h.objectGroup_eq,
      fun name => by rw [lastFor?_concat, hnames, h.get?_eq]; rfl,
      fun name last hlast => h.kind_eq name last (by simpa [lastFor?_concat, hnames] using hlast)⟩
  · have hnames : ∀ name, i.names name next.1 = (slot.name == name) := fun name => by
      rw [names, ← hslot, hsome, Option.any_some]
    refine ⟨h.shader_eq, h.slots_eq, h.objectGroup_eq, fun name => ?_, fun name last hlast => ?_⟩
    · rw [ResourceMap.get?_set, h.get?_eq, lastFor?_concat, hnames]
      by_cases hname : name = slot.name
      · simp [hname]
      · simp [hname, Ne.symm hname]
    · rw [lastFor?_concat, hnames] at hlast
      split at hlast
      · obtain rfl := Option.some.inj hlast
        exact hkind
      · exact h.kind_eq name last hlast

theorem fills_of_setEach (h : i.setEach sets = .ok after) : i.Fills sets after := by
  induction sets using List.reverseRecOn generalizing after with
  | nil =>
    obtain rfl : i = after := Except.ok.inj h
    exact ⟨rfl, rfl, rfl, fun name => rfl, fun name next hnext => by cases hnext⟩
  | append_singleton sets next ih =>
    obtain ⟨before, declared, hbefore, hset⟩ := setEach_concat.1 h
    exact (ih hbefore).set hset

/-- What the slot of a tag in the object group is bound to: the last resource that was set for any
tag of the same name. -/
theorem bound_of_bake {source : Source} {baked : MeshInstance} {entry : GroupEntry}
    (hshader : i.shader.source = source) (hempty : i.resources = {})
    (hsets : i.setEach sets = .ok after) (hbake : after.bake = .ok baked)
    (hgroup : slot.group = i.objectGroup) (hentry : slot.entry? source = some entry)
    (hname : entry.name = slot.name) : ∃ bound next, baked.baked = some bound ∧
      lastFor? (i.names slot.name) sets = some next ∧
        bound[slot.slot]? = some (slot.slot, next.2) ∧ next.2.kind = entry.kind := by
  have hfills := fills_of_setEach hsets
  obtain ⟨group, bound, hfound, hbound, rfl⟩ := bake_eq_ok_iff.1 hbake
  rw [hfills.shader_eq, hshader, hfills.objectGroup_eq, ← hgroup] at hfound
  obtain ⟨resource, hslot, hresource, hkind⟩ :=
    (Group.holds_of_resolve (Compiled.bind_eq_ok_iff.1 hbound).2).bound_eq hfound hentry
  rw [hname, hfills.get?_eq, hempty] at hresource
  obtain ⟨next, hnext, rfl⟩ := Option.map_eq_some_iff.1 ((Option.or_none).symm.trans hresource)
  exact ⟨bound, next, rfl, hnext, hslot, hkind⟩

/-- Another tag at a variable of the same name can fill the slot of a tag: it takes resources of the
kind that the entry in the slot asks for. -/
def Rivals (i : MeshInstance) (tag other : Tag) : Prop :=
  other ≠ tag ∧ ∃ slot entry, i.slot? tag = some slot ∧ i.names slot.name other ∧
    slot.entry? i.shader.source = some entry ∧ other.kind = entry.kind

/-- Whenever resources are set one after the other and the instance bakes, the slot of the tag is
bound to the last resource that was set for the tag itself, if one was. -/
def KeepsOwn (i : MeshInstance) (tag : Tag) (slot : TagSlot) : Prop :=
  ∀ sets after baked next, i.setEach sets = .ok after → after.bake = .ok baked →
    lastFor? (· == tag) sets = some next →
      ∃ bound, baked.baked = some bound ∧ bound[slot.slot]? = some (slot.slot, next.2)

/-- What the slot of a tag in the object group is bound to, whatever is set and then baked: the last
resource that was set for any tag of the same name.  It is the tag's own where no other tag can take
its place, and nowhere else if the tag is ever bound at all. -/
structure BindsTag (i : MeshInstance) (tag : Tag) (slot : TagSlot) : Prop where
  last : ∀ sets after baked, i.setEach sets = .ok after → after.bake = .ok baked →
    ∃ bound next, baked.baked = some bound ∧ lastFor? (i.names slot.name) sets = some next ∧
      bound[slot.slot]? = some (slot.slot, next.2)
  own : (∀ other, ¬i.Rivals tag other) → i.KeepsOwn tag slot
  only : (∃ sets after baked own, i.setEach sets = .ok after ∧ after.bake = .ok baked ∧
      lastFor? (· == tag) sets = some own) →
    i.KeepsOwn tag slot → ∀ other, ¬i.Rivals tag other

theorem keepsOwn_of_not_rivals {entry : GroupEntry} (hempty : i.resources = {})
    (hslot : i.slot? tag = some slot) (hgroup : slot.group = i.objectGroup)
    (hentry : slot.entry? i.shader.source = some entry) (hname : entry.name = slot.name)
    (h : ∀ other, ¬i.Rivals tag other) : i.KeepsOwn tag slot := by
  intro sets after baked own hsets hbake hown
  obtain ⟨bound, next, hbound, hnext, hat, hkind⟩ :=
    bound_of_bake rfl hempty hsets hbake hgroup hentry hname
  have hnames : i.names slot.name next.1 := by simpa using List.find?_some hnext
  have htag : next.1 = tag := by
    by_contra hne
    refine h next.1 ⟨hne, slot, entry, hslot, hnames, hentry, ?_⟩
    rw [← hkind, (fills_of_setEach hsets).kind_eq slot.name next hnext]
  have himp : ∀ other, (other == tag) = true → i.names slot.name other = true := by
    rintro other hother
    obtain rfl : other = tag := by simpa using hother
    simp [names, hslot]
  obtain rfl : next = own := by
    have hlast := lastFor?_of_imp himp hnext (by simpa using htag)
    exact Option.some.inj (hlast.symm.trans hown)
  exact ⟨bound, hbound, hat⟩

/-- There are several resources of each kind. -/
theorem exists_resource_ne (kind : BindingKind) (resource : Resource) :
    ∃ other : Resource, other.kind = kind ∧ other ≠ resource := by
  cases kind with
  | uniform =>
    by_cases h : resource = .buffer 0
    · exact ⟨.buffer 1, rfl, by rw [h]; decide⟩
    · exact ⟨.buffer 0, rfl, Ne.symm h⟩
  | texture =>
    by_cases h : resource = .texture 0
    · exact ⟨.texture 1, rfl, by rw [h]; decide⟩
    · exact ⟨.texture 0, rfl, Ne.symm h⟩
  | sampler =>
    by_cases h : resource = .sampler 0
    · exact ⟨.sampler 1, rfl, by rw [h]; decide⟩
    · exact ⟨.sampler 0, rfl, Ne.symm h⟩

/-- An instance stays ready to bake when a resource takes the place of one of its kind. -/
theorem exists_bake_of_set {old new : Resource} (hbake : ∃ baked, i.bake = .ok baked)
    (hold : i.resources.get? name = some old) (hkind : new.kind = old.kind)
    (hafter : after = { i with resources := i.resources.set name new, baked := none }) :
    ∃ baked, after.bake = .ok baked := by
  obtain ⟨group, hgroup, hlayout, hentries⟩ := exists_bake_iff.1 hbake
  rw [hafter]
  refine exists_bake_iff.2 ⟨group, hgroup, hlayout, fun entry hentry => ?_⟩
  obtain ⟨resource, hresource, hentrykind⟩ := hentries entry hentry
  simp only [ResourceMap.get?_set]
  by_cases hname : entry.name = name
  · obtain rfl : old = resource := by
      rw [hname, hold] at hresource
      exact Option.some.inj hresource
    exact ⟨new, if_pos hname, hkind.trans hentrykind⟩
  · exact ⟨resource, (if_neg hname).trans hresource, hentrykind⟩

theorem not_rivals_of_keepsOwn {entry : GroupEntry} (hempty : i.resources = {})
    (hslot : i.slot? tag = some slot) (hgroup : slot.group = i.objectGroup)
    (hentry : slot.entry? i.shader.source = some entry) (hname : entry.name = slot.name)
    (hbakes : ∃ sets after baked own, i.setEach sets = .ok after ∧ after.bake = .ok baked ∧
      lastFor? (· == tag) sets = some own)
    (hkeeps : i.KeepsOwn tag slot) : ∀ other, ¬i.Rivals tag other := by
  rintro other ⟨hne, slot', entry', hslot', hnames, hentry', hkind⟩
  obtain rfl : slot' = slot := Option.some.inj (hslot'.symm.trans hslot)
  obtain rfl : entry' = entry := Option.some.inj (hentry'.symm.trans hentry)
  obtain ⟨sets, after, baked, own, hsets, hbake, hown⟩ := hbakes
  -- One more resource for the other tag, which is not the last one of the tag itself.
  obtain ⟨resource, hresource, hdiffers⟩ := exists_resource_ne other.kind own.2
  obtain ⟨rival, hrival, hrivalname⟩ := (Option.any_eq_true _ _).1 hnames
  have hfills := fills_of_setEach hsets
  have hset : after.set other resource = .ok (true,
      { after with resources := after.resources.set rival.name resource, baked := none }) := by
    refine set_eq_ok_iff.2 (.inr ⟨rival, ?_, hresource, rfl, rfl⟩)
    rw [slot?, hfills.slots_eq]
    exact hrival
  have hmore : i.setEach (sets ++ [(other, resource)]) = .ok _ :=
    setEach_concat.2 ⟨after, true, hsets, hset⟩
  obtain ⟨bound, next, -, hnext, -, hnextkind⟩ :=
    bound_of_bake rfl hempty hsets hbake hgroup hentry hname
  have hold : after.resources.get? rival.name = some next.2 := by
    rw [hfills.get?_eq, eq_of_beq hrivalname, hnext]
    rfl
  obtain ⟨rebaked, hrebake⟩ := exists_bake_of_set ⟨baked, hbake⟩ hold
    (hresource.trans (hkind.trans hnextkind.symm)) rfl
  -- What is bound now is the other tag's resource, and also the tag's own.
  obtain ⟨bound', next', hbound', hnext', hat, -⟩ :=
    bound_of_bake rfl hempty hmore hrebake hgroup hentry hname
  rw [lastFor?_concat, if_pos hnames] at hnext'
  obtain rfl := Option.some.inj hnext'
  have hown' : lastFor? (· == tag) (sets ++ [(other, resource)]) = some own := by
    rw [lastFor?_concat, if_neg (by simpa using hne), hown]
  obtain ⟨bound'', hbound'', hat'⟩ := hkeeps _ _ _ own hmore hrebake hown'
  obtain rfl : bound'' = bound' := Option.some.inj (hbound''.symm.trans hbound')
  rw [hat, Option.some.injEq, Prod.mk.injEq] at hat'
  exact hdiffers hat'.2

end MeshInstance

/-! ### Cameras -/

namespace Camera

variable {c : Camera} {slots : List TagSlot} {tag : Tag} {slot : TagSlot}

/-- The last of several tags that is declared at a variable with the given name. -/
def lastNamed? (slots : List TagSlot) (name : String) (tags : List (Tag × (Uniforms → Handle))) :
    Option (Tag × (Uniforms → Handle)) :=
  tags.reverse.find? fun next => (slotOf? slots next.1).any fun slot => slot.name == name

theorem get?_of_resources {tags : List (Tag × (Uniforms → Handle))} {map filled : ResourceMap}
    (h : c.resources slots tags map = .ok filled) (name : String) : filled.get? name =
      ((lastNamed? slots name tags).bind fun next =>
        c.frame.buffers.map fun u => .buffer (next.2 u)).or (map.get? name) := by
  induction tags generalizing map with
  | nil =>
    obtain rfl : map = filled := Except.ok.inj h
    rfl
  | cons first rest ih =>
    obtain ⟨tag, choose⟩ := first
    have hlast : lastNamed? slots name ((tag, choose) :: rest) =
        (lastNamed? slots name rest).or
          (if (slotOf? slots tag).any fun slot => slot.name == name then some (tag, choose)
            else none) := by
      rw [lastNamed?, List.reverse_cons, List.find?_append, List.find?_singleton]
      rfl
    rw [resources] at h
    cases hslot : slotOf? slots tag with
    | none =>
      rw [hlast, hslot]
      rw [hslot] at h
      simpa using ih h
    | some slot =>
      cases hbuffers : c.frame.buffers with
      | none => simp [hslot, hbuffers] at h
      | some u =>
        simp only [hslot, hbuffers] at h
        rw [hlast, hslot, ih h, ResourceMap.get?_set, hbuffers]
        cases lastNamed? slots name rest with
        | some next => rfl
        | none =>
          by_cases hname : name = slot.name
          · simp [hname]
          · simp [hname, Ne.symm hname]

theorem bindTo_eq_ok_iff {shader : Compiled} {bound : BindGroup} :
    (c.bindTo shader).value = .ok bound ↔ ∃ group filled,
      shader.source.group? (viewGroup shader.source) = some group ∧
        c.resources (tagSlots shader.source Tag.camera).value tagged {} = .ok filled ∧
          shader.bind Resource.kind filled.get? group = .ok bound := by
  simp only [bindTo]
  cases hgroup : shader.source.group? (viewGroup shader.source) with
  | none => simp
  | some group =>
    dsimp only
    rw [Logged.value_bind]
    cases hfilled : c.resources (tagSlots shader.source Tag.camera).value tagged {} with
    | error e => simp
    | ok filled =>
      cases hbind : shader.bind Resource.kind filled.get? group with
      | error e => simp [hbind, Except.mapError]
      | ok found => simp [hbind, Except.mapError]

/-- What the slot of a tag in the camera group is bound to: the buffer of the last tag of the same
name. -/
theorem bound_of_bindTo {shader : Compiled} {bound : BindGroup} {entry : GroupEntry}
    (hbind : (c.bindTo shader).value = .ok bound) (hgroup : slot.group = viewGroup shader.source)
    (hentry : slot.entry? shader.source = some entry) (hname : entry.name = slot.name) :
    ∃ u next, c.frame.buffers = some u ∧
      lastNamed? (tagSlots shader.source Tag.camera).value slot.name tagged = some next ∧
        bound[slot.slot]? = some (slot.slot, .buffer (next.2 u)) := by
  obtain ⟨group, filled, hfound, hfilled, hbound⟩ := bindTo_eq_ok_iff.1 hbind
  rw [← hgroup] at hfound
  obtain ⟨resource, hslot, hresource, -⟩ :=
    (Group.holds_of_resolve (Compiled.bind_eq_ok_iff.1 hbound).2).bound_eq hfound hentry
  have hempty : ({} : ResourceMap).get? slot.name = none := rfl
  rw [hname, get?_of_resources hfilled, hempty, Option.or_none] at hresource
  obtain ⟨next, hnext, hmap⟩ := Option.bind_eq_some_iff.1 hresource
  obtain ⟨u, hu, rfl⟩ := Option.map_eq_some_iff.1 hmap
  exact ⟨u, next, hu, hnext, hslot⟩

theorem eq_of_tag_eq {first second : Tag × (Uniforms → Handle)} (hfirst : first ∈ tagged)
    (hsecond : second ∈ tagged) (h : first.1 = second.1) : first = second :=
  List.inj_on_of_nodup_map (by decide) hfirst hsecond h

theorem eq_of_handle_eq {u : Uniforms} (hnodup : u.toList.Nodup)
    {first second : Tag × (Uniforms → Handle)} (hfirst : first ∈ tagged) (hsecond : second ∈ tagged)
    (h : first.2 u = second.2 u) : first = second := by
  have hhandles : (tagged.map fun next => next.2 u).Nodup := hnodup
  exact List.inj_on_of_nodup_map hhandles hfirst hsecond h

/-- The slot of a tag in the camera group is bound to the buffer of `last`, the last tag of the
same name.  It is the tag's own if that is the tag itself, and nowhere else if there are three
buffers. -/
structure BindsTag (slots : List TagSlot) (bound : BindGroup) (u : Uniforms) (tag : Tag)
    (choose : Uniforms → Handle) (slot : TagSlot) (last : Tag × (Uniforms → Handle)) : Prop where
  last_eq : lastNamed? slots slot.name tagged = some last
  bound_eq : bound[slot.slot]? = some (slot.slot, .buffer (last.2 u))
  own : last.1 = tag → bound[slot.slot]? = some (slot.slot, .buffer (choose u))
  only : u.toList.Nodup → bound[slot.slot]? = some (slot.slot, .buffer (choose u)) → last.1 = tag

theorem bindsTag_of_bindTo {shader : Compiled} {bound : BindGroup} {entry : GroupEntry}
    {choose : Uniforms → Handle} (hbind : (c.bindTo shader).value = .ok bound)
    (hchoose : (tag, choose) ∈ tagged) (hgroup : slot.group = viewGroup shader.source)
    (hentry : slot.entry? shader.source = some entry) (hname : entry.name = slot.name) :
    ∃ u last, c.frame.buffers = some u ∧
      BindsTag (tagSlots shader.source Tag.camera).value bound u tag choose slot last := by
  obtain ⟨u, last, hu, hlast, hat⟩ := bound_of_bindTo hbind hgroup hentry hname
  have hmem : last ∈ tagged := List.mem_reverse.1 (List.mem_of_find?_eq_some hlast)
  refine ⟨u, last, hu, hlast, hat, fun htag => ?_, fun hnodup hown => ?_⟩
  · rw [eq_of_tag_eq hmem hchoose htag] at hat
    exact hat
  · rw [hat, Option.some.injEq, Prod.mk.injEq, Resource.buffer.injEq] at hown
    rw [eq_of_handle_eq hnodup hmem hchoose hown.2]

end Camera

/-- In a shader that was read, tags are bound as far as their names are their own. -/
theorem slots_bound_to_own_iff {text : String} {shader : Compiled}
    (hshader : (Source.parse text).value = some (.ok shader.source)) :
    (∀ mesh tag slot,
      let i := (MeshInstance.new mesh shader).value
      i.slot? tag = some slot → slot.group = i.objectGroup → i.BindsTag tag slot) ∧
      ∀ (c : Camera) bound, (c.bindTo shader).value = .ok bound → ∀ tag choose slot,
        (tag, choose) ∈ Camera.tagged →
          slotOf? (tagSlots shader.source Tag.camera).value tag = some slot →
            slot.group = viewGroup shader.source → ∃ u last, c.frame.buffers = some u ∧
              Camera.BindsTag (tagSlots shader.source Tag.camera).value bound u tag choose slot
                last := by
  have hdistinct := Source.distinct_of_parse hshader
  constructor
  · intro mesh tag slot i hslot hgroup
    obtain ⟨entry, hentry, hname, -⟩ := entry?_of_slotOf? hdistinct hslot
    refine ⟨fun sets after baked hsets hbake => ?_, fun h => ?_, fun hbakes hkeeps => ?_⟩
    · obtain ⟨bound, next, hbound, hnext, hat, -⟩ :=
        MeshInstance.bound_of_bake rfl rfl hsets hbake hgroup hentry hname
      exact ⟨bound, next, hbound, hnext, hat⟩
    · exact MeshInstance.keepsOwn_of_not_rivals rfl hslot hgroup hentry hname h
    · exact MeshInstance.not_rivals_of_keepsOwn rfl hslot hgroup hentry hname hbakes hkeeps
  · intro c bound hbind tag choose slot hchoose hslot hgroup
    obtain ⟨entry, hentry, hname, -⟩ := entry?_of_slotOf? hdistinct hslot
    exact Camera.bindsTag_of_bindTo hbind hchoose hgroup hentry hname

/-- Under names of their own, an object's matrix and a camera's matrix fill their own slots. -/
theorem slots_bound_to_own_iff_namedApart :
    let shader := MeshInstance.namedApart
    let i := (MeshInstance.new 1 shader).value
    let c := { Camera.default with frame := { ViewFrame.default with buffers := some ⟨0, 1, 2⟩ } }
    (Source.parse (MeshInstance.twoStages "n")).value = some (.ok shader.source) ∧
      i.KeepsOwn .localToWorld ⟨.localToWorld, 1, 0, "m"⟩ ∧
        ((i.setEach [(.localToWorld, .buffer 7), (.inverseLocalToWorld, .buffer 8)]).bind
          (·.bake)).map (·.baked) = .ok (some [(0, .buffer 7)]) ∧
          ∃ bound, (c.bindTo shader).value = .ok bound ∧ bound[0]? = some (0, .buffer 1) := by
  intro shader i c
  have hparse : (Source.parse (MeshInstance.twoStages "n")).value = some (.ok shader.source) :=
    (compile_eq_ok_iff.1 MeshInstance.compile_namedApart).1
  obtain ⟨hobject, hcamera⟩ := slots_bound_to_own_iff hparse
  have hslot : i.slot? .localToWorld = some ⟨.localToWorld, 1, 0, "m"⟩ := by decide +kernel
  have hbind : (c.bindTo shader).value = .ok [(0, .buffer 1)] := by decide +kernel
  refine ⟨hparse, (hobject 1 _ _ hslot (by decide +kernel)).own ?_, by decide +kernel, _, hbind, ?_⟩
  · rintro other ⟨hne, slot, entry, hfound, hnames, -⟩
    obtain rfl : slot = ⟨.localToWorld, 1, 0, "m"⟩ := Option.some.inj (hfound.symm.trans hslot)
    revert hne hnames
    cases other <;> decide +kernel
  · obtain ⟨u, last, hu, hbinds⟩ := hcamera c _ hbind .view (·.second) ⟨.view, 0, 0, "v"⟩
      (by simp [Camera.tagged]) (by decide +kernel) (by decide +kernel)
    obtain rfl : u = ⟨0, 1, 2⟩ := Option.some.inj hu.symm
    refine hbinds.own ?_
    have hlast : (Camera.lastNamed? (tagSlots shader.source Tag.camera).value "v"
        Camera.tagged).map (·.1) = some .view := by decide +kernel
    rw [hbinds.last_eq] at hlast
    exact Option.some.inj hlast

/-- Two matrices of an object under one name. -/
def namedAlike : Compiled := MeshInstance.twoStagesShader "m" ⟨true, true⟩ ⟨true, true⟩

theorem compile_namedAlike :
    (compile 4 (MeshInstance.twoStages "m")).value = some (.ok namedAlike) := by
  decide +kernel

/-- Under one name, an object's matrix can be taken for the other. -/
theorem not_keepsOwn_namedAlike :
    (Source.parse (MeshInstance.twoStages "m")).value = some (.ok namedAlike.source) ∧
      ∃ i slot, i = (MeshInstance.new 1 namedAlike).value ∧ i.slot? .localToWorld = some slot ∧
        slot.group = i.objectGroup ∧ ¬i.KeepsOwn .localToWorld slot := by
  refine ⟨(compile_eq_ok_iff.1 compile_namedAlike).1, _, ⟨.localToWorld, 1, 0, "m"⟩, rfl,
    by decide +kernel, by decide +kernel, fun hkeeps => ?_⟩
  let sets : List (Tag × Resource) :=
    [(.localToWorld, .buffer 7), (.inverseLocalToWorld, .buffer 8)]
  have hrun : (((MeshInstance.new 1 namedAlike).value.setEach sets).bind (·.bake)).map (·.baked) =
      .ok (some [(0, .buffer 8)]) := by decide +kernel
  cases hbaked : ((MeshInstance.new 1 namedAlike).value.setEach sets).bind (·.bake) with
  | error e => simp [hbaked, Except.map] at hrun
  | ok baked =>
    obtain ⟨after, hsets, hbake⟩ := bind_eq_ok_iff.1 hbaked
    obtain ⟨bound, hsome, hat⟩ := hkeeps sets after baked (.localToWorld, .buffer 7) hsets hbake rfl
    have hbound : baked.baked = some [(0, .buffer 8)] := by
      rw [hbaked] at hrun
      exact Except.ok.inj hrun
    obtain rfl : [(0, .buffer 8)] = bound := Option.some.inj (hbound.symm.trans hsome)
    simp at hat

end Diorama

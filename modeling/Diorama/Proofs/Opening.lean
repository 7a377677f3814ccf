import Diorama.Proofs.Calls

/-! The latch that tells when all images of a scene have been tried.  It waits for as many arrivals
as the scene has images, while each decoding tries the images that have no pixels then.  So it never
opens early, and it stays open; but an image that a caller gave its pixels, or took out, before the
first decoding is not tried there, and its arrival does not come. -/

namespace Diorama

theorem Latch.remaining_arrive (latch : Latch) :
    latch.arrive.value.2.remaining = latch.remaining - 1 := by
  obtain ⟨remaining⟩ := latch
  cases remaining <;> rfl

namespace Registry

variable {α : Type} {r : Registry α}

/-- The identifiers in use. -/
def uids (r : Registry α) : List Uid := r.toList.map (·.1)

theorem nodup_uids (r : Registry α) : r.uids.Nodup :=
  List.pairwise_map.2 (r.pairwise_toList.imp Nat.ne_of_lt)

theorem WellFormed.mem_uids (h : r.WellFormed) {uid : Uid} :
    uid ∈ r.uids ↔ ∃ a, r.get? uid = some a := by
  simp only [uids, List.mem_map, Prod.exists, mem_toList, h.get?_eq]
  constructor
  · rintro ⟨_, a, ha, rfl⟩
    exact ⟨a, ha⟩
  · rintro ⟨a, ha⟩
    exact ⟨uid, a, ha, rfl⟩

theorem length_uids (r : Registry α) : r.uids.length = r.size := by
  have hobjects := congrArg List.length r.objects_eq
  rw [objects, List.length_map, List.length_filterMap_eq_countP] at hobjects
  rw [uids, List.length_map, hobjects, size_eq_countP]
  rfl

theorem WellFormed.size_insertAll (h : r.WellFormed) (makes : List (Uid → α)) :
    (r.insertAll makes).2.size = r.size + makes.length := by
  induction makes generalizing r with
  | nil => rfl
  | cons make rest ih =>
    rw [Registry.insertAll, List.length_cons]
    exact (ih (h.insertWith make)).trans (by rw [h.size_insertWith]; omega)

end Registry

/-- What is done about the images of a scene: those without pixels are decoded, or a caller gives
pixels to one of them, or takes one out. -/
inductive ImageStep where
  | decode
  | paint (uid : Uid) (bitmap : Bitmap)
  | discard (uid : Uid)
deriving DecidableEq

/-- Whether a step is a caller's and is about the image under an identifier. -/
def ImageStep.Touches (uid : Uid) : ImageStep → Prop
  | decode => False
  | paint other _ => other = uid
  | discard other => other = uid

namespace SceneResources

def paint (r : SceneResources) (uid : Uid) (bitmap : Bitmap) : SceneResources :=
  { r with images := r.images.modify uid fun image => { image with bitmap := some bitmap } }

def discard (r : SceneResources) (uid : Uid) : SceneResources :=
  { r with images := (r.images.remove uid).value.2 }

/-- The images that have no pixels yet. -/
def awaiting (r : SceneResources) : List Uid :=
  (r.images.toList.filter fun entry => !entry.2.isDecoded).map (·.1)

variable {r after : SceneResources} {uid : Uid} {image : SceneImage}

/-- The images that a step tries to decode. -/
def tries (r : SceneResources) : ImageStep → List Uid
  | .decode => r.awaiting
  | .paint _ _ | .discard _ => []

theorem length_awaiting (r : SceneResources) : r.awaiting.length = r.undecoded.length := by
  rw [awaiting, undecoded, Registry.objects, List.filter_map, List.length_map, List.length_map]
  rfl

theorem nodup_awaiting (r : SceneResources) : r.awaiting.Nodup :=
  r.images.nodup_uids.sublist (List.filter_sublist.map _)

theorem mem_awaiting (h : r.images.WellFormed) :
    uid ∈ r.awaiting ↔ ∃ image, r.images.get? uid = some image ∧ image.isDecoded = false := by
  simp only [awaiting, List.mem_map, List.mem_filter, Prod.exists, Registry.mem_toList, h.get?_eq,
    Bool.not_eq_true']
  constructor
  · rintro ⟨_, image, himage, rfl⟩
    exact ⟨image, himage⟩
  · rintro ⟨image, himage⟩
    exact ⟨uid, image, himage, rfl⟩

theorem remaining_finishDecodes (r : SceneResources) (results : List (Nat × Option Bitmap)) :
    (r.finishDecodes results).value.decoded.remaining = r.decoded.remaining - results.length := by
  induction results generalizing r with
  | nil => rfl
  | cons result rest ih =>
    have hone : (r.finishDecode result.1 result.2).value.decoded.remaining =
        r.decoded.remaining - 1 := by
      cases result.2 with
      | none => exact r.decoded.remaining_arrive
      | some bitmap =>
        refine Eq.trans (Latch.remaining_arrive _) (congrArg (fun l : Latch => l.remaining - 1) ?_)
        unfold setBitmap
        split <;> rfl
    rw [finishDecodes, Logged.value_bind, ih, hone, List.length_cons]
    omega

/-- A decoding arrives once for each image that it tries. -/
theorem remaining_decodeImages {decoder : ImageDecoder} {logged : Logged SceneResources}
    (h : r.decodeImages decoder = some logged) :
    logged.value.decoded.remaining = r.decoded.remaining - r.awaiting.length := by
  rw [value_of_decodeImages h, remaining_finishDecodes, List.length_map, length_awaiting]

end SceneResources

open SceneResources

/-- The resources of a scene, and the images that were tried so far, each as often as it was. -/
structure Watched where
  resources : SceneResources
  attempts : List Uid

namespace Watched

def act (s : Watched) (decoder : ImageDecoder) : ImageStep → Option Watched
  | .decode => (s.resources.decodeImages decoder).map fun logged =>
    ⟨logged.value, s.attempts ++ s.resources.awaiting⟩
  | .paint uid bitmap => some { s with resources := s.resources.paint uid bitmap }
  | .discard uid => some { s with resources := s.resources.discard uid }

/-- The steps one after the other.  There is no result where a decoding has none. -/
def run (s : Watched) (decoder : ImageDecoder) (steps : List ImageStep) : Option Watched :=
  steps.foldlM (act · decoder) s

/-- What holds of the images of a scene after any steps. -/
structure Counts (start : SceneResources) (s : Watched) : Prop where
  wellFormed : s.resources.images.WellFormed
  numbered : s.resources.Numbered
  remaining : s.resources.decoded.remaining = start.decoded.remaining - s.attempts.length
  data : ∀ uid image, s.resources.images.get? uid = some image →
    ∃ first, start.images.get? uid = some first ∧ image.data = first.data
  /-- A decoding leaves no image without an attempt. -/
  settled : s.attempts ≠ [] → ∀ uid image, s.resources.images.get? uid = some image →
    image.isDecoded ∨ uid ∈ s.attempts

variable {decoder : ImageDecoder} {start r : SceneResources} {s after : Watched} {step : ImageStep}
  {steps : List ImageStep}

/-! ### One step -/

/-- What one step does.  Each attempt that it makes is an arrival at the latch, and no image loses
its pixels. -/
structure Acts (step : ImageStep) (s after : Watched) : Prop where
  wellFormed : after.resources.images.WellFormed
  imageUid?_eq : ∀ index, after.resources.imageUid? index = s.resources.imageUid? index
  attempts_eq : after.attempts = s.attempts ++ s.resources.tries step
  remaining_eq : after.resources.decoded.remaining =
    s.resources.decoded.remaining - (s.resources.tries step).length
  exists_before : ∀ uid image, after.resources.images.get? uid = some image →
    ∃ before, s.resources.images.get? uid = some before ∧ image.index = before.index ∧
      image.data = before.data ∧ (before.isDecoded → image.isDecoded)

theorem acts_decode (hwell : s.resources.images.WellFormed) (hnumbered : s.resources.Numbered)
    (hact : s.act decoder .decode = some after) : Acts .decode s after := by
  obtain ⟨logged, hdecode, rfl⟩ := Option.map_eq_some_iff.1 hact
  obtain ⟨hdecodes, hget⟩ := decodes_decodeImages hwell hnumbered hdecode
  refine ⟨hdecodes.images, hdecodes.imageUid?_eq, rfl, remaining_decodeImages hdecode,
    fun uid image himage => ?_⟩
  obtain ⟨before, hbefore, rfl⟩ := Option.map_eq_some_iff.1 ((hget uid).symm.trans himage)
  refine ⟨before, hbefore, rfl, rfl, fun hdecoded => ?_⟩
  rw [SceneImage.isDecoded_decoded, hdecoded, Bool.true_or]

theorem acts_paint (hwell : s.resources.images.WellFormed) (uid : Uid) (bitmap : Bitmap) :
    Acts (.paint uid bitmap) s { s with resources := s.resources.paint uid bitmap } := by
  refine ⟨hwell.modify _ _, fun _ => rfl, (List.append_nil _).symm, rfl,
    fun other image himage => ?_⟩
  rw [paint, hwell.get?_modify] at himage
  split at himage
  next hother =>
    obtain ⟨before, hbefore, rfl⟩ := Option.map_eq_some_iff.1 himage
    exact ⟨before, hother ▸ hbefore, rfl, rfl, fun _ => rfl⟩
  · exact ⟨image, himage, rfl, rfl, id⟩

theorem acts_discard (hwell : s.resources.images.WellFormed) (uid : Uid) :
    Acts (.discard uid) s { s with resources := s.resources.discard uid } := by
  refine ⟨hwell.remove uid, fun _ => rfl, (List.append_nil _).symm, rfl,
    fun other image himage => ?_⟩
  rw [SceneResources.discard, hwell.get?_remove] at himage
  split at himage
  · cases himage
  · exact ⟨image, himage, rfl, rfl, id⟩

theorem acts_of_act (hwell : s.resources.images.WellFormed) (hnumbered : s.resources.Numbered)
    (hact : s.act decoder step = some after) : Acts step s after := by
  cases step with
  | decode => exact acts_decode hwell hnumbered hact
  | paint uid bitmap =>
    obtain rfl := Option.some.inj hact
    exact acts_paint hwell uid bitmap
  | discard uid =>
    obtain rfl := Option.some.inj hact
    exact acts_discard hwell uid

namespace Counts

theorem acts (h : Counts start s) (hact : Acts step s after) : Counts start after := by
  refine ⟨hact.wellFormed, fun uid image himage => ?_, ?_, fun uid image himage => ?_,
    fun hsome uid image himage => ?_⟩
  · obtain ⟨before, hbefore, hindex, -⟩ := hact.exists_before uid image himage
    rw [hact.imageUid?_eq, hindex]
    exact h.numbered uid before hbefore
  · rw [hact.remaining_eq, hact.attempts_eq, h.remaining, List.length_append]
    omega
  · obtain ⟨before, hbefore, -, hdata, -⟩ := hact.exists_before uid image himage
    obtain ⟨first, hfirst, hsame⟩ := h.data uid before hbefore
    exact ⟨first, hfirst, hdata.trans hsame⟩
  · obtain ⟨before, hbefore, -, -, hdecoded⟩ := hact.exists_before uid image himage
    have htried := hact.attempts_eq
    cases step with
    | decode =>
      rw [htried, List.mem_append]
      cases hbitmap : before.isDecoded with
      | true => exact .inl (hdecoded hbitmap)
      | false => exact .inr (.inr ((mem_awaiting h.wellFormed).2 ⟨before, hbefore, hbitmap⟩))
    | paint | discard =>
      rw [tries, List.append_nil] at htried
      rw [htried] at hsome ⊢
      exact (h.settled hsome uid before hbefore).imp_left hdecoded

end Counts

/-! ### Runs -/

theorem run_cons (s : Watched) (step : ImageStep) (steps : List ImageStep) :
    s.run decoder (step :: steps) = (s.act decoder step).bind (·.run decoder steps) :=
  List.foldlM_cons

theorem run_append (s : Watched) (steps more : List ImageStep) :
    s.run decoder (steps ++ more) = (s.run decoder steps).bind (·.run decoder more) :=
  List.foldlM_append

namespace Counts

theorem run (h : Counts start s) (hrun : s.run decoder steps = some after) :
    Counts start after ∧ ∃ tried, after.attempts = s.attempts ++ tried := by
  induction steps generalizing s with
  | nil =>
    obtain rfl := Option.some.inj hrun
    exact ⟨h, [], (List.append_nil _).symm⟩
  | cons step rest ih =>
    rw [run_cons] at hrun
    obtain ⟨between, hact, hrest⟩ := Option.bind_eq_some_iff.1 hrun
    have hacts := acts_of_act h.wellFormed h.numbered hact
    obtain ⟨hcounts, more, hmore⟩ := ih (h.acts hacts) hrest
    rw [hacts.attempts_eq, List.append_assoc] at hmore
    exact ⟨hcounts, _, hmore⟩

/-- Steps return where the bytes of the images can be read. -/
theorem isSome_run (h : Counts start s)
    (hread : ∀ uid image, start.images.get? uid = some image → image.data.bytes?.isSome)
    (steps : List ImageStep) : (s.run decoder steps).isSome := by
  induction steps generalizing s with
  | nil => rfl
  | cons step rest ih =>
    have hact : ∃ after, s.act decoder step = some after := by
      cases step with
      | paint => exact ⟨_, rfl⟩
      | discard => exact ⟨_, rfl⟩
      | decode =>
        refine Option.isSome_iff_exists.1 (Option.isSome_map.trans ?_)
        refine isSome_decodeImages_iff.2 fun image himage => ?_
        obtain ⟨uid, hget⟩ := h.wellFormed.mem_objects.1 (List.mem_filter.1 himage).1
        obtain ⟨first, hfirst, hdata⟩ := h.data uid image hget
        rw [hdata]
        exact hread uid first hfirst
    obtain ⟨after, hact⟩ := hact
    rw [run_cons, hact]
    exact ih (h.acts (acts_of_act h.wellFormed h.numbered hact))

/-- The latch is open once there were as many attempts as it waits for. -/
theorem imagesReady_iff (h : Counts start s) :
    s.resources.imagesReady ↔ start.decoded.remaining ≤ s.attempts.length := by
  rw [imagesReady, Latch.isOpen, beq_iff_eq, h.remaining, Nat.sub_eq_zero_iff_le]

theorem imagesReady_of_run (h : Counts start s) (hready : s.resources.imagesReady)
    (hrun : s.run decoder steps = some after) : after.resources.imagesReady := by
  obtain ⟨hcounts, tried, hattempts⟩ := h.run hrun
  rw [h.imagesReady_iff] at hready
  rw [hcounts.imagesReady_iff, hattempts, List.length_append]
  omega

end Counts

/-! ### Up to the first decoding -/

theorem mem_awaiting_paint (hwell : r.images.WellFormed) {uid other : Uid} {bitmap : Bitmap} :
    uid ∈ (r.paint other bitmap).awaiting ↔ uid ∈ r.awaiting ∧ other ≠ uid := by
  have hpaint : (r.paint other bitmap).images.WellFormed := hwell.modify _ _
  rw [mem_awaiting hpaint, mem_awaiting hwell, paint, hwell.get?_modify]
  by_cases huid : uid = other
  · subst huid
    cases r.images.get? uid <;> simp [SceneImage.isDecoded]
  · simp [huid, Ne.symm huid]

theorem mem_awaiting_discard (hwell : r.images.WellFormed) {uid other : Uid} :
    uid ∈ (r.discard other).awaiting ↔ uid ∈ r.awaiting ∧ other ≠ uid := by
  have hdiscard : (r.discard other).images.WellFormed := hwell.remove other
  rw [mem_awaiting hdiscard, mem_awaiting hwell, SceneResources.discard, hwell.get?_remove]
  by_cases huid : uid = other
  · simp [huid]
  · simp [huid, Ne.symm huid]

/-- Where nothing is decoded, the images that await it stay those that no step is about. -/
theorem Counts.mem_awaiting_of_run (h : Counts start s) (hquiet : .decode ∉ steps)
    (hrun : s.run decoder steps = some after) : after.attempts = s.attempts ∧
      ∀ uid, uid ∈ after.resources.awaiting ↔
        uid ∈ s.resources.awaiting ∧ ∀ step ∈ steps, ¬step.Touches uid := by
  induction steps generalizing s with
  | nil =>
    obtain rfl := Option.some.inj hrun
    exact ⟨rfl, fun uid => by simp⟩
  | cons step rest ih =>
    obtain ⟨hstep, hquiet⟩ := List.ne_and_not_mem_of_not_mem_cons hquiet
    rw [run_cons] at hrun
    obtain ⟨between, hact, hrest⟩ := Option.bind_eq_some_iff.1 hrun
    obtain ⟨hattempts, hawaiting⟩ :=
      ih (h.acts (acts_of_act h.wellFormed h.numbered hact)) hquiet hrest
    have hone : between.attempts = s.attempts ∧ ∀ uid, uid ∈ between.resources.awaiting ↔
        uid ∈ s.resources.awaiting ∧ ¬step.Touches uid := by
      cases step with
      | decode => exact absurd rfl hstep
      | paint =>
        obtain rfl := Option.some.inj hact
        exact ⟨rfl, fun uid => mem_awaiting_paint h.wellFormed⟩
      | discard =>
        obtain rfl := Option.some.inj hact
        exact ⟨rfl, fun uid => mem_awaiting_discard h.wellFormed⟩
    refine ⟨hattempts.trans hone.1, fun uid => ?_⟩
    rw [hawaiting, hone.2, List.forall_mem_cons, and_assoc]

/-- The images of a scene that was just read: none has pixels, and the latch waits for all. -/
structure Fresh (start : SceneResources) : Prop where
  wellFormed : start.images.WellFormed
  numbered : start.Numbered
  remaining : start.decoded.remaining = start.images.uids.length
  awaiting : ∀ uid ∈ start.images.uids, uid ∈ start.awaiting

namespace Fresh

theorem counts (h : Fresh start) : Counts start ⟨start, []⟩ where
  wellFormed := h.wellFormed
  numbered := h.numbered
  remaining := rfl
  data _ image himage := ⟨image, himage, rfl⟩
  settled hsome := absurd rfl hsome

/-- The first decoding opens the latch exactly if no image was given pixels or taken out before. -/
theorem imagesReady_iff (h : Fresh start) (hquiet : .decode ∉ steps) {between : Watched}
    (hrun : run ⟨start, []⟩ decoder steps = some between)
    (hact : between.act decoder .decode = some after) :
    after.resources.imagesReady ↔
      ∀ step ∈ steps, ∀ uid, step.Touches uid → start.images.get? uid = none := by
  obtain ⟨hcounts, -⟩ := h.counts.run hrun
  obtain ⟨hattempts, hawaiting⟩ := h.counts.mem_awaiting_of_run hquiet hrun
  have hacts := acts_of_act hcounts.wellFormed hcounts.numbered hact
  rw [(hcounts.acts hacts).imagesReady_iff, h.remaining, hacts.attempts_eq, hattempts,
    List.nil_append, tries]
  constructor
  · intro hlength step hstep uid htouches
    refine Option.eq_none_iff_forall_ne_some.2 fun image himage => ?_
    have huid : uid ∈ start.images.uids := h.wellFormed.mem_uids.2 ⟨image, himage⟩
    have hnot : uid ∉ between.resources.awaiting := fun hmem =>
      ((hawaiting uid).1 hmem).2 step hstep htouches
    have hsubset : uid :: between.resources.awaiting ⊆ start.images.uids := by
      refine List.cons_subset.2 ⟨huid, fun other hother => ?_⟩
      obtain ⟨image, himage, -⟩ := (mem_awaiting h.wellFormed).1 ((hawaiting other).1 hother).1
      exact h.wellFormed.mem_uids.2 ⟨image, himage⟩
    have hle := (List.nodup_cons.2 ⟨hnot, nodup_awaiting _⟩).length_le_of_subset hsubset
    rw [List.length_cons] at hle
    omega
  · intro huntouched
    refine start.images.nodup_uids.length_le_of_subset fun uid huid => ?_
    refine (hawaiting uid).2 ⟨h.awaiting uid huid, fun step hstep htouches => ?_⟩
    obtain ⟨image, himage⟩ := h.wellFormed.mem_uids.1 huid
    cases himage.symm.trans (huntouched step hstep uid htouches)

end Fresh

theorem fresh_of_new {scene : SceneData} (hnew : (new scene).value = some (.ok r)) : Fresh r := by
  have hread := isRead_of_new hnew
  have hwell := hread.images
  refine ⟨hwell, hread.numbered, ?_, fun uid huid => ?_⟩
  · obtain ⟨makes, meshes, hmakes, -, rfl⟩ := value_new_eq_ok_iff.1 hnew
    have hsize := Registry.wellFormed_empty.size_insertAll makes
    rw [length_of_mapM hmakes, List.length_zipIdx] at hsize
    rw [Registry.length_uids]
    exact (hsize.trans (Nat.zero_add _)).symm
  · obtain ⟨image, himage⟩ := hwell.mem_uids.1 huid
    refine (mem_awaiting hwell).2 ⟨image, himage, ?_⟩
    rw [SceneImage.isDecoded, (hread.image uid image himage).1, Option.isSome_none]

/-- After each decoding that returns, the latch is open. -/
def OpensAfterEach (s : Watched) (decoder : ImageDecoder) (steps : List ImageStep) : Prop :=
  ∀ before rest after, steps = before ++ .decode :: rest →
    s.run decoder (before ++ [.decode]) = some after → after.resources.imagesReady

/-- Before the first decoding, no image of `start` is given pixels or taken out. -/
def Untouched (start : SceneResources) (steps : List ImageStep) : Prop :=
  ∀ before rest, steps = before ++ .decode :: rest → .decode ∉ before →
    ∀ step ∈ before, ∀ uid, step.Touches uid → start.images.get? uid = none

theorem Fresh.opensAfterEach_iff (h : Fresh start) (hrun : (run ⟨start, []⟩ decoder steps).isSome) :
    OpensAfterEach ⟨start, []⟩ decoder steps ↔ Untouched start steps := by
  constructor
  · rintro hopens before rest rfl hquiet
    obtain ⟨last, hrun⟩ := Option.isSome_iff_exists.1 hrun
    rw [run_append] at hrun
    obtain ⟨between, hbefore, hrest⟩ := Option.bind_eq_some_iff.1 hrun
    rw [run_cons] at hrest
    obtain ⟨after, hact, -⟩ := Option.bind_eq_some_iff.1 hrest
    refine (h.imagesReady_iff hquiet hbefore hact).1 (hopens before rest after rfl ?_)
    rw [run_append, hbefore]
    exact (run_cons between .decode []).trans (by rw [hact]; rfl)
  · rintro huntouched before rest last rfl hlast
    -- The first decoding opens the latch, and it is open from then on.
    have hdecode : ImageStep.decode ∈ before ++ [ImageStep.decode] := by simp
    obtain ⟨first, more, hsplit, hquiet⟩ := List.eq_append_cons_of_mem hdecode
    rw [hsplit, run_append] at hlast
    obtain ⟨between, hfirst, hmore⟩ := Option.bind_eq_some_iff.1 hlast
    rw [run_cons] at hmore
    obtain ⟨after, hact, hmore⟩ := Option.bind_eq_some_iff.1 hmore
    have hsteps : before ++ .decode :: rest = first ++ .decode :: (more ++ rest) := by
      rw [List.append_cons, hsplit, List.append_assoc, List.cons_append]
    have hready := (h.imagesReady_iff hquiet hfirst hact).2
      (huntouched first (more ++ rest) hsteps hquiet)
    obtain ⟨hbetween, -⟩ := h.counts.run hfirst
    have hafter := hbetween.acts (acts_of_act hbetween.wellFormed hbetween.numbered hact)
    exact hafter.imagesReady_of_run hready hmore

/-- Steps on the images of a scene return, whatever the decoder reads.  When the latch is open, each
image has pixels or was tried, and it stays open.  It is open after each decoding exactly if no
image was given pixels or taken out before the first one. -/
theorem run_opensAfterEach_iff {scene : SceneData} (hnew : (new scene).value = some (.ok r))
    (decoder : ImageDecoder) : (∀ steps, (run ⟨r, []⟩ decoder steps).isSome) ∧
      ∀ steps s, run ⟨r, []⟩ decoder steps = some s →
        (s.resources.imagesReady →
          (∀ uid image, s.resources.images.get? uid = some image →
            image.isDecoded ∨ uid ∈ s.attempts) ∧
          ∀ more last, s.run decoder more = some last → last.resources.imagesReady) ∧
        (OpensAfterEach ⟨r, []⟩ decoder steps ↔ Untouched r steps) := by
  have hread := isRead_of_new hnew
  have hfresh := fresh_of_new hnew
  refine ⟨hfresh.counts.isSome_run fun uid image himage =>
    (hread.image uid image himage).2.2.isSome_bytes?, fun steps s hrun => ?_⟩
  obtain ⟨hcounts, -⟩ := hfresh.counts.run hrun
  refine ⟨fun hready => ⟨fun uid image himage => ?_, fun more last hmore =>
    hcounts.imagesReady_of_run hready hmore⟩,
    hfresh.opensAfterEach_iff (Option.isSome_of_eq_some hrun)⟩
  refine hcounts.settled (fun hnone => ?_) uid image himage
  -- Without an attempt the latch is open only if there never was an image.
  rw [hcounts.imagesReady_iff, hnone, hfresh.remaining] at hready
  obtain ⟨first, hfirst, -⟩ := hcounts.data uid image himage
  have huid : uid ∈ r.images.uids := hfresh.wellFormed.mem_uids.2 ⟨first, hfirst⟩
  rw [List.length_eq_zero_iff.1 (Nat.le_zero.1 hready)] at huid
  cases huid

/-- A step on an image after its decoding does not close the latch. -/
theorem run_opensAfterEach_iff_painted : ∃ r s, (new painted).value = some (.ok r) ∧
    run ⟨r, []⟩ Image.decoder [.decode, .paint 2 ⟨1, 1, [3, 2, 1, 255]⟩, .decode] = some s ∧
      s.resources.imagesReady ∧
      (∀ uid image, s.resources.images.get? uid = some image → image.isDecoded ∨ uid ∈ s.attempts) ∧
      OpensAfterEach ⟨r, []⟩ Image.decoder [.decode, .paint 2 ⟨1, 1, [3, 2, 1, 255]⟩, .decode] := by
  have hread : ∃ r, (new painted).value = some (.ok r) ∧
      (run ⟨r, []⟩ Image.decoder [.decode, .paint 2 ⟨1, 1, [3, 2, 1, 255]⟩, .decode]).map
        (·.resources.imagesReady) = some true :=
    ⟨_, rfl, by decide +kernel⟩
  obtain ⟨r, hnew, hresult⟩ := hread
  obtain ⟨s, hrun, hready⟩ := Option.map_eq_some_iff.1 hresult
  obtain ⟨htried, hopens⟩ := (run_opensAfterEach_iff hnew Image.decoder).2 _ _ hrun
  refine ⟨r, s, hnew, hrun, hready, (htried hready).1, hopens.2 ?_⟩
  intro before rest hsplit hquiet
  cases before with
  | nil => simp
  | cons first before =>
    obtain ⟨rfl, -⟩ := List.cons.inj hsplit
    exact absurd List.mem_cons_self hquiet

/-- An image that has pixels before the first decoding is not tried there, and the latch does not
open: of two images, only the other arrives. -/
theorem not_opensAfterEach_painted : ∃ r s, (new painted).value = some (.ok r) ∧
    run ⟨r, []⟩ Image.decoder [.paint 1 ⟨1, 1, [3, 2, 1, 255]⟩, .decode] = some s ∧
      s.attempts = [2] ∧ s.resources.imagesReady = false ∧
      ¬OpensAfterEach ⟨r, []⟩ Image.decoder [.paint 1 ⟨1, 1, [3, 2, 1, 255]⟩, .decode] := by
  have hread : ∃ r, (new painted).value = some (.ok r) ∧
      (run ⟨r, []⟩ Image.decoder [.paint 1 ⟨1, 1, [3, 2, 1, 255]⟩, .decode]).map
        (fun s => (s.attempts, s.resources.imagesReady)) = some ([2], false) :=
    ⟨_, rfl, by decide +kernel⟩
  obtain ⟨r, hnew, hresult⟩ := hread
  obtain ⟨s, hrun, hvalues⟩ := Option.map_eq_some_iff.1 hresult
  obtain ⟨hattempts, hclosed⟩ := Prod.mk.inj hvalues
  refine ⟨r, s, hnew, hrun, hattempts, hclosed, fun hopens => ?_⟩
  have hready := hopens [.paint 1 ⟨1, 1, [3, 2, 1, 255]⟩] [] s rfl hrun
  rw [hclosed] at hready
  cases hready

end Watched

end Diorama

import Diorama.Proofs.Drift

/-! What becomes of a frame that holds a NaN.  A difference from a NaN is no number, so it is not
above the threshold, and a new matrix that is about the same elsewhere is ignored: the NaN stays.
A frame recovers with any matrix if it holds no NaN, or an infinite element too, from which each
finite one differs. -/

namespace Diorama

open Float.Model Float.Model.UnpackedFloat

/-! ### Differences -/

section Difference

variable {x y : Float32}

theorem eq_notANumber_of_isNaN {u : UnpackedFloat} (h : u.isNaN = true) : u = .notANumber := by
  cases u with
  | notANumber => rfl
  | _ => exact absurd h Bool.false_ne_true

theorem sub_of_isNaN (h : x.isNaN = true ∨ y.isNaN = true) :
    x - y = .ofModel (.pack .notANumber) := by
  change x.toModel.unpack.isNaN = true ∨ y.toModel.unpack.isNaN = true at h
  show Float32.ofModel (.pack (UnpackedFloat.sub _ x.toModel.unpack y.toModel.unpack)) = _
  rcases h with h | h
  · rw [eq_notANumber_of_isNaN h]
    rfl
  · rw [eq_notANumber_of_isNaN h]
    cases x.toModel.unpack <;> rfl

theorem sub_self_of_isFinite (h : x.isFinite = true) :
    x - x = .ofModel (.pack (.zero .positive)) := by
  change x.toModel.unpack.isFinite = true at h
  show Float32.ofModel (.pack (UnpackedFloat.sub _ x.toModel.unpack x.toModel.unpack)) = _
  generalize x.toModel.unpack = u at h ⊢
  cases u with
  | infinity _ => exact absurd h Bool.false_ne_true
  | notANumber => exact absurd h Bool.false_ne_true
  | zero s => cases s <;> rfl
  | finite s m e _ =>
    let mantissa := s.apply (UnpackedFloat.decreaseExponent m e (min e e)).1
    show Float32.ofModel (.pack (UnpackedFloat.normalize _ (mantissa - mantissa) _ _)) = _
    rw [Int.sub_self]
    rfl

theorem sub_of_isInf (hx : x.isFinite = true) (hy : y.isInf = true) :
    ∃ s, x - y = .ofModel (.pack (.infinity s)) := by
  change x.toModel.unpack.isFinite = true at hx
  change y.toModel.unpack.isInf = true at hy
  show ∃ s, Float32.ofModel (.pack (UnpackedFloat.sub _ x.toModel.unpack y.toModel.unpack)) = _
  generalize x.toModel.unpack = u at hx ⊢
  generalize y.toModel.unpack = v at hy ⊢
  cases v with
  | infinity s =>
    refine ⟨-s, ?_⟩
    cases u with
    | infinity _ => exact absurd hx Bool.false_ne_true
    | notANumber => exact absurd hx Bool.false_ne_true
    | _ => rfl
  | _ => exact absurd hy Bool.false_ne_true

/-- Two elements count as different. -/
def FarApart (x y : Float32) : Prop := (x - y).abs > Mat4.epsilon

theorem not_farApart_of_isNaN (h : x.isNaN = true ∨ y.isNaN = true) : ¬FarApart x y := by
  rw [FarApart, sub_of_isNaN h]
  decide +kernel

theorem not_farApart_self (h : x.isFinite = true) : ¬FarApart x x := by
  rw [FarApart, sub_self_of_isFinite h]
  decide +kernel

theorem farApart_of_isInf (hx : x.isFinite = true) (hy : y.isInf = true) : FarApart x y := by
  obtain ⟨s, hs⟩ := sub_of_isInf hx hy
  rw [FarApart, hs]
  cases s <;> decide +kernel

theorem isNaN_eq_false_of_isFinite (h : x.isFinite = true) : x.isNaN = false := by
  refine Bool.eq_false_iff.2 fun hnan => ?_
  have hunpack : x.toModel.unpack = .notANumber := eq_notANumber_of_isNaN hnan
  change x.toModel.unpack.isFinite = true at h
  rw [hunpack] at h
  exact absurd h Bool.false_ne_true

theorem isFinite_of_not_isInf (hnan : x.isNaN = false) (hinf : x.isInf = false) :
    x.isFinite = true := by
  change x.toModel.unpack.isNaN = false at hnan
  change x.toModel.unpack.isInf = false at hinf
  show x.toModel.unpack.isFinite = true
  generalize x.toModel.unpack = u at hnan hinf ⊢
  cases u with
  | notANumber => exact absurd hnan.symm Bool.false_ne_true
  | infinity _ => exact absurd hinf.symm Bool.false_ne_true
  | _ => rfl

end Difference

/-! ### Matrices -/

namespace Mat4

def Finite (m : Mat4) : Prop := ∀ x ∈ m.toList, x.isFinite = true

def HasNaN (m : Mat4) : Prop := ∃ x ∈ m.toList, x.isNaN = true

def HasInfinity (m : Mat4) : Prop := ∃ x ∈ m.toList, x.isInf = true

variable {m cached : Mat4}

theorem exists_toList_eq (xs : List Float32) (h : xs.length = 16) : ∃ m : Mat4, m.toList = xs := by
  match xs, h with
  | [a, b, c, d, e, f, g, h, i, j, k, l, m, n, o, p], _ =>
    exact ⟨⟨⟨a, b, c, d⟩, ⟨e, f, g, h⟩, ⟨i, j, k, l⟩, ⟨m, n, o, p⟩⟩, rfl⟩

theorem differs_iff :
    m.differs cached = true ↔ ∃ pair ∈ m.toList.zip cached.toList, FarApart pair.1 pair.2 := by
  simp [differs, FarApart]

/-- A matrix made element by element does not differ if no element does. -/
theorem not_differs_of_map {f : Float32 → Float32} (hm : m.toList = cached.toList.map f)
    (hf : ∀ x ∈ cached.toList, ¬FarApart (f x) x) : m.differs cached = false := by
  have hzip : m.toList.zip cached.toList = cached.toList.map fun x => (f x, x) := by
    rw [hm]
    simpa using List.zip_map' (f := f) (g := id) (l := cached.toList)
  rw [Bool.eq_false_iff, ne_eq, differs_iff, hzip]
  rintro ⟨pair, hpair, hapart⟩
  obtain ⟨x, hx, rfl⟩ := List.mem_map.1 hpair
  exact hf x hx hapart

theorem Finite.not_hasNaN (h : m.Finite) : ¬m.HasNaN := by
  rintro ⟨x, hx, hnan⟩
  rw [isNaN_eq_false_of_isFinite (h x hx)] at hnan
  cases hnan

theorem Finite.differs_self (h : m.Finite) : m.differs m = false :=
  not_differs_of_map (List.map_id _).symm fun x hx => not_farApart_self (h x hx)

theorem Finite.differs_of_hasInfinity (h : m.Finite) (hinf : cached.HasInfinity) :
    m.differs cached = true := by
  obtain ⟨y, hy, hinf⟩ := hinf
  obtain ⟨i, hi, rfl⟩ := List.getElem_of_mem hy
  have hi' : i < m.toList.length := hi
  have hzip : i < (m.toList.zip cached.toList).length := by
    rw [List.length_zip]
    exact Nat.lt_min.2 ⟨hi', hi⟩
  exact differs_iff.2 ⟨(m.toList[i], cached.toList[i]),
    List.mem_iff_getElem.2 ⟨i, hzip, List.getElem_zip⟩,
    farApart_of_isInf (h _ (List.getElem_mem hi')) hinf⟩

/-- Without infinite elements there is a finite matrix that does not differ: the same with zeros for
NaNs. -/
theorem exists_finite_not_differs (hinf : ¬cached.HasInfinity) :
    ∃ m : Mat4, m.Finite ∧ m.differs cached = false := by
  let mend (x : Float32) : Float32 := if x.isNaN then 0 else x
  obtain ⟨m, hm⟩ := exists_toList_eq (cached.toList.map mend) rfl
  have hmend : ∀ x ∈ cached.toList, (mend x).isFinite = true ∧ ¬FarApart (mend x) x := by
    intro x hx
    by_cases hnan : x.isNaN = true
    · rw [show mend x = 0 from if_pos hnan]
      exact ⟨by decide +kernel, not_farApart_of_isNaN (.inr hnan)⟩
    · have hfinite : x.isFinite = true := isFinite_of_not_isInf (Bool.eq_false_iff.2 hnan)
        (Bool.eq_false_iff.2 fun h => hinf ⟨x, hx, h⟩)
      rw [show mend x = x from if_neg hnan]
      exact ⟨hfinite, not_farApart_self hfinite⟩
  refine ⟨m, ?_, not_differs_of_map hm fun x hx => (hmend x hx).2⟩
  rw [Finite, hm, List.forall_mem_map]
  exact fun x hx => (hmend x hx).1

end Mat4

/-! ### Frames -/

/-- Setting any finite matrix leaves one without a NaN, about the same as the one that was set. -/
def Recovers (set : Mat4 → Mat4) : Prop :=
  ∀ m : Mat4, m.Finite → ¬(set m).HasNaN ∧ m.differs (set m) = false

/-- What becomes of a matrix that a frame holds by `set`, if it was given all of `given`. -/
structure Absorbs (given : List Mat4) (cached : Mat4) (set : Mat4 → Mat4) : Prop where
  /-- A NaN in a frame is one that it was given. -/
  mem_given : cached ∈ given
  not_differs : ∀ m : Mat4, m.Finite → m.differs (set m) = false
  hasNaN_iff : ∀ m : Mat4, m.Finite →
    ((set m).HasNaN ↔ cached.HasNaN ∧ m.differs cached = false)
  recovers_iff : Recovers set ↔ ¬cached.HasNaN ∨ cached.HasInfinity

theorem absorbs_of_eq {given : List Mat4} {cached : Mat4} {set : Mat4 → Mat4}
    (hmem : cached ∈ given) (hset : ∀ m, set m = if m.differs cached then m else cached) :
    Absorbs given cached set := by
  have hnot_differs : ∀ m : Mat4, m.Finite → m.differs (set m) = false := by
    intro m hm
    rw [hset]
    split
    · exact hm.differs_self
    next hsame => exact Bool.eq_false_iff.2 hsame
  have hhasNaN : ∀ m : Mat4, m.Finite →
      ((set m).HasNaN ↔ cached.HasNaN ∧ m.differs cached = false) := by
    intro m hm
    rw [hset]
    split
    next hdiffers => simp [hm.not_hasNaN, hdiffers]
    next hsame => simp [hsame]
  refine ⟨hmem, hnot_differs, hhasNaN, fun hrecovers => ?_, fun h m hm => ?_⟩
  · by_cases hinf : cached.HasInfinity
    · exact .inr hinf
    · obtain ⟨m, hm, hsame⟩ := Mat4.exists_finite_not_differs hinf
      exact .inl fun hnan => (hrecovers m hm).1 ((hhasNaN m hm).2 ⟨hnan, hsame⟩)
  · refine ⟨fun hnan => ?_, hnot_differs m hm⟩
    obtain ⟨hcached, hsame⟩ := (hhasNaN m hm).1 hnan
    rw [hm.differs_of_hasInfinity (h.resolve_left (not_not_intro hcached))] at hsame
    cases hsame

/-- A matrix that each use keeps or is given is the first one or was given. -/
theorem mem_given_foldl {σ α : Type} (read : σ → Mat4) {given? : α → Option Mat4}
    {use : σ → α → σ}
    (huse : ∀ s a, read (use s a) = read s ∨ given? a = some (read (use s a))) (s : σ)
    (uses : List α) : read (uses.foldl use s) ∈ read s :: uses.filterMap given? := by
  induction uses generalizing s with
  | nil => exact List.mem_cons_self
  | cons a rest ih =>
    have hrest : read (rest.foldl use (use s a)) ∈ read (use s a) :: rest.filterMap given? :=
      ih (use s a)
    rw [List.foldl_cons, List.filterMap_cons]
    rcases huse s a with hkept | hgiven
    · rw [hkept] at hrest
      rcases List.mem_cons.1 hrest with heq | hmem
      · exact heq ▸ List.mem_cons_self
      · refine List.mem_cons_of_mem _ ?_
        split
        · exact hmem
        · exact List.mem_cons_of_mem _ hmem
    · rw [hgiven]
      exact List.mem_cons_of_mem _ hrest

namespace WorldFrame

def Use.world? : Use → Option Mat4
  | .set world => some world
  | .bind => none

theorem world_set (f : WorldFrame) (world : Mat4) :
    (f.set world).value.world = if world.differs f.world then world else f.world := by
  split
  next hdiffers => rw [set_of_differs hdiffers]
  next hsame => rw [set_of_not_differs (Bool.eq_false_iff.2 hsame)]

theorem world_use (s : WorldFrame × Gpu) (next : Use) :
    (use s next).1.world = s.1.world ∨ next.world? = some (use s next).1.world := by
  cases next with
  | set world =>
    rw [show (use s (.set world)).1.world = _ from world_set s.1 world]
    split
    · exact .inr rfl
    · exact .inl rfl
  | bind =>
    obtain ⟨buffers, heq⟩ := s.1.exists_bind_eq s.2
    exact .inl (congrArg (·.world) heq)

theorem world_run_mem (s : WorldFrame × Gpu) (uses : List Use) :
    (run s uses).1.world ∈ s.1.world :: uses.filterMap Use.world? :=
  mem_given_foldl (fun s : WorldFrame × Gpu => s.1.world) world_use s uses

end WorldFrame

namespace ViewFrame

def Use.projection? : Use → Option Mat4
  | .setProjection projection => some projection
  | _ => none

def Use.view? : Use → Option Mat4
  | .setView view => some view
  | _ => none

theorem projection_setProjection (f : ViewFrame) (m : Mat4) : (f.setProjection m).projection =
    if m.differs f.projection then m else f.projection := by
  split
  next hdiffers => rw [setProjection_of_differs hdiffers]
  next hsame => rw [setProjection_of_not_differs (Bool.eq_false_iff.2 hsame)]

theorem view_setView (f : ViewFrame) (m : Mat4) :
    (f.setView m).value.view = if m.differs f.view then m else f.view := by
  split
  next hdiffers => rw [setView_of_differs hdiffers]
  next hsame => rw [setView_of_not_differs (Bool.eq_false_iff.2 hsame)]

theorem projection_use (s : ViewFrame × Gpu) (next : Use) :
    (use s next).1.projection = s.1.projection ∨
      next.projection? = some (use s next).1.projection := by
  cases next with
  | setProjection m =>
    rw [show (use s (.setProjection m)).1.projection = _ from projection_setProjection s.1 m]
    split
    · exact .inr rfl
    · exact .inl rfl
  | setView m => exact .inl (s.1.projection_setView m)
  | bind =>
    obtain ⟨buffers, heq⟩ := s.1.exists_bind_eq s.2
    exact .inl (congrArg (·.projection) heq)

theorem view_use (s : ViewFrame × Gpu) (next : Use) :
    (use s next).1.view = s.1.view ∨ next.view? = some (use s next).1.view := by
  cases next with
  | setProjection m => exact .inl (s.1.setProjection_frame m).1
  | setView m =>
    rw [show (use s (.setView m)).1.view = _ from view_setView s.1 m]
    split
    · exact .inr rfl
    · exact .inl rfl
  | bind =>
    obtain ⟨buffers, heq⟩ := s.1.exists_bind_eq s.2
    exact .inl (congrArg (·.view) heq)

theorem projection_run_mem (s : ViewFrame × Gpu) (uses : List Use) :
    (run s uses).1.projection ∈ s.1.projection :: uses.filterMap Use.projection? :=
  mem_given_foldl (fun s : ViewFrame × Gpu => s.1.projection) projection_use s uses

theorem view_run_mem (s : ViewFrame × Gpu) (uses : List Use) :
    (run s uses).1.view ∈ s.1.view :: uses.filterMap Use.view? :=
  mem_given_foldl (fun s : ViewFrame × Gpu => s.1.view) view_use s uses

end ViewFrame

/-- Whatever a frame of either kind was given before: a finite matrix that is set does not differ
from the one that the frame has then, but a NaN stays where the matrix does not differ from the one
that the frame had.  So a frame recovers with every finite matrix exactly if it holds no NaN, or an
infinite element too; and it holds a NaN only if it was given one. -/
theorem frames_recover_iff (start : Gpu) :
    (∀ first uses,
      let f := (WorldFrame.run ((WorldFrame.new first).value, start) uses).1
      Absorbs (first :: uses.filterMap WorldFrame.Use.world?) f.world
        fun m => (f.set m).value.world) ∧
      ∀ projection view uses,
        let f := (ViewFrame.run (ViewFrame.new projection view, start) uses).1
        Absorbs (projection :: uses.filterMap ViewFrame.Use.projection?) f.projection
            (fun m => (f.setProjection m).projection) ∧
          Absorbs (view :: uses.filterMap ViewFrame.Use.view?) f.view
            fun m => (f.setView m).value.view := by
  refine ⟨fun first uses => ?_, fun projection view uses => ⟨?_, ?_⟩⟩
  · exact absorbs_of_eq (WorldFrame.world_run_mem (_, start) uses) (WorldFrame.world_set _)
  · exact absorbs_of_eq (ViewFrame.projection_run_mem (_, start) uses)
      (ViewFrame.projection_setProjection _)
  · exact absorbs_of_eq (ViewFrame.view_run_mem (_, start) uses)
      (ViewFrame.view_setView _)

/-- A frame that is made with a NaN keeps it when it is set to the identity, with which it agrees
elsewhere, and is not even marked for an upload. -/
theorem not_recovers_cornered :
    let cornered : Mat4 := { Mat4.identity with c0 := ⟨0 / 0, 0, 0, 0⟩ }
    let f := (WorldFrame.run ((WorldFrame.new cornered).value, {}) [.bind]).1
    Mat4.identity.Finite ∧ (f.set Mat4.identity).value.world.HasNaN ∧
      (f.set Mat4.identity).value.dirty = false := by
  intro cornered f
  have hsame : Mat4.identity.differs f.world = false := by decide +kernel
  rw [WorldFrame.set_of_not_differs hsame]
  unfold Mat4.Finite Mat4.HasNaN
  exact ⟨by decide +kernel, by decide +kernel, rfl⟩

end Diorama

import Diorama.Proofs.Mirror
import Mathlib.Logic.Function.Basic

/-! Frames that share a graphics processor.  Each has buffers of its own, so that what is done with
one changes the contents of no other's. -/

namespace Diorama

theorem Uniforms.Hold.congr {u : Uniforms} {gpu after : Gpu} {matrices : Triple Mat4}
    (h : u.Hold gpu matrices)
    (hsame : ∀ handle ∈ u.toList, after.contents? handle = gpu.contents? handle) :
    u.Hold after matrices := by
  obtain ⟨hfirst, hsecond, hthird⟩ := h
  exact ⟨by rw [hsame u.first (by simp [toList]), hfirst],
    by rw [hsame u.second (by simp [toList]), hsecond],
    by rw [hsame u.third (by simp [toList]), hthird]⟩

namespace Mirror

variable {labels : Triple String} {m m' : Mirror} {gpu gpu' : Gpu} {handle : Nat}

theorem Current.congr (h : m.Current gpu)
    (hsame : ∀ handle ∈ m.handles, gpu'.contents? handle = gpu.contents? handle) :
    m.Current gpu' := by
  intro hclean
  obtain ⟨u, hu, hhold⟩ := h hclean
  have hhandles : m.handles = u.toList := by rw [handles, hu, Option.map_some, Option.getD_some]
  exact ⟨u, hu, hhold.congr (hhandles ▸ hsame)⟩

/-- Binding a frame writes to its own buffers, or to such as were not there. -/
theorem Binds.contents?_eq {sent : Bool} (h : Binds labels (m, gpu) sent (m', gpu'))
    (hmade : handle < gpu.made) (hother : handle ∉ m.handles) :
    gpu'.contents? handle = gpu.contents? handle := by
  cases h with
  | clean => rfl
  | create _ _ =>
    have hne : gpu.made ≠ handle ∧ gpu.made + 1 ≠ handle ∧ gpu.made + 2 ≠ handle := by omega
    rw [Gpu.contents?_of_log rfl]
    simp [GpuEvent.contentsOf?, hne]
  | @write _ _ u _ hsome =>
    have hne : u.first ≠ handle ∧ u.second ≠ handle ∧ u.third ≠ handle := by
      simpa [handles, hsome, Uniforms.toList, eq_comm] using hother
    rw [Gpu.contents?_of_log rfl]
    simp [GpuEvent.contentsOf?, hne]

/-- The buffers of a frame after binding it are those that it had, or new. -/
theorem Binds.mem_handles {sent : Bool} (h : Binds labels (m, gpu) sent (m', gpu'))
    (hhandle : handle ∈ m'.handles) :
    handle ∈ m.handles ∨ gpu.made ≤ handle ∧ handle < gpu'.made := by
  cases h with
  | clean => exact .inl hhandle
  | create _ _ =>
    simp only [handles, Option.map_some, Option.getD_some, Uniforms.toList, List.mem_cons,
      List.not_mem_nil, or_false] at hhandle
    exact .inr ⟨by omega, show handle < gpu.made + 3 by omega⟩
  | write _ hsome => exact .inl hhandle

theorem Binds.made_le {sent : Bool} (h : Binds labels (m, gpu) sent (m', gpu')) :
    gpu.made ≤ gpu'.made := by
  cases h with
  | clean => exact Nat.le_refl _
  | create _ _ => exact Nat.le_add_right _ 3
  | write _ _ => exact Nat.le_refl _

theorem Binds.dirty_eq {s s' : Mirror × Gpu} {sent : Bool} (h : Binds labels s sent s') :
    s'.1.dirty = false := by
  cases h with
  | clean hdirty => exact hdirty
  | create _ _ => rfl
  | write _ _ => rfl

/-- A frame that says truly whether it has changed has buffers once it is bound. -/
theorem Binds.exists_buffers {sent : Bool} (h : Binds labels (m, gpu) sent (m', gpu'))
    (hcurrent : m.Current gpu) : ∃ u, m'.buffers = some u := by
  cases h with
  | clean hdirty =>
    obtain ⟨u, hu, -⟩ := hcurrent hdirty
    exact ⟨u, hu⟩
  | create _ _ => exact ⟨_, rfl⟩
  | write _ hsome => exact ⟨_, hsome⟩

/-- A frame that was never bound. -/
def IsNew (m : Mirror) : Prop := m.dirty = true ∧ m.buffers = none

theorem IsNew.current (h : m.IsNew) (gpu : Gpu) : m.Current gpu := by
  intro hclean
  cases h.1.symm.trans hclean

theorem IsNew.handles_eq (h : m.IsNew) : m.handles = [] := by
  rw [handles, h.2]
  rfl

end Mirror

open Function

variable {κ : Type} [DecidableEq κ] {frames : κ → Option Mirror} {gpu gpu' : Gpu} {k : κ}
  {m m' : Mirror}

/-- Frames by their owners: each holds what it says, and no two have a buffer in common. -/
structure Owned (frames : κ → Option Mirror) (gpu : Gpu) : Prop where
  current : ∀ k m, frames k = some m → m.Current gpu
  nodup : ∀ k m, frames k = some m → m.handles.Nodup
  made : ∀ k m, frames k = some m → ∀ handle ∈ m.handles, handle < gpu.made
  apart : ∀ k m k' m', frames k = some m → frames k' = some m' → k ≠ k' →
    ∀ handle ∈ m.handles, handle ∉ m'.handles

/-- The buffers of other owners than `k` have the contents that they had. -/
def Spares (frames : κ → Option Mirror) (k : κ) (gpu gpu' : Gpu) : Prop :=
  ∀ k' m, frames k' = some m → k' ≠ k → ∀ handle ∈ m.handles,
    gpu'.contents? handle = gpu.contents? handle

namespace Owned

/-- An owner may change its frame, if it keeps to the buffers that it had and to new ones. -/
theorem change {new : Option Mirror} (h : Owned frames gpu) (hspares : Spares frames k gpu gpu')
    (hmade : gpu.made ≤ gpu'.made)
    (hnew : ∀ m', new = some m' → m'.Current gpu' ∧ m'.handles.Nodup ∧ ∀ handle ∈ m'.handles,
      (∃ m, frames k = some m ∧ handle ∈ m.handles) ∨ gpu.made ≤ handle ∧ handle < gpu'.made) :
    Owned (update frames k new) gpu' := by
  have hcases : ∀ k' m, update frames k new k' = some m →
      k' = k ∧ new = some m ∨ k' ≠ k ∧ frames k' = some m := by
    intro k' m hm
    rw [update_apply] at hm
    split at hm
    next hk => exact .inl ⟨hk, hm⟩
    next hk => exact .inr ⟨hk, hm⟩
  -- A buffer of the changed frame is no other frame's.
  have hapart : ∀ m₁ k₂ m₂, new = some m₁ → k₂ ≠ k → frames k₂ = some m₂ →
      ∀ handle ∈ m₁.handles, handle ∉ m₂.handles := by
    intro m₁ k₂ m₂ h₁ hk₂ h₂ handle hhandle hhandle₂
    rcases (hnew m₁ h₁).2.2 handle hhandle with ⟨m, hm, hold⟩ | ⟨hle, -⟩
    · exact h.apart k m k₂ m₂ hm h₂ hk₂.symm handle hold hhandle₂
    · have hlt : (handle : Nat) < gpu.made := h.made k₂ m₂ h₂ handle hhandle₂
      exact Nat.not_le.2 hlt hle
  constructor
  · intro k' m hm
    rcases hcases k' m hm with ⟨-, hm⟩ | ⟨hk, hm⟩
    · exact (hnew m hm).1
    · exact (h.current k' m hm).congr (hspares k' m hm hk)
  · intro k' m hm
    rcases hcases k' m hm with ⟨-, hm⟩ | ⟨-, hm⟩
    · exact (hnew m hm).2.1
    · exact h.nodup k' m hm
  · intro k' m hm handle hhandle
    rcases hcases k' m hm with ⟨-, hm⟩ | ⟨-, hm⟩
    · rcases (hnew m hm).2.2 handle hhandle with ⟨m₀, hm₀, hold⟩ | ⟨-, hlt⟩
      · exact Nat.lt_of_lt_of_le (h.made k m₀ hm₀ handle hold) hmade
      · exact hlt
    · exact Nat.lt_of_lt_of_le (h.made k' m hm handle hhandle) hmade
  · intro k₁ m₁ k₂ m₂ h₁ h₂ hne handle hhandle
    rcases hcases k₁ m₁ h₁ with ⟨hk₁, h₁⟩ | ⟨hk₁, h₁⟩ <;>
      rcases hcases k₂ m₂ h₂ with ⟨hk₂, h₂⟩ | ⟨hk₂, h₂⟩
    · exact absurd (hk₁.trans hk₂.symm) hne
    · exact hapart m₁ k₂ m₂ h₁ hk₂ h₂ handle hhandle
    · exact fun hhandle₂ => hapart m₂ k₁ m₁ h₂ hk₁ h₁ handle hhandle₂ hhandle
    · exact h.apart k₁ m₁ k₂ m₂ h₁ h₂ hne handle hhandle

/-- A new frame, or none, may take the place of a frame. -/
theorem place {new : Option Mirror} (h : Owned frames gpu) (k : κ)
    (hnew : ∀ m, new = some m → m.IsNew) : Owned (update frames k new) gpu := by
  refine h.change (fun _ _ _ _ _ _ => rfl) (Nat.le_refl _) fun m hm => ?_
  rw [(hnew m hm).handles_eq]
  exact ⟨(hnew m hm).current gpu, .nil, by simp⟩

theorem set (h : Owned frames gpu) (hm : frames k = some m) (hset : m.Sets m') :
    Owned (update frames k (some m')) gpu := by
  refine h.change (fun _ _ _ _ _ _ => rfl) (Nat.le_refl _) ?_
  rintro _ ⟨⟩
  rw [hset.handles_eq]
  exact ⟨(h.current k m hm).set hset, h.nodup k m hm, fun handle hhandle => .inl ⟨m, hm, hhandle⟩⟩

omit [DecidableEq κ] in
theorem spares_bind {labels : Triple String} {sent : Bool} (h : Owned frames gpu)
    (hm : frames k = some m) (hbind : Mirror.Binds labels (m, gpu) sent (m', gpu')) :
    Spares frames k gpu gpu' := by
  intro k' m₁ h₁ hk handle hhandle
  exact hbind.contents?_eq (h.made k' m₁ h₁ handle hhandle)
    (h.apart k' m₁ k m h₁ hm hk handle hhandle)

theorem bind {labels : Triple String} {sent : Bool} (h : Owned frames gpu)
    (hm : frames k = some m) (hbind : Mirror.Binds labels (m, gpu) sent (m', gpu')) :
    Owned (update frames k (some m')) gpu' := by
  refine h.change (h.spares_bind hm hbind) hbind.made_le ?_
  rintro _ ⟨⟩
  obtain ⟨hcurrent, hnodup⟩ := hbind.current (h.current k m hm) (h.nodup k m hm)
  exact ⟨hcurrent, hnodup, fun handle hhandle =>
    (hbind.mem_handles hhandle).imp_left fun hold => ⟨m, hm, hold⟩⟩

/-- An owner may use its frame in any way. -/
theorem leads {labels : Triple String} {s s' : Mirror × Gpu} (h : Owned frames s.2)
    (hm : frames k = some s.1) (hleads : Mirror.Leads labels s s') :
    Owned (update frames k (some s'.1)) s'.2 ∧ Spares frames k s.2 s'.2 := by
  induction hleads with
  | refl =>
    rw [update_eq_self_iff.2 hm.symm]
    exact ⟨h, fun _ _ _ _ _ _ => rfl⟩
  | set _ hset ih =>
    have hset' := ih.1.set (update_self ..) hset
    rw [update_idem] at hset'
    exact ⟨hset', ih.2⟩
  | bind _ hbind ih =>
    obtain ⟨howned, hspares⟩ := ih
    have hbind' := howned.bind (update_self ..) hbind
    rw [update_idem] at hbind'
    refine ⟨hbind', fun k' m hm' hk handle hhandle => ?_⟩
    have hstep := howned.spares_bind (update_self ..) hbind k' m ((update_of_ne hk ..).trans hm')
    exact (hstep hk handle hhandle).trans (hspares k' m hm' hk handle hhandle)

end Owned

/-! ### Owners of several frames -/

variable {ι : Type} [DecidableEq ι]

/-- What one owner may do with its frames, and so with the graphics processor: use them, and put a
new frame, or none, where there is no frame or where it may replace the one that is there. -/
inductive Works (owner : ι) (replaces : κ → Prop) :
    (ι × κ → Option Mirror) × Gpu → (ι × κ → Option Mirror) × Gpu → Prop
  | refl (s : (ι × κ → Option Mirror) × Gpu) : Works owner replaces s s
  | leads {frames : ι × κ → Option Mirror} {kind : κ} {labels : Triple String}
      {s s' : Mirror × Gpu} (hm : frames (owner, kind) = some s.1)
      (hleads : Mirror.Leads labels s s') :
      Works owner replaces (frames, s.2) (update frames (owner, kind) (some s'.1), s'.2)
  | place {frames : ι × κ → Option Mirror} {gpu : Gpu} {kind : κ} {new : Option Mirror}
      (hnew : ∀ m, new = some m → m.IsNew) (hold : frames (owner, kind) = none ∨ replaces kind) :
      Works owner replaces (frames, gpu) (update frames (owner, kind) new, gpu)
  | trans {s s' s'' : (ι × κ → Option Mirror) × Gpu} (h : Works owner replaces s s')
      (h' : Works owner replaces s' s'') : Works owner replaces s s''

namespace Works

variable {owner other : ι} {replaces : κ → Prop} {s s' : (ι × κ → Option Mirror) × Gpu} {kind : κ}

theorem owned (h : Works owner replaces s s') (howned : Owned s.1 s.2) : Owned s'.1 s'.2 := by
  induction h with
  | refl => exact howned
  | leads hm hleads => exact (howned.leads hm hleads).1
  | place hnew _ => exact howned.place _ hnew
  | trans _ _ ih ih' => exact ih' (ih howned)

/-- The frames of other owners stay, and so do the contents of their buffers. -/
theorem others (h : Works owner replaces s s') (howned : Owned s.1 s.2) (hother : other ≠ owner) :
    s'.1 (other, kind) = s.1 (other, kind) ∧ ∀ m, s.1 (other, kind) = some m →
      ∀ handle ∈ m.handles, s'.2.contents? handle = s.2.contents? handle := by
  have hne : ∀ kind', ((other, kind) : ι × κ) ≠ (owner, kind') :=
    fun kind' heq => hother (congrArg Prod.fst heq)
  induction h with
  | refl => exact ⟨rfl, fun _ _ _ _ => rfl⟩
  | leads hm hleads =>
    exact ⟨update_of_ne (hne _) .., fun m hm' =>
      (howned.leads hm hleads).2 _ m hm' (hne _)⟩
  | place _ _ => exact ⟨update_of_ne (hne _) .., fun _ _ _ _ => rfl⟩
  | trans h _ ih ih' =>
    obtain ⟨hsame, hcontents⟩ := ih howned
    obtain ⟨hsame', hcontents'⟩ := ih' (h.owned howned)
    exact ⟨hsame'.trans hsame, fun m hm handle hhandle =>
      (hcontents' m (hsame.trans hm) handle hhandle).trans (hcontents m hm handle hhandle)⟩

/-- A frame that is not replaced keeps the buffers that it has. -/
theorem buffers (h : Works owner replaces s s') (hkept : ¬replaces kind) {m : Mirror}
    {u : Uniforms} (hm : s.1 (owner, kind) = some m) (hu : m.buffers = some u) :
    ∃ m', s'.1 (owner, kind) = some m' ∧ m'.buffers = some u := by
  induction h generalizing m with
  | refl => exact ⟨m, hm, hu⟩
  | @leads frames kind' labels s s' hm' hleads =>
    by_cases hkind : kind = kind'
    · subst hkind
      obtain rfl : s.1 = m := Option.some.inj (hm'.symm.trans hm)
      exact ⟨s'.1, update_self .., hleads.buffers_eq hu⟩
    · have hne : ((owner, kind) : ι × κ) ≠ (owner, kind') :=
        fun heq => hkind (congrArg Prod.snd heq)
      exact ⟨m, (update_of_ne hne ..).trans hm, hu⟩
  | @place frames gpu kind' new _ hold =>
    have hkind : kind ≠ kind' := by
      rintro rfl
      rcases hold with hnone | hreplaces
      · cases hnone.symm.trans hm
      · exact hkept hreplaces
    have hne : ((owner, kind) : ι × κ) ≠ (owner, kind') :=
      fun heq => hkind (congrArg Prod.snd heq)
    exact ⟨m, (update_of_ne hne ..).trans hm, hu⟩
  | trans _ _ ih ih' =>
    obtain ⟨m', hm', hu'⟩ := ih hm hu
    exact ih' hm' hu'

end Works

end Diorama

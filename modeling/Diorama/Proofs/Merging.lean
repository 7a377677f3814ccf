import Mathlib.Data.List.Basic
import Mathlib.Data.List.Induction
import Mathlib.Data.List.Pairwise
import Diorama.Shader.Group

/-! How declarations come to entries: they are collected into groups in the order in which these
appear, sorted by binding and merged from neighbour to neighbour.  What is left is one declaration
for each binding, at the slot that the smaller bindings leave it. -/

namespace Diorama.Shader.Declaration

variable {ds members merged more : List Declaration} {kept joined d m : Declaration}

/-! ### Collecting -/

theorem nodup_eraseDups (l : List UInt32) : l.eraseDups.Nodup := by
  induction hn : l.length using Nat.strongRecOn generalizing l with
  | _ n ih =>
    cases l with
    | nil => simp
    | cons a l =>
      have hlength : (l.filter fun b => !b == a).length < n :=
        hn ▸ Nat.lt_succ_of_le (List.length_filter_le _ _)
      rw [List.eraseDups_cons, List.nodup_cons]
      exact ⟨by simp, ih _ hlength _ rfl⟩

theorem addMember_of_notMem {groups : List (UInt32 × List Declaration)}
    (h : d.group ∉ groups.map (·.1)) : addMember groups d = groups ++ [(d.group, [d])] := by
  induction groups with
  | nil => rfl
  | cons first groups ih =>
    rw [List.map_cons, List.mem_cons, not_or] at h
    rw [addMember, if_neg (Ne.symm h.1), ih h.2, List.cons_append]

theorem addMember_map {indices : List UInt32} {f : UInt32 → List Declaration}
    (hnodup : indices.Nodup) (h : d.group ∈ indices) :
    addMember (indices.map fun i => (i, f i)) d =
      indices.map fun i => (i, if d.group = i then f i ++ [d] else f i) := by
  induction indices with
  | nil => simp at h
  | cons i indices ih =>
    rw [List.nodup_cons] at hnodup
    rw [List.map_cons, List.map_cons, addMember]
    split
    · next hi =>
      subst hi
      have hrest : ∀ j ∈ indices, d.group ≠ j := fun j hj hdj => hnodup.1 (hdj ▸ hj)
      rw [if_pos rfl]
      congr 1
      exact List.map_congr_left fun j hj => by rw [if_neg (hrest j hj)]
    · next hi =>
      rw [if_neg (Ne.symm hi), ih hnodup.2 ((List.mem_cons.1 h).resolve_left (Ne.symm hi))]

/-- The groups come in the order of their first declarations, each with its declarations. -/
theorem byGroup_eq (ds : List Declaration) : byGroup ds =
    (ds.map (·.group)).eraseDups.map fun i => (i, ds.filter fun d => d.group = i) := by
  -- From the end: the last declaration meets the groups of those before it.
  induction ds using List.reverseRecOn with
  | nil => rfl
  | append_singleton ds d ih =>
    have hstep : byGroup (ds ++ [d]) = addMember (byGroup ds) d := by simp [byGroup]
    rw [hstep, ih, List.map_append, List.eraseDups_append]
    by_cases hd : d.group ∈ ds.map (·.group)
    · rw [addMember_map (nodup_eraseDups _) (List.mem_eraseDups.2 hd)]
      have hnone : [d.group].removeAll (ds.map (·.group)) = [] := by
        simpa [List.removeAll] using hd
      rw [List.map_cons, List.map_nil, hnone, List.eraseDups_nil, List.append_nil]
      refine List.map_congr_left fun i _ => ?_
      by_cases hi : d.group = i <;> simp [hi]
    · have hnew : [d.group].removeAll (ds.map (·.group)) = [d.group] := by
        simpa [List.removeAll] using hd
      rw [addMember_of_notMem (by simpa using hd), List.map_cons, List.map_nil, hnew,
        List.map_append]
      congr 1
      · refine List.map_congr_left fun i hi => ?_
        have hne : d.group ≠ i := fun h => hd (h ▸ List.mem_eraseDups.1 hi)
        simp [hne]
      · have hfilter : ds.filter (fun e => e.group = d.group) = [] := by
          simpa [List.filter_eq_nil_iff] using hd
        simp [hfilter, List.eraseDups_cons]

/-! ### Merging -/

/-- `m` is what the declarations of its binding come to. -/
structure Stands (members : List Declaration) (m : Declaration) : Prop where
  declared : ∃ d ∈ members, d.binding = m.binding
  common : ∀ d ∈ members, d.binding = m.binding →
    d.name = m.name ∧ d.qualifier = m.qualifier ∧ d.datatype = m.datatype
  tag : ∀ t, m.tag = some t ↔ ∃ d ∈ members, d.binding = m.binding ∧ d.tag = some t

/-- `merged` is one declaration for each binding, in their order. -/
structure Merges (members merged : List Declaration) : Prop where
  increasing : merged.Pairwise fun a b => a.binding < b.binding
  stands : ∀ m ∈ merged, Stands members m
  covers : ∀ d ∈ members, ∃ m ∈ merged, m.binding = d.binding

theorem Stands.of_join (hjoin : kept.join d = .ok joined) (hbinding : kept.binding = d.binding)
    (h : Stands (joined :: more) m) : Stands (kept :: d :: more) m := by
  obtain ⟨⟨hname, hqualifier, hdatatype, htag⟩, rfl⟩ := join_eq_ok_iff.1 hjoin
  obtain ⟨hdeclared, hcommon, htags⟩ := h
  simp only [List.exists_mem_cons_iff, List.forall_mem_cons] at hdeclared hcommon htags
  constructor <;> simp only [List.exists_mem_cons_iff, List.forall_mem_cons]
  · exact hdeclared.imp_right .inr
  · refine ⟨hcommon.1, fun h => ?_, hcommon.2⟩
    rw [← hname, ← hqualifier, ← hdatatype]
    exact hcommon.1 (hbinding.trans h)
  · intro t
    have hor : kept.tag.or d.tag = some t ↔ kept.tag = some t ∨ d.tag = some t := by
      rcases htag with h | h | h <;> simp [h]
    rw [htags t, hor, and_or_left, or_assoc, hbinding]

theorem Stands.cons (hkept : kept.binding ≠ m.binding) (h : Stands members m) :
    Stands (kept :: members) m := by
  obtain ⟨hdeclared, hcommon, htags⟩ := h
  constructor <;> simp only [List.exists_mem_cons_iff, List.forall_mem_cons]
  · exact .inr hdeclared
  · exact ⟨fun h => absurd h hkept, hcommon⟩
  · intro t
    rw [htags t, or_iff_right (fun h => hkept h.1)]

theorem Stands.self (hmore : ∀ d ∈ more, d.binding ≠ kept.binding) :
    Stands (kept :: more) kept := by
  constructor <;> simp only [List.exists_mem_cons_iff, List.forall_mem_cons]
  · exact .inl trivial
  · exact ⟨fun _ => by simp, fun d hd h => absurd h (hmore d hd)⟩
  · intro t
    rw [or_iff_left (fun ⟨d, hd, h, _⟩ => hmore d hd h)]
    simp

theorem Merges.of_join (hjoin : kept.join d = .ok joined) (hbinding : kept.binding = d.binding)
    (h : Merges (joined :: more) merged) : Merges (kept :: d :: more) merged := by
  have hjoined : joined.binding = kept.binding := by
    obtain ⟨-, rfl⟩ := join_eq_ok_iff.1 hjoin
    rfl
  refine ⟨h.increasing, fun m hm => (h.stands m hm).of_join hjoin hbinding, ?_⟩
  obtain ⟨hkept, hmore⟩ := List.forall_mem_cons.1 h.covers
  rw [hjoined] at hkept
  rw [List.forall_mem_cons, List.forall_mem_cons]
  exact ⟨hkept, hbinding ▸ hkept, hmore⟩

theorem Merges.cons (hlt : ∀ d ∈ members, kept.binding < d.binding) (h : Merges members merged) :
    Merges (kept :: members) (kept :: merged) := by
  have hmerged : ∀ m ∈ merged, kept.binding < m.binding := fun m hm => by
    obtain ⟨d, hd, hbinding⟩ := (h.stands m hm).declared
    exact hbinding ▸ hlt d hd
  refine ⟨List.pairwise_cons.2 ⟨hmerged, h.increasing⟩, ?_, ?_⟩
  · rw [List.forall_mem_cons]
    exact ⟨.self fun d hd => (UInt32.ne_of_lt (hlt d hd)).symm,
      fun m hm => (h.stands m hm).cons (UInt32.ne_of_lt (hmerged m hm))⟩
  · rw [List.forall_mem_cons]
    refine ⟨⟨kept, List.mem_cons_self, rfl⟩, fun d hd => ?_⟩
    obtain ⟨m, hm, hbinding⟩ := h.covers d hd
    exact ⟨m, List.mem_cons_of_mem _ hm, hbinding⟩

theorem Merges.of_perm (h : Merges members merged) (hperm : members.Perm ds) :
    Merges ds merged := by
  refine ⟨h.increasing, fun m hm => ?_, fun d hd => h.covers d (hperm.mem_iff.2 hd)⟩
  obtain ⟨hdeclared, hcommon, htag⟩ := h.stands m hm
  exact ⟨by simpa only [hperm.mem_iff] using hdeclared, fun d hd => hcommon d (hperm.mem_iff.2 hd),
    fun t => by simpa only [hperm.mem_iff] using htag t⟩

theorem merges_of_mergeFrom
    (hsorted : (kept :: more).Pairwise fun a b => a.binding ≤ b.binding)
    (h : mergeFrom kept more = .ok merged) : Merges (kept :: more) merged := by
  -- `kept` stands for all declarations of its binding so far, so it counts as one of the list.
  induction more generalizing kept merged with
  | nil =>
    obtain rfl : [kept] = merged := by simpa [mergeFrom] using h
    exact .cons (by simp) ⟨.nil, by simp, by simp⟩
  | cons d more ih =>
    rw [mergeFrom] at h
    rw [List.pairwise_cons, List.forall_mem_cons] at hsorted
    obtain ⟨⟨hle, hkept⟩, hmore⟩ := hsorted
    split at h
    · next hbinding =>
      obtain ⟨joined, hjoin, h⟩ := bind_eq_ok_iff.1 h
      refine .of_join hjoin hbinding (ih ?_ h)
      obtain ⟨-, rfl⟩ := join_eq_ok_iff.1 hjoin
      exact List.pairwise_cons.2 ⟨hkept, (List.pairwise_cons.1 hmore).2⟩
    · next hbinding =>
      cases hrest : mergeFrom d more with
      | error e => simp [hrest, Functor.map, Except.map] at h
      | ok rest =>
        obtain rfl : kept :: rest = merged := by simpa [hrest, Functor.map, Except.map] using h
        have hlt : kept.binding < d.binding := UInt32.lt_of_le_of_ne hle hbinding
        refine .cons ?_ (ih hmore hrest)
        rw [List.forall_mem_cons]
        exact ⟨hlt, fun e he => UInt32.lt_of_lt_of_le hlt ((List.pairwise_cons.1 hmore).1 e he)⟩

/-- No two of the declarations have one binding and disagree on it. -/
def Concord (members : List Declaration) : Prop :=
  members.Pairwise fun a b => a.binding = b.binding → a.Agrees b

theorem concord_iff : Concord members ↔
    ∀ a ∈ members, ∀ b ∈ members, a.binding = b.binding → a.Agrees b := by
  have : Std.Symm fun a b : Declaration => a.binding = b.binding → a.Agrees b :=
    ⟨fun _ _ h hbinding => (h hbinding.symm).symm⟩
  exact ⟨fun h a ha b hb => h.forall_of_forall (fun d _ _ => .refl d) ha hb,
    List.pairwise_of_forall_mem_list⟩

/-- The joined declaration has the binding of both, so what either agrees with, it does. -/
theorem Concord.join (h : Concord (kept :: d :: more)) (hbinding : kept.binding = d.binding)
    (hjoin : kept.join d = .ok joined) : Concord (joined :: more) := by
  obtain ⟨hkept, hmore⟩ := List.pairwise_cons.1 h
  obtain ⟨hd, hmore⟩ := List.pairwise_cons.1 hmore
  have hjoined : joined.binding = kept.binding := by
    obtain ⟨-, rfl⟩ := join_eq_ok_iff.1 hjoin
    rfl
  refine List.pairwise_cons.2 ⟨fun a ha hsame => ?_, hmore⟩
  have hkeptSame : kept.binding = a.binding := hjoined.symm.trans hsame
  exact .join hjoin (hkept a (List.mem_cons_of_mem d ha) hkeptSame)
    (hd a ha (hbinding.symm.trans hkeptSame))

theorem exists_mergeFrom (h : Concord (kept :: more)) :
    ∃ merged, mergeFrom kept more = .ok merged := by
  induction more generalizing kept with
  | nil => exact ⟨[kept], rfl⟩
  | cons d more ih =>
    obtain ⟨hkept, hmore⟩ := List.pairwise_cons.1 h
    rw [mergeFrom]
    split
    · next hbinding =>
      have hjoin := join_eq_ok_iff.2 ⟨hkept d List.mem_cons_self hbinding, rfl⟩
      obtain ⟨merged, hmerged⟩ := ih (h.join hbinding hjoin)
      exact ⟨merged, bind_eq_ok_iff.2 ⟨_, hjoin, hmerged⟩⟩
    · obtain ⟨merged, hmerged⟩ := ih hmore
      exact ⟨kept :: merged, by rw [hmerged]; rfl⟩

theorem Merges.concord (h : Merges members merged) : Concord members := by
  refine concord_iff.2 fun a ha b hb hbinding => ?_
  obtain ⟨m, hm, hma⟩ := h.covers a ha
  have hmb : m.binding = b.binding := hma.trans hbinding
  obtain ⟨-, hcommon, htag⟩ := h.stands m hm
  obtain ⟨hname, hqualifier, hdatatype⟩ := hcommon a ha hma.symm
  obtain ⟨hname', hqualifier', hdatatype'⟩ := hcommon b hb hmb.symm
  refine ⟨hname.trans hname'.symm, hqualifier.trans hqualifier'.symm,
    hdatatype.trans hdatatype'.symm, ?_⟩
  cases ht : a.tag with
  | none => exact .inl rfl
  | some t =>
    cases ht' : b.tag with
    | none => exact .inr (.inl rfl)
    | some t' =>
      rw [← (htag t).2 ⟨a, ha, hma.symm, ht⟩, ← (htag t').2 ⟨b, hb, hmb.symm, ht'⟩]
      exact .inr (.inr rfl)

theorem pairwise_sortByBinding (members : List Declaration) :
    (sortByBinding members).Pairwise fun a b => a.binding ≤ b.binding := by
  have htrans : ∀ a b c : Declaration, decide (a.binding ≤ b.binding) = true →
      decide (b.binding ≤ c.binding) = true → decide (a.binding ≤ c.binding) = true := by
    intro a b c hab hbc
    rw [decide_eq_true_eq] at hab hbc ⊢
    exact UInt32.le_trans hab hbc
  have htotal : ∀ a b : Declaration,
      (decide (a.binding ≤ b.binding) || decide (b.binding ≤ a.binding)) = true := by
    intro a b
    simpa using UInt32.le_total a.binding b.binding
  exact (List.pairwise_mergeSort htrans htotal members).imp of_decide_eq_true

theorem perm_sortByBinding (members : List Declaration) : (sortByBinding members).Perm members :=
  List.mergeSort_perm _ _

/-- What sorting and merging give. -/
theorem merges_of_mergeRuns (h : mergeRuns (sortByBinding members) = .ok merged) :
    Merges members merged := by
  refine .of_perm ?_ (perm_sortByBinding members)
  have hsorted := pairwise_sortByBinding members
  cases hsort : sortByBinding members with
  | nil =>
    obtain rfl : [] = merged := by simpa [hsort, mergeRuns] using h
    exact ⟨.nil, by simp, by simp⟩
  | cons first more =>
    rw [hsort] at h hsorted
    exact merges_of_mergeFrom hsorted h

theorem concord_sortByBinding : Concord (sortByBinding members) ↔ Concord members := by
  simp only [concord_iff, (perm_sortByBinding members).mem_iff]

theorem exists_mergeRuns_iff :
    (∃ merged, mergeRuns (sortByBinding members) = .ok merged) ↔ Concord members := by
  refine ⟨fun ⟨merged, h⟩ => (merges_of_mergeRuns h).concord, fun h => ?_⟩
  rw [← concord_sortByBinding] at h
  cases hsort : sortByBinding members with
  | nil => exact ⟨[], rfl⟩
  | cons first more => exact exists_mergeFrom (hsort ▸ h)

/-! ### Slots -/

/-- The bindings that are declared, each once. -/
def bindings (members : List Declaration) : List UInt32 := (members.map (·.binding)).eraseDups

/-- The number of declared bindings below one. -/
def slot (members : List Declaration) (binding : UInt32) : Nat :=
  (bindings members).countP (· < binding)

theorem mem_bindings {b : UInt32} : b ∈ bindings members ↔ ∃ d ∈ members, d.binding = b := by
  simp [bindings]

theorem countP_lt_getElem {l : List UInt32} (h : l.Pairwise (· < ·)) {i : Nat} (hi : i < l.length) :
    l.countP (· < l[i]) = i := by
  induction l generalizing i with
  | nil => simp at hi
  | cons a l ih =>
    obtain ⟨ha, hl⟩ := List.pairwise_cons.1 h
    cases i with
    | zero =>
      rw [List.countP_eq_zero]
      simpa using fun b hb => UInt32.le_of_lt (ha b hb)
    | succ i =>
      have hi' : i < l.length := by simpa using hi
      have hlt : a < l[i] := ha _ (List.getElem_mem hi')
      simp [ih hl hi', hlt]

namespace Merges

theorem perm_bindings (h : Merges members merged) :
    (merged.map (·.binding)).Perm (bindings members) := by
  have hnodup : (merged.map (·.binding)).Nodup :=
    List.pairwise_map.2 (h.increasing.imp UInt32.ne_of_lt)
  refine (List.perm_ext_iff_of_nodup hnodup (nodup_eraseDups _)).2 fun b => ?_
  rw [List.mem_map]
  refine Iff.trans ⟨?_, ?_⟩ mem_bindings.symm
  · rintro ⟨m, hm, rfl⟩
    exact (h.stands m hm).declared
  · rintro ⟨d, hd, rfl⟩
    exact h.covers d hd

theorem length_eq (h : Merges members merged) : merged.length = (bindings members).length := by
  rw [← h.perm_bindings.length_eq, List.length_map]

theorem slot_eq (h : Merges members merged) {i : Nat} (hi : merged[i]? = some m) :
    slot members m.binding = i := by
  obtain ⟨hlt, rfl⟩ := List.getElem?_eq_some_iff.1 hi
  have hincreasing : (merged.map (·.binding)).Pairwise (· < ·) := List.pairwise_map.2 h.increasing
  have hcount := countP_lt_getElem (i := i) hincreasing (by rwa [List.length_map])
  rw [slot, ← h.perm_bindings.countP_eq]
  simpa using hcount

theorem getElem?_slot (h : Merges members merged) (hd : d ∈ members) :
    ∃ m, merged[slot members d.binding]? = some m ∧ m.binding = d.binding := by
  obtain ⟨m, hm, hbinding⟩ := h.covers d hd
  obtain ⟨i, hi⟩ := List.getElem?_of_mem hm
  exact ⟨m, by rw [← hbinding, h.slot_eq hi, hi], hbinding⟩

end Merges

end Diorama.Shader.Declaration

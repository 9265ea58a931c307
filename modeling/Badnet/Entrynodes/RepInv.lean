/-
  Badnet.Entrynodes.RepInv — the representation invariant of a guard selection.

  `RepInv` is about identities and sample indices, the confirmed list, the primary list and its marks, and the usable
  flag. It holds after every run of the operations, from an empty selection, whatever the nodelist, the options and the
  clock are at each of them (`guard_selection_invariant`). The primary list is not cut when `get_n_primary_guards`
  falls: it stays as it is until it is rebuilt (`fewer_primary_guards_keep_the_list`).
-/

import Badnet.Entrynodes.Lists
import Mathlib.Data.List.Nodup

namespace Badnet.Entrynodes

variable {env : Env} {gs gs' gs'' : GuardSelection} {p : Ptr} {l l' : List Ptr}

/-! ## The invariant -/

structure Inv (gs : GuardSelection) : Prop where
  core : Core gs
  marked : Marked gs gs.primaryEntryGuards
  nodup : gs.primaryEntryGuards.Nodup
  length_le : gs.primaryEntryGuards.length ≤ gs.primaryLimit

/-- The invariant is kept, and the limit is that of before or of the environment. -/
structure Maintains (env : Env) (gs gs' : GuardSelection) : Prop where
  inv : Inv gs → Inv gs'
  limit : Inv gs → gs'.primaryLimit = gs.primaryLimit ∨ gs'.primaryLimit = getNPrimaryGuards env

theorem Maintains.trans (h : Maintains env gs gs') (h' : Maintains env gs' gs'') : Maintains env gs gs'' where
  inv hi := h'.inv (h.inv hi)
  limit hi := by
    rcases h'.limit (h.inv hi) with hlim | hlim
    · rw [hlim]
      exact h.limit hi
    · exact .inr hlim

theorem Inv.of_keeps (h : Inv gs) (hk : Keeps gs gs') : Inv gs' where
  core := hk.core h.core
  marked := by
    rw [hk.primary]
    exact hk.marked h.core _ h.marked
  nodup := by
    rw [hk.primary]
    exact h.nodup
  length_le := by
    rw [hk.primary, hk.limit]
    exact h.length_le

theorem Keeps.maintains (h : Keeps gs gs') : Maintains env gs gs' := ⟨fun hi => hi.of_keeps h, fun _ => .inl h.limit⟩

theorem Quiet.maintains (h : Quiet gs gs') : Maintains env gs gs' := h.keeps.maintains

/-! ## Removing guards -/

theorem mem_removeKeeporder {q : Ptr} : q ∈ smartlistRemoveKeeporder l p ↔ q ∈ l ∧ q ≠ p := by
  simp [smartlistRemoveKeeporder]

theorem removeKeeporder_of_notMem (h : p ∉ l) : smartlistRemoveKeeporder l p = l := by
  refine List.filter_eq_self.mpr fun q hq => ?_
  have hne : q ≠ p := fun heq => h (heq ▸ hq)
  simpa using hne

/-- The guard at `p` is in no list any more. -/
structure Removed (gs gs' : GuardSelection) (p : Ptr) : Prop where
  sampled : gs'.sampledEntryGuards = smartlistRemoveKeeporder gs.sampledEntryGuards p
  confirmed : gs'.confirmedEntryGuards = smartlistRemoveKeeporder gs.confirmedEntryGuards p
  primary : gs'.primaryEntryGuards = smartlistRemoveKeeporder gs.primaryEntryGuards p
  nextPtr : gs'.nextPtr = gs.nextPtr
  nextSampledIdx : gs'.nextSampledIdx = gs.nextSampledIdx
  nextConfirmedIdx : gs'.nextConfirmedIdx = gs.nextConfirmedIdx
  limit : gs'.primaryLimit = gs.primaryLimit
  guards : ∀ q, q ≠ p → gs'.guards q = gs.guards q

/-- In the branches of the source that do not remove the guard from a list, it is not in that list. -/
theorem removed_spec (gs : GuardSelection) (p : Ptr) :
    Removed gs (removeGuardFromConfirmedAndPrimaryLists
      { gs with sampledEntryGuards := smartlistRemoveKeeporder gs.sampledEntryGuards p } p) p := by
  unfold removeGuardFromConfirmedAndPrimaryLists
  simp only
  by_cases hprimary : (gs.guards p).isPrimary = true
  · simp only [hprimary, if_true]
    split_ifs with hidx hconf
    iterate 2 exact ⟨rfl, rfl, rfl, rfl, rfl, rfl, rfl, fun q hq => by simp [GuardSelection.modify, hq]⟩
    · exact ⟨rfl, (removeKeeporder_of_notMem hconf).symm, rfl, rfl, rfl, rfl, rfl, fun q hq => by
        simp [GuardSelection.modify, hq]⟩
  · simp only [hprimary, Bool.false_eq_true, if_false]
    by_cases hmem : p ∈ gs.primaryEntryGuards
    · simp only [hmem, if_true]
      split_ifs with hidx hconf
      · exact ⟨rfl, rfl, rfl, rfl, rfl, rfl, rfl, fun q hq => by simp [GuardSelection.modify, hq]⟩
      · exact ⟨rfl, rfl, rfl, rfl, rfl, rfl, rfl, fun q hq => rfl⟩
      · exact ⟨rfl, (removeKeeporder_of_notMem hconf).symm, rfl, rfl, rfl, rfl, rfl, fun q hq => rfl⟩
    · simp only [hmem, if_false]
      have hkept := (removeKeeporder_of_notMem hmem).symm
      split_ifs with hidx hconf
      · exact ⟨rfl, rfl, hkept, rfl, rfl, rfl, rfl, fun q hq => by simp [GuardSelection.modify, hq]⟩
      · exact ⟨rfl, rfl, hkept, rfl, rfl, rfl, rfl, fun q hq => rfl⟩
      · exact ⟨rfl, (removeKeeporder_of_notMem hconf).symm, hkept, rfl, rfl, rfl, rfl, fun q hq => rfl⟩

theorem Core.of_removed (h : Core gs) (hr : Removed gs gs' p) : Core gs' := by
  have hguards : ∀ q ∈ gs'.sampledEntryGuards, gs'.guards q = gs.guards q := by
    intro q hq
    rw [hr.sampled] at hq
    exact hr.guards q (mem_removeKeeporder.mp hq).2
  have hsub : ∀ q ∈ gs'.sampledEntryGuards, q ∈ gs.sampledEntryGuards := by
    intro q hq
    rw [hr.sampled] at hq
    exact (mem_removeKeeporder.mp hq).1
  have hpair : ∀ {R : Guard → Guard → Prop}, (gs.sampledEntryGuards.Pairwise fun a b => R (gs.guards a) (gs.guards b)) →
      gs'.sampledEntryGuards.Pairwise fun a b => R (gs'.guards a) (gs'.guards b) := by
    intro R hR
    have hfilter : gs'.sampledEntryGuards.Pairwise fun a b => R (gs.guards a) (gs.guards b) := by
      rw [hr.sampled]
      exact hR.filter _
    refine hfilter.imp_of_mem fun {a b} ha hb hab => ?_
    rwa [hguards a ha, hguards b hb]
  have hconf : ∀ q ∈ gs'.confirmedEntryGuards, q ∈ gs.confirmedEntryGuards ∧ gs'.guards q = gs.guards q := by
    intro q hq
    rw [hr.confirmed] at hq
    obtain ⟨hq, hne⟩ := mem_removeKeeporder.mp hq
    exact ⟨hq, hr.guards q hne⟩
  refine ⟨hpair (R := fun a b => a.sampledIdx < b.sampledIdx) h.sampledIdx, fun q hq => ?_,
    hpair (R := fun a b => a.identity ≠ b.identity) h.identity, fun q hq => ?_, ?_, ?_, fun q hq => ?_, ?_,
    fun q hq => ?_⟩
  · rw [hguards q hq, hr.nextSampledIdx]
    exact h.sampledIdx_lt q (hsub q hq)
  · rw [hr.nextPtr]
    exact h.allocated q (hsub q hq)
  · rw [hr.confirmed, hr.sampled, h.confirmed_eq, smartlistRemoveKeeporder, smartlistRemoveKeeporder,
      List.filter_filter, List.filter_filter]
    refine List.filter_congr fun q _ => ?_
    by_cases hq : q = p
    · simp [hq]
    · rw [isConfirmed, isConfirmed, hr.guards q hq, Bool.and_comm]
  · have hfilter : gs'.confirmedEntryGuards.Pairwise fun a b =>
        (gs.guards a).confirmedIdx ≠ (gs.guards b).confirmedIdx := by
      rw [hr.confirmed]
      exact h.confirmedIdx.filter _
    refine hfilter.imp_of_mem fun {a b} ha hb hab => ?_
    rwa [(hconf a ha).2, (hconf b hb).2]
  · rw [(hconf q hq).2, hr.nextConfirmedIdx]
    exact h.confirmedIdx_lt q (hconf q hq).1
  · rw [hr.nextConfirmedIdx]
    exact h.next_nonneg
  · rw [hguards q hq]
    exact h.flags q (hsub q hq)

theorem Removed.maintains (hr : Removed gs gs' p) : Maintains env gs gs' := by
  refine ⟨fun h => ⟨h.core.of_removed hr, ⟨fun q hq => ?_, fun q hq => ?_⟩, ?_, ?_⟩, fun _ => .inl hr.limit⟩
  · rw [hr.primary] at hq
    obtain ⟨hq, hne⟩ := mem_removeKeeporder.mp hq
    rw [hr.sampled]
    exact mem_removeKeeporder.mpr ⟨h.marked.sampled q hq, hne⟩
  · rw [hr.sampled] at hq
    obtain ⟨hq, hne⟩ := mem_removeKeeporder.mp hq
    rw [hr.guards q hne, hr.primary, mem_removeKeeporder, h.marked.iff q hq]
    simp [hne]
  · rw [hr.primary]
    exact h.nodup.filter _
  · rw [hr.primary, hr.limit]
    exact le_trans (List.length_filter_le _ _) h.length_le

/-- A loop whose turns maintain the invariant maintains it. -/
theorem maintains_foldl {σ : Type} {sel : σ → GuardSelection} {turn : σ → Ptr → σ} (s : σ) (l : List Ptr)
    (h : ∀ s p, Maintains env (sel s) (sel (turn s p))) : Maintains env (sel s) (sel (l.foldl turn s)) := by
  induction l generalizing s with
  | nil => exact (Quiet.refl _).maintains
  | cons p l ih => exact (h s p).trans (ih (turn s p))

theorem prune_maintains (unlisted sampled confirmed : Time) :
    Maintains env gs (sampledGuardsPruneObsoleteEntries gs unlisted sampled confirmed).1 := by
  refine @maintains_foldl env _ Prod.fst _ (gs, 0) gs.sampledEntryGuards fun s p => ?_
  simp only
  split
  · exact (removed_spec s.1 p).maintains
  · exact (Quiet.refl _).maintains

theorem updateFromConsensus_maintains : Maintains env gs (sampledGuardsUpdateFromConsensus env gs) := by
  unfold sampledGuardsUpdateFromConsensus
  split
  · exact (Quiet.refl _).maintains
  have hpresence := @Quiet.maintains env _ _ (@updateConsensusPresence_quiet env gs)
  have hprune := hpresence.trans (@prune_maintains env (sampledGuardsUpdateConsensusPresence env gs).1
    (env.now - getRemoveUnlistedGuardsAfterSeconds env) (env.now - getGuardLifetime env)
    (env.now - getGuardConfirmedMinLifetime env))
  simp only
  split
  · exact (hprune.trans (quiet_clock _ _ _ _).maintains).trans updateFilteredSets_quiet.maintains
  · exact hprune

/-! ## Confirmed guards -/

theorem compares_sampledIdx (guards : Ptr → Guard) :
    Lib.Compares (fun p q => compareGuardsBySampledIdx (guards p) (guards q)) fun p => (guards p).sampledIdx := by
  intro p q
  simp only [compareGuardsBySampledIdx]
  split_ifs <;> omega

theorem sampledIdx_injOn {guards : Ptr → Guard} (h : l.Pairwise fun p q => (guards p).sampledIdx < (guards q).sampledIdx) :
    ∀ p ∈ l, ∀ q ∈ l, (guards p).sampledIdx = (guards q).sampledIdx → p = q := by
  have hkeys : (l.map fun p => (guards p).sampledIdx).Nodup := List.pairwise_map.mpr (h.imp fun hlt => ne_of_lt hlt)
  intro p hp q hq heq
  exact List.inj_on_of_nodup_map hkeys hp hq heq

/-- Sorting by the sample index gives the one list of these guards in sample order. -/
theorem sort_eq_of_perm {guards : Ptr → Guard} (hl : l'.Perm l)
    (h : l.Pairwise fun p q => (guards p).sampledIdx < (guards q).sampledIdx) :
    smartlistSort guards compareGuardsBySampledIdx l' = l := by
  have hcmp := compares_sampledIdx guards
  have hself : Lib.SortedFrom (fun p q => compareGuardsBySampledIdx (guards p) (guards q)) l l :=
    ⟨List.Perm.refl l, h.imp fun {p q} hlt => (hcmp p q).mpr (le_of_lt hlt)⟩
  have hsorted := Lib.insertionSort_isSort hcmp l'
  have heq := @Lib.sorted_filter _ _ _ _ _ _ _ _ _ (fun _ => true) hcmp hl hsorted hself fun p hp q hq _ _ =>
    sampledIdx_injOn h p (hl.subset hp) q (hl.subset hq)
  simpa [smartlistSort] using heq

theorem perm_sort (guards : Ptr → Guard) (compare : Guard → Guard → Int) :
    (smartlistSort guards compare l).Perm l :=
  List.perm_insertionSort _ l

/-- What the two operations that confirm guards do: the guards that have a confirmed index afterwards are sorted by
    their sample index. -/
structure Reconfirmed (gs gs' : GuardSelection) (sl : List Ptr) : Prop where
  sampled : gs'.sampledEntryGuards = gs.sampledEntryGuards
  nextPtr : gs'.nextPtr = gs.nextPtr
  nextSampledIdx : gs'.nextSampledIdx = gs.nextSampledIdx
  sampledIdx : ∀ p, (gs'.guards p).sampledIdx = (gs.guards p).sampledIdx
  identity : ∀ p, (gs'.guards p).identity = (gs.guards p).identity
  isPrimary : ∀ p, (gs'.guards p).isPrimary = (gs.guards p).isPrimary
  flags : ∀ p, FlagsOk (gs.guards p) → FlagsOk (gs'.guards p)
  confirmed : gs'.confirmedEntryGuards = smartlistSort gs'.guards compareGuardsBySampledIdx sl
  nodup : sl.Nodup
  mem : ∀ p, p ∈ sl ↔ p ∈ gs.sampledEntryGuards ∧ 0 ≤ (gs'.guards p).confirmedIdx
  confirmedIdx : sl.Pairwise fun p q => (gs'.guards p).confirmedIdx ≠ (gs'.guards q).confirmedIdx
  confirmedIdx_lt : ∀ p ∈ sl, (gs'.guards p).confirmedIdx < gs'.nextConfirmedIdx
  next_nonneg : 0 ≤ gs'.nextConfirmedIdx

theorem Core.of_reconfirmed {sl : List Ptr} (h : Core gs) (hr : Reconfirmed gs gs' sl) : Core gs' := by
  have hsampled : gs'.sampledEntryGuards.Pairwise fun p q => (gs'.guards p).sampledIdx < (gs'.guards q).sampledIdx := by
    rw [hr.sampled]
    exact h.sampledIdx.imp fun {p q} hlt => by rwa [hr.sampledIdx, hr.sampledIdx]
  have hperm : sl.Perm (gs'.sampledEntryGuards.filter (isConfirmed gs')) := by
    refine (List.perm_ext_iff_of_nodup hr.nodup ?_).mpr fun p => ?_
    · rw [hr.sampled]
      exact h.nodup_sampled.filter _
    · rw [hr.mem, hr.sampled, List.mem_filter, isConfirmed, decide_eq_true_eq]
  have heq : gs'.confirmedEntryGuards = gs'.sampledEntryGuards.filter (isConfirmed gs') := by
    rw [hr.confirmed]
    exact sort_eq_of_perm hperm (hsampled.filter _)
  have hlist : gs'.confirmedEntryGuards.Perm sl := heq ▸ hperm.symm
  refine ⟨hsampled, fun p hp => ?_, ?_, fun p hp => ?_, heq, ?_, fun p hp => ?_, hr.next_nonneg, fun p hp => ?_⟩
  · rw [hr.sampledIdx, hr.nextSampledIdx]
    exact h.sampledIdx_lt p (hr.sampled ▸ hp)
  · rw [hr.sampled]
    exact h.identity.imp fun {p q} hne => by rwa [hr.identity, hr.identity]
  · rw [hr.nextPtr]
    exact h.allocated p (hr.sampled ▸ hp)
  · exact (hlist.pairwise_iff fun hne => hne.symm).mpr hr.confirmedIdx
  · exact hr.confirmedIdx_lt p (hlist.subset hp)
  · exact hr.flags p (h.flags p (hr.sampled ▸ hp))

theorem Reconfirmed.keeps {sl : List Ptr} (hr : Core gs → Reconfirmed gs gs' sl)
    (hp : gs'.primaryEntryGuards = gs.primaryEntryGuards) (hlim : gs'.primaryLimit = gs.primaryLimit) :
    Keeps gs gs' where
  core hc := hc.of_reconfirmed (hr hc)
  marked hc l hm := by
    refine ⟨fun p hp => (hr hc).sampled ▸ hm.sampled p hp, fun p hp => ?_⟩
    rw [(hr hc).isPrimary]
    exact hm.iff p ((hr hc).sampled ▸ hp)
  primary := hp
  limit := hlim

section Renumber

variable {idx : Nat} {sl : List Ptr}

/-- Only guards are changed, and of these only the confirmed index. -/
theorem renumber_eq : renumberConfirmed idx gs sl = { gs with guards := (renumberConfirmed idx gs sl).guards } := by
  induction sl generalizing idx gs with
  | nil => rfl
  | cons q rest ih => exact ih

theorem renumber_guards (p : Ptr) :
    ∃ i, (renumberConfirmed idx gs sl).guards p = { gs.guards p with confirmedIdx := i } := by
  induction sl generalizing idx gs with
  | nil => exact ⟨(gs.guards p).confirmedIdx, rfl⟩
  | cons q rest ih =>
    obtain ⟨i, hi⟩ := @ih (gs.modify q fun guard => { guard with confirmedIdx := idx }) (idx + 1)
    refine ⟨i, hi.trans ?_⟩
    by_cases hp : p = q
    · subst hp
      simp [GuardSelection.modify]
    · simp [GuardSelection.modify, hp]

theorem renumber_notMem (h : p ∉ sl) : (renumberConfirmed idx gs sl).guards p = gs.guards p := by
  induction sl generalizing idx gs with
  | nil => rfl
  | cons q rest ih =>
    obtain ⟨hne, hrest⟩ := not_or.mp (fun hor => h (List.mem_cons.mpr hor))
    rw [renumberConfirmed, ih hrest]
    simp [GuardSelection.modify, hne]

theorem renumber_getElem? (hnd : sl.Nodup) {i : Nat} (h : sl[i]? = some p) :
    ((renumberConfirmed idx gs sl).guards p).confirmedIdx = ((idx + i : Nat) : Int) := by
  induction sl generalizing idx gs i with
  | nil => simp at h
  | cons q rest ih =>
    obtain ⟨hnot, hnd⟩ := List.nodup_cons.mp hnd
    rw [renumberConfirmed]
    cases i with
    | zero =>
      obtain rfl : q = p := by simpa using h
      rw [renumber_notMem hnot]
      simp [GuardSelection.modify]
    | succ i =>
      rw [ih hnd (by simpa using h)]
      congr 1
      omega

end Renumber

theorem updateConfirmed_reconfirmed (h : Core gs) :
    Reconfirmed gs (entryGuardsUpdateConfirmed gs) (smartlistSort gs.guards compareGuardsByConfirmedIdx
      (gs.sampledEntryGuards.filter fun p => 0 ≤ (gs.guards p).confirmedIdx)) := by
  unfold entryGuardsUpdateConfirmed
  simp only
  generalize hsl : smartlistSort gs.guards compareGuardsByConfirmedIdx
    (gs.sampledEntryGuards.filter fun p => 0 ≤ (gs.guards p).confirmedIdx) = sl
  have hperm : sl.Perm (gs.sampledEntryGuards.filter fun p => 0 ≤ (gs.guards p).confirmedIdx) := hsl ▸ perm_sort _ _
  have hnodup : sl.Nodup := hperm.nodup_iff.mpr (h.nodup_sampled.filter _)
  have hguards := @renumber_guards gs 0 sl
  have hidx : ∀ (i : Nat) p, sl[i]? = some p → ((renumberConfirmed 0 gs sl).guards p).confirmedIdx = i := by
    intro i p hp
    rw [renumber_getElem? hnodup hp, Nat.zero_add]
  have hsampled : (renumberConfirmed 0 gs sl).sampledEntryGuards = gs.sampledEntryGuards := by
    rw [renumber_eq]
  have hptr : (renumberConfirmed 0 gs sl).nextPtr = gs.nextPtr := by rw [renumber_eq]
  have hnext : (renumberConfirmed 0 gs sl).nextSampledIdx = gs.nextSampledIdx := by rw [renumber_eq]
  refine ⟨hsampled, hptr, hnext, fun p => ?_, fun p => ?_, fun p => ?_, fun p hp => ?_, rfl, hnodup, fun p => ?_, ?_,
    fun p hp => ?_, ?_⟩
  · obtain ⟨i, hi⟩ := hguards p
    simp only [hi]
  · obtain ⟨i, hi⟩ := hguards p
    simp only [hi]
  · obtain ⟨i, hi⟩ := hguards p
    simp only [hi]
  · obtain ⟨i, hi⟩ := hguards p
    simp only [hi]
    exact hp
  · by_cases hp : p ∈ sl
    · obtain ⟨i, hi⟩ := List.mem_iff_getElem?.mp hp
      have hmem := (List.mem_filter.mp (hperm.subset hp)).1
      simp only [hp, hmem, hidx i p hi, true_iff, true_and]
      exact Int.natCast_nonneg i
    · have hnot : ¬(p ∈ gs.sampledEntryGuards ∧ 0 ≤ (gs.guards p).confirmedIdx) := by
        intro hin
        apply hp
        exact hperm.symm.subset (List.mem_filter.mpr ⟨hin.1, decide_eq_true hin.2⟩)
      simp only [hp, false_iff, renumber_notMem hp]
      exact hnot
  · rw [List.pairwise_iff_getElem]
    intro i j hi hj hij
    simp only
    rw [hidx i _ (List.getElem?_eq_getElem hi), hidx j _ (List.getElem?_eq_getElem hj)]
    omega
  · obtain ⟨i, hi⟩ := List.mem_iff_getElem?.mp hp
    obtain ⟨hlt, -⟩ := List.getElem?_eq_some_iff.mp hi
    simp only [hidx i p hi]
    omega
  · exact Int.natCast_nonneg _

theorem updateConfirmed_keeps : Keeps gs (entryGuardsUpdateConfirmed gs) := by
  apply Reconfirmed.keeps updateConfirmed_reconfirmed
  · unfold entryGuardsUpdateConfirmed
    simp only
    rw [renumber_eq]
  · unfold entryGuardsUpdateConfirmed
    simp only
    rw [renumber_eq]

/-- A sampled guard that is not confirmed gets the next index and its place in the list. -/
theorem confirm_reconfirmed {date : Time} (h : Core gs) (hp : p ∈ gs.sampledEntryGuards)
    (hnew : p ∉ gs.confirmedEntryGuards) (hs : gs'.sampledEntryGuards = gs.sampledEntryGuards)
    (hptr : gs'.nextPtr = gs.nextPtr) (hidx : gs'.nextSampledIdx = gs.nextSampledIdx)
    (hnext : gs'.nextConfirmedIdx = gs.nextConfirmedIdx + 1)
    (hguards : gs'.guards = (gs.modify p fun guard =>
      { guard with confirmedOnDate := date, confirmedIdx := gs.nextConfirmedIdx }).guards)
    (hconf : gs'.confirmedEntryGuards =
      smartlistSort gs'.guards compareGuardsBySampledIdx (gs.confirmedEntryGuards ++ [p])) :
    Reconfirmed gs gs' (gs.confirmedEntryGuards ++ [p]) := by
  have hself : gs'.guards p =
      { gs.guards p with confirmedOnDate := date, confirmedIdx := gs.nextConfirmedIdx } := by
    rw [hguards]
    simp [GuardSelection.modify]
  have hother : ∀ q, q ≠ p → gs'.guards q = gs.guards q := by
    intro q hq
    rw [hguards]
    simp [GuardSelection.modify, hq]
  have hold : ∀ q ∈ gs.confirmedEntryGuards, gs'.guards q = gs.guards q := by
    intro q hq
    exact hother q fun heq => hnew (heq ▸ hq)
  have hsame : ∀ q, (gs'.guards q).sampledIdx = (gs.guards q).sampledIdx ∧
      (gs'.guards q).identity = (gs.guards q).identity ∧ (gs'.guards q).isPrimary = (gs.guards q).isPrimary ∧
      (FlagsOk (gs.guards q) → FlagsOk (gs'.guards q)) := by
    intro q
    by_cases hqp : q = p
    · rw [hqp, hself]
      exact ⟨rfl, rfl, rfl, id⟩
    · rw [hother q hqp]
      exact ⟨rfl, rfl, rfl, id⟩
  refine ⟨hs, hptr, hidx, fun q => (hsame q).1, fun q => (hsame q).2.1, fun q => (hsame q).2.2.1,
    fun q => (hsame q).2.2.2, hconf, ?_, fun q => ?_, ?_, fun q hq => ?_, ?_⟩
  · rw [List.nodup_append]
    refine ⟨h.nodup_confirmed, List.nodup_singleton p, fun a ha b hb heq => ?_⟩
    rw [List.mem_singleton] at hb
    exact hnew (hb ▸ heq ▸ ha)
  · by_cases hqp : q = p
    · subst hqp
      simp [hself, hp, h.next_nonneg]
    · simp [hqp, hother q hqp, h.mem_confirmed]
  · refine List.pairwise_append.mpr ⟨?_, List.pairwise_singleton _ _, fun a ha b hb => ?_⟩
    · exact h.confirmedIdx.imp_of_mem fun {a b} ha hb hne => by rwa [hold a ha, hold b hb]
    · rw [List.mem_singleton] at hb
      rw [hb, hself, hold a ha]
      exact ne_of_lt (h.confirmedIdx_lt a ha)
  · rw [hnext]
    rcases List.mem_append.mp hq with hq | hq
    · rw [hold q hq]
      exact Int.lt_add_one_of_le (le_of_lt (h.confirmedIdx_lt q hq))
    · rw [List.mem_singleton] at hq
      rw [hq, hself]
      exact Int.lt_succ _
  · rw [hnext]
    exact Int.le_add_one h.next_nonneg

theorem makeGuardConfirmed_keeps (hp : p ∈ gs.sampledEntryGuards) : Keeps gs (makeGuardConfirmed env gs p) := by
  unfold makeGuardConfirmed
  split
  · exact (Quiet.refl gs).keeps
  split
  · exact (Quiet.refl gs).keeps
  rename_i hnew
  exact Reconfirmed.keeps (fun hc => confirm_reconfirmed hc hp hnew rfl rfl rfl rfl rfl rfl) rfl rfl

/-! ## The primary guards -/

theorem Core.setPrimary {b : Bool} (h : Core gs) : Core (gs.setPrimary p b) :=
  h.of_keepsLists (keepsLists_modify ⟨rfl, rfl, rfl, id⟩)

theorem Marked.setPrimary {b : Bool} (h : Marked gs l) (hp : p ∈ gs.sampledEntryGuards) (hself : b = true ↔ p ∈ l')
    (hother : ∀ q, q ≠ p → (q ∈ l' ↔ q ∈ l)) : Marked (gs.setPrimary p b) l' := by
  refine ⟨fun q hq => ?_, fun q hq => ?_⟩
  · by_cases hqp : q = p
    · exact hqp ▸ hp
    · exact h.sampled q ((hother q hqp).mp hq)
  · by_cases hqp : q = p
    · subst hqp
      simpa [GuardSelection.setPrimary, GuardSelection.modify] using hself
    · rw [hother q hqp, ← h.iff q hq]
      simp [GuardSelection.setPrimary, GuardSelection.modify, hqp]

/-- While the list is rebuilt: the guards of the new list and those of the old one that are still to be looked at carry
    the mark. -/
structure Filled (n : Nat) (gs : GuardSelection) (new rest : List Ptr) : Prop where
  core : Core gs
  marked : Marked gs (new ++ rest)
  nodup : new.Nodup
  length_le : new.length ≤ n
  limit : gs.primaryLimit = n

section Fill

variable {n : Nat} {new old : List Ptr}

theorem Filled.add (h : Filled n gs new old) (hp : p ∈ gs.sampledEntryGuards) (hnew : p ∉ new) (hlen : new.length < n)
    (hold : ∀ q, q ≠ p → (q ∈ l ↔ q ∈ old)) : Filled n (gs.setPrimary p true) (new ++ [p]) l where
  core := h.core.setPrimary
  marked := by
    apply h.marked.setPrimary hp
    · simp
    · intro q hq
      simp [hq, hold q hq]
  nodup := List.nodup_append.mpr ⟨h.nodup, List.nodup_singleton p, by
    intro a ha b hb heq
    rw [List.mem_singleton] at hb
    exact hnew (hb ▸ heq ▸ ha)⟩
  length_le := by
    rw [List.length_append, List.length_singleton]
    exact hlen
  limit := h.limit

theorem keepConfirmed_filled (h : Filled n gs new old) (hnodup : (new ++ l).Nodup)
    (hl : ∀ p ∈ l, p ∈ gs.sampledEntryGuards) :
    Filled n (keepConfirmed n l gs new).1 (keepConfirmed n l gs new).2 old := by
  induction l generalizing gs new with
  | nil => exact h
  | cons p rest ih =>
    have hsplit : ((new ++ [p]) ++ rest).Nodup := by simpa using hnodup
    have hrest : ∀ q ∈ rest, q ∈ gs.sampledEntryGuards := fun q hq => hl q (List.mem_cons_of_mem _ hq)
    simp only [keepConfirmed]
    split
    · exact h
    rename_i hlen
    split
    · refine ih h ?_ hrest
      exact hnodup.sublist ((List.Sublist.refl _).append (List.sublist_cons_self _ _))
    · refine ih (h.add (hl p List.mem_cons_self) ?_ (by omega) fun _ _ => Iff.rfl) hsplit hrest
      intro hin
      exact (List.nodup_append.mp hnodup).2.2 p hin p List.mem_cons_self rfl

theorem keepOld_filled (h : Filled n gs new old) (hnodup : old.Nodup) :
    Filled n (keepOld n old gs new).1 (keepOld n old gs new).2 [] := by
  induction old generalizing gs new with
  | nil => exact h
  | cons p rest ih =>
    obtain ⟨hp, hnodup⟩ := List.nodup_cons.mp hnodup
    have hsampled : p ∈ gs.sampledEntryGuards := h.marked.sampled p (by simp)
    simp only [keepOld]
    split
    · rename_i hnew
      refine ih ⟨h.core, h.marked.congr fun q => ?_, h.nodup, h.length_le, h.limit⟩ hnodup
      by_cases hq : q = p
      · subst hq
        simp [hnew]
      · simp [hq]
    rename_i hnew
    split
    · rename_i hkeep
      rw [Bool.and_eq_true, decide_eq_true_eq] at hkeep
      refine ih (h.add hsampled hnew hkeep.1 fun q hq => ?_) hnodup
      simp [hq]
    · refine ih ⟨h.core.setPrimary, h.marked.setPrimary hsampled ?_ fun q hq => ?_, h.nodup, h.length_le, h.limit⟩ hnodup
      · simp [hnew, hp]
      · simp [hq]

end Fill

/-- Whatever is kept when the lists are and by the update of the primary list is kept by the search for a guard. -/
theorem firstReachable_rule {I : GuardSelection → Prop} {updatePrimary : GuardSelection → GuardSelection}
    {rst : Option Restriction} {flags : SampleFlags} (hkeeps : ∀ gs gs', Keeps gs gs' → I gs → I gs')
    (hupdate : ∀ gs, I gs → I (updatePrimary gs)) (h : I gs) :
    I (firstReachableFilteredEntryGuard updatePrimary env gs rst flags).1 := by
  unfold firstReachableFilteredEntryGuard
  have hretry : I (gs.modifyEach gs.sampledEntryGuards (entryGuardConsiderRetry env)) :=
    hkeeps _ _ (quiet_modifyEach entryGuardConsiderRetry_retimed).keeps h
  have hcount := hkeeps _ _ (@numReachable_quiet env _ rst).keeps hretry
  simp only
  apply hkeeps _ _ reachableFilteredSample_spec.1.keeps
  have hupdated : ∀ {gs'} {b : Bool}, I gs' → I (if b then updatePrimary gs' else gs') := by
    intro gs' b hi
    cases b with
    | false => exact hi
    | true => exact hupdate gs' hi
  apply hupdated
  split
  · exact hkeeps _ _ expandSample_keeps hcount
  · exact hcount

theorem firstReachable_some {updatePrimary : GuardSelection → GuardSelection} {rst : Option Restriction}
    {flags : SampleFlags} (h : firstReachableFilteredEntryGuard updatePrimary env gs rst flags = (gs', some p)) :
    p ∈ gs'.sampledEntryGuards ∧ (flags.excludePrimary = true → (gs'.guards p).isPrimary = false) := by
  unfold firstReachableFilteredEntryGuard at h
  simp only [Prod.mk.injEq] at h
  obtain ⟨rfl, hhead⟩ := h
  obtain ⟨hquiet, hmem⟩ := @reachableFilteredSample_spec env _ _ rst flags
  obtain ⟨hp, hprimary⟩ := hmem p (List.mem_of_mem_head? hhead)
  rw [hquiet.sampled, hquiet.marks]
  exact ⟨hp, hprimary⟩

theorem Filled.of_keeps {n : Nat} {new rest : List Ptr} (h : Filled n gs new rest) (hk : Keeps gs gs') :
    Filled n gs' new rest :=
  ⟨hk.core h.core, hk.marked h.core _ h.marked, h.nodup, h.length_le, hk.limit.trans h.limit⟩

theorem fillFromSample_filled {n places : Nat} {new : List Ptr} (h : Filled n gs new [])
    (hplaces : places ≤ n - new.length) :
    Filled n (fillFromSample env places gs new).1 (fillFromSample env places gs new).2 [] := by
  induction places generalizing gs new with
  | zero => exact h
  | succ places ih =>
    have hrule := @firstReachable_rule env gs (Filled n · new []) id none fillFlags (fun _ _ hk hi => hi.of_keeps hk)
      (fun _ hi => hi) h
    simp only [fillFromSample]
    rcases hfirst : firstReachableFilteredEntryGuard id env gs none fillFlags with ⟨gs', _ | p⟩
    · rw [hfirst] at hrule
      exact hrule
    · rw [hfirst] at hrule
      obtain ⟨hp, hprimary⟩ := firstReachable_some hfirst
      have hnew : p ∉ new := by
        intro hin
        have hmark := (hrule.marked.iff p hp).mpr (List.mem_append_left _ hin)
        rw [hprimary rfl] at hmark
        cases hmark
      apply ih (hrule.add hp hnew (by omega) fun _ _ => Iff.rfl)
      rw [List.length_append, List.length_singleton]
      omega

theorem updatePrimary_maintains : Maintains env gs (entryGuardsUpdatePrimary env gs) := by
  have hfilled : Inv gs → Filled (getNPrimaryGuards env)
      { gs with primaryGuardsUpToDate := true, primaryLimit := getNPrimaryGuards env } [] gs.primaryEntryGuards := by
    intro h
    have hlists : KeepsLists gs { gs with primaryGuardsUpToDate := true, primaryLimit := getNPrimaryGuards env } :=
      ⟨rfl, rfl, rfl, rfl, rfl, fun _ => KeepsKeys.refl _⟩
    exact ⟨h.core.of_keepsLists hlists, ⟨h.marked.sampled, h.marked.iff⟩, List.nodup_nil, Nat.zero_le _, rfl⟩
  unfold entryGuardsUpdatePrimary
  simp only
  generalize hconf : keepConfirmed _ _ _ _ = kept
  generalize hold : keepOld _ _ _ _ = olds
  generalize hfill : fillFromSample _ _ _ _ = full
  have hfull : Inv gs → Filled (getNPrimaryGuards env) full.1 full.2 [] := by
    intro h
    have hkept := keepConfirmed_filled (hfilled h) (h.core.nodup_confirmed) fun p hp => (h.core.mem_confirmed.mp hp).1
    rw [hconf] at hkept
    have holds := keepOld_filled hkept h.nodup
    rw [hold] at holds
    have hfull := @fillFromSample_filled env _ _ _ _ holds (Nat.le_refl _)
    rwa [hfill] at hfull
  -- sorted or not, the new list has the same members
  have hperm : (if full.1.primaryEntryGuards = full.2 then full.2
      else smartlistSort full.1.guards compareGuardsBySampledIdx full.2).Perm full.2 := by
    split
    · exact List.Perm.refl _
    · exact perm_sort _ _
  refine ⟨fun h => ⟨?_, ⟨?_, ?_⟩, ?_, ?_⟩, fun h => .inr (hfull h).limit⟩
  · exact (hfull h).core.of_keepsLists ⟨rfl, rfl, rfl, rfl, rfl, fun _ => KeepsKeys.refl _⟩
  · intro p hp
    exact (hfull h).marked.sampled p (List.mem_append_left _ (hperm.subset hp))
  · intro p hp
    rw [(hfull h).marked.iff p hp, List.append_nil]
    exact hperm.symm.mem_iff
  · exact hperm.nodup_iff.mpr (hfull h).nodup
  · refine le_of_eq_of_le hperm.length_eq ?_
    exact le_of_le_of_eq (hfull h).length_le (hfull h).limit.symm

/-! ## The operations -/

theorem updatePrimaryIf_maintains {b : Bool} :
    Maintains env gs (if b then entryGuardsUpdatePrimary env gs else gs) := by
  cases b with
  | false => exact (Quiet.refl gs).maintains
  | true => exact updatePrimary_maintains

theorem selectFiltered_maintains {usage : GuardUsage} {rst : Option Restriction} :
    Maintains env gs (selectFilteredGuardForCircuit env gs usage rst).1 := by
  unfold selectFilteredGuardForCircuit
  have hfirst : ∀ flags, Maintains env gs
      (firstReachableFilteredEntryGuard (entryGuardsUpdatePrimary env) env gs rst flags).1 := by
    intro flags
    apply firstReachable_rule (I := Maintains env gs)
    · intro a b hk hi
      exact hi.trans hk.maintains
    · intro a hi
      exact hi.trans updatePrimary_maintains
    · exact (Quiet.refl gs).maintains
  have hfirst := hfirst ⟨true, true, true, false, usage == .traffic⟩
  simp only
  rcases hres : firstReachableFilteredEntryGuard (entryGuardsUpdatePrimary env) env gs rst _ with ⟨gs', _ | p⟩
  · rw [hres] at hfirst
    exact hfirst
  · rw [hres] at hfirst
    exact hfirst.trans takePending_quiet.maintains

theorem selectEntryGuard_maintains {usage : GuardUsage} {rst : Option Restriction} :
    Maintains env gs (selectEntryGuardForCircuit env gs usage rst).1 := by
  unfold selectEntryGuardForCircuit
  simp only
  generalize hgs : (if (!gs.primaryGuardsUpToDate) = true then entryGuardsUpdatePrimary env gs else gs) = gs1
  have hupdated : Maintains env gs gs1 := hgs ▸ updatePrimaryIf_maintains
  have hprimary := hupdated.trans (@selectPrimary_quiet env gs1 usage rst).maintains
  rcases hsel : selectPrimaryGuardForCircuit env gs1 usage rst with ⟨gs2, _ | chosen⟩
  all_goals rw [hsel] at hprimary
  case some => exact hprimary
  have hconfirmed := hprimary.trans (@selectConfirmed_quiet env gs2 usage rst).maintains
  simp only
  rcases hsel : selectConfirmedGuardForCircuit env gs2 usage rst with ⟨gs3, _ | chosen⟩
  all_goals rw [hsel] at hconfirmed
  case some => exact hconfirmed
  have hfiltered := hconfirmed.trans (@selectFiltered_maintains env gs3 usage rst)
  simp only
  rcases hsel : selectFilteredGuardForCircuit env gs3 usage rst with ⟨gs4, _ | chosen⟩
  all_goals rw [hsel] at hfiltered
  case some => exact hfiltered
  exact hfiltered.trans (quiet_modifyEach markGuardMaybeReachable_retimed).maintains

theorem markPrimary_maintains : Maintains env gs (markPrimaryGuardsMaybeReachable env gs) := by
  unfold markPrimaryGuardsMaybeReachable
  exact updatePrimaryIf_maintains.trans (quiet_modifyEach markGuardMaybeReachable_retimed).maintains

theorem noteGuardSuccess_maintains {oldState : CircState} (hp : p ∈ gs.sampledEntryGuards) :
    Maintains env gs (entryGuardsNoteGuardSuccess env gs p oldState).1 := by
  unfold entryGuardsNoteGuardSuccess
  simp only
  have hnoted : Quiet gs (GuardSelection.modify { gs with lastTimeOnInternet := env.now } p noteSuccess) :=
    (quiet_clock gs _ env.now _).trans (quiet_modify (noteSuccess_retimed _))
  generalize GuardSelection.modify { gs with lastTimeOnInternet := env.now } p noteSuccess = gs1 at hnoted ⊢
  generalize hgs2 : (if (gs1.guards p).confirmedIdx < 0 then
      if (!(makeGuardConfirmed env gs1 p).primaryGuardsUpToDate) = true then
        entryGuardsUpdatePrimary env (makeGuardConfirmed env gs1 p)
      else makeGuardConfirmed env gs1 p
      else gs1) = gs2
  have hconfirmed : Maintains env gs gs2 := by
    rw [← hgs2]
    split
    · have hsampled : p ∈ gs1.sampledEntryGuards := hnoted.sampled ▸ hp
      exact (hnoted.maintains.trans (makeGuardConfirmed_keeps hsampled).maintains).trans updatePrimaryIf_maintains
    · exact hnoted.maintains
  split
  · exact hconfirmed.trans markPrimary_maintains
  · exact hconfirmed

theorem perform_maintains {op : Op} (h : op.allowed gs = true) : Maintains env gs (perform env gs op) := by
  cases op with
  | expandSample => exact expandSample_keeps.maintains
  | updateFromConsensus => exact updateFromConsensus_maintains
  | updateFilteredSets => exact updateFilteredSets_quiet.maintains
  | updateConfirmed => exact updateConfirmed_keeps.maintains
  | updatePrimary => exact updatePrimary_maintains
  | selectForCircuit usage rst => exact selectEntryGuard_maintains
  | noteSuccess p oldState => exact noteGuardSuccess_maintains (of_decide_eq_true h)
  | noteFailure p => exact (quiet_modify (noteFailure_retimed _)).maintains

theorem inv_new (type : GsType) : Inv (guardSelectionNew type) := by
  refine ⟨⟨List.Pairwise.nil, ?_, List.Pairwise.nil, ?_, rfl, List.Pairwise.nil, ?_, le_refl _, ?_⟩, ⟨?_, ?_⟩,
    List.nodup_nil, le_refl _⟩
  all_goals
    intro p hp
    cases hp

/-! ## Runs -/

/-- The three lists, the indices and the flags fit together. -/
structure RepInv (gs : GuardSelection) : Prop where
  identities_ne : gs.sampledEntryGuards.Pairwise fun p q => (gs.guards p).identity ≠ (gs.guards q).identity
  sampledIdx_lt : gs.sampledEntryGuards.Pairwise fun p q => (gs.guards p).sampledIdx < (gs.guards q).sampledIdx
  mem_confirmed : ∀ p, p ∈ gs.confirmedEntryGuards ↔ p ∈ gs.sampledEntryGuards ∧ 0 ≤ (gs.guards p).confirmedIdx
  confirmed_sorted : gs.confirmedEntryGuards.Pairwise fun p q => (gs.guards p).sampledIdx < (gs.guards q).sampledIdx
  confirmedIdx_ne : gs.confirmedEntryGuards.Pairwise fun p q =>
    (gs.guards p).confirmedIdx ≠ (gs.guards q).confirmedIdx
  confirmedIdx_lt : ∀ p ∈ gs.confirmedEntryGuards, (gs.guards p).confirmedIdx < gs.nextConfirmedIdx
  isPrimary_iff : ∀ p ∈ gs.sampledEntryGuards, (gs.guards p).isPrimary = true ↔ p ∈ gs.primaryEntryGuards
  primary_sampled : ∀ p ∈ gs.primaryEntryGuards, p ∈ gs.sampledEntryGuards
  primary_nodup : gs.primaryEntryGuards.Nodup
  primary_length : gs.primaryEntryGuards.length ≤ gs.primaryLimit
  usable_iff : ∀ p ∈ gs.sampledEntryGuards, (gs.guards p).isUsableFilteredGuard = true ↔
    (gs.guards p).isFilteredGuard = true ∧ (gs.guards p).isReachable ≠ .no

theorem Inv.repInv (h : Inv gs) : RepInv gs where
  identities_ne := h.core.identity
  sampledIdx_lt := h.core.sampledIdx
  mem_confirmed _ := h.core.mem_confirmed
  confirmed_sorted := h.core.confirmed_sampledIdx
  confirmedIdx_ne := h.core.confirmedIdx
  confirmedIdx_lt := h.core.confirmedIdx_lt
  isPrimary_iff := h.marked.iff
  primary_sampled := h.marked.sampled
  primary_nodup := h.nodup
  primary_length := h.length_le
  usable_iff := h.core.flags

/-- The limit on the primary list is what `get_n_primary_guards` returned at one of the operations. -/
theorem guard_selection_invariant {type : GsType} {ls : List (Env × Op)}
    (h : Lib.run step (guardSelectionNew type) ls = some gs) :
    RepInv gs ∧ (gs.primaryLimit = 0 ∨ ∃ l ∈ ls, gs.primaryLimit = getNPrimaryGuards l.1) := by
  have hrun : Inv gs ∧ (gs.primaryLimit = 0 ∨ ∃ l ∈ ls, gs.primaryLimit = getNPrimaryGuards l.1) := by
    refine Lib.run_inv_hist (I := fun ls gs =>
      Inv gs ∧ (gs.primaryLimit = 0 ∨ ∃ l ∈ ls, gs.primaryLimit = getNPrimaryGuards l.1)) ⟨inv_new type, Or.inl rfl⟩ ?_ h
    intro ls gs l gs' _ hgs hstep
    obtain ⟨hinv, hlim⟩ := hgs
    simp only [step, Option.ite_none_right_eq_some, Option.some.injEq] at hstep
    obtain ⟨hallowed, rfl⟩ := hstep
    have hm := @perform_maintains l.1 gs l.2 hallowed
    refine ⟨hm.inv hinv, ?_⟩
    rcases hm.limit hinv with hsame | hnew
    · rw [hsame]
      rcases hlim with hzero | ⟨m, hm, hlim⟩
      · exact Or.inl hzero
      · exact Or.inr ⟨m, List.mem_append_left _ hm, hlim⟩
    · exact Or.inr ⟨l, by simp, hnew⟩
  exact ⟨hrun.1.repInv, hrun.2⟩

/-! ## When the options change -/

def possibleGuard (id : Identity) : Node := ⟨id, true, true, true, true, true, false⟩

/-- Two guards are on the network and pass every filter; the options ask for `n` primary guards. -/
def twoGuards (n : Nat) : Env where
  nodes := [possibleGuard 1, possibleGuard 2]
  nodes_distinct := by decide
  options := ⟨fun _ => false, none, 0, n, 1, 0⟩
  params := ⟨fun nGuards => nGuards / 5, 60, 20, 20, 120, 60, 3, 1, 3, 600⟩
  now := 1700000000
  reasonablyLiveConsensus := true
  reachableAddrAllowsNode := fun _ => true
  nodeIsAConfiguredBridge := fun _ => false
  nodesInSameFamily := fun _ _ => false
  nodeHasPreferredDescriptor := fun _ => true
  relayIsOutdatedDirserver := fun _ => false
  pathBiasDisabled := fun _ => false
  rand := fun _ => 0
  siphash := fun _ _ id => id.setWidth 64

/-- The primary list is built for two guards; then the options ask for one, and a guard fails. -/
def fewerGuards : List (Env × Op) := [(twoGuards 2, .updatePrimary)]

theorem fewer_primary_guards_keep_the_list :
    ¬∀ (type : GsType) (ls : List (Env × Op)) (env : Env) (op : Op) (gs : GuardSelection),
      Lib.run step (guardSelectionNew type) (ls ++ [(env, op)]) = some gs →
        gs.primaryEntryGuards.length ≤ getNPrimaryGuards env := by
  intro hclaim
  have hlists : (Lib.run step (guardSelectionNew .normal) (fewerGuards ++ [(twoGuards 1, .noteFailure 0)])).map
      (·.primaryEntryGuards) = some [0, 1] := by decide +kernel
  obtain ⟨gs, hgs, hprimary⟩ := Option.map_eq_some_iff.mp hlists
  have hle := hclaim _ _ _ _ gs hgs
  rw [hprimary] at hle
  exact absurd hle (by decide)

theorem two_primary_guards_fit :
    ∃ gs, Lib.run step (guardSelectionNew .normal) fewerGuards = some gs ∧
      (RepInv gs ∧ (gs.primaryLimit = 0 ∨ ∃ l ∈ fewerGuards, gs.primaryLimit = getNPrimaryGuards l.1)) ∧
      gs.primaryEntryGuards = [0, 1] := by
  have hlists : (Lib.run step (guardSelectionNew .normal) fewerGuards).map (·.primaryEntryGuards) = some [0, 1] := by
    decide +kernel
  obtain ⟨gs, hgs, hprimary⟩ := Option.map_eq_some_iff.mp hlists
  exact ⟨gs, hgs, guard_selection_invariant hgs, hprimary⟩

end Badnet.Entrynodes

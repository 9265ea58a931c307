/-
  Badnet.Entrynodes.Lists — what the operations on a guard selection keep of its lists.

  `Core` ties the sampled and the confirmed list to the indices the guards carry, `Marked` says which guards carry the
  primary mark. Most of the code only sets flags and times of guards (`Quiet`), which keeps both; growing the sample
  keeps both with the primary list as it was (`Keeps`, `expandSample_keeps`).
-/

import Badnet.Entrynodes.Select
import Badnet.Lib.Sorting

namespace Badnet.Entrynodes

variable {env : Env} {gs gs' gs'' : GuardSelection} {p : Ptr} {l l' : List Ptr}

/-! ## The invariant of the lists -/

variable (guard : Guard)

/-- The usable flag is set for the filtered guards that are not known to be unreachable. -/
def FlagsOk : Prop :=
  guard.isUsableFilteredGuard = true ↔ guard.isFilteredGuard = true ∧ guard.isReachable ≠ .no

def isConfirmed (gs : GuardSelection) (p : Ptr) : Bool := decide (0 ≤ (gs.guards p).confirmedIdx)

structure Core (gs : GuardSelection) : Prop where
  sampledIdx : gs.sampledEntryGuards.Pairwise fun p q => (gs.guards p).sampledIdx < (gs.guards q).sampledIdx
  sampledIdx_lt : ∀ p ∈ gs.sampledEntryGuards, (gs.guards p).sampledIdx < gs.nextSampledIdx
  identity : gs.sampledEntryGuards.Pairwise fun p q => (gs.guards p).identity ≠ (gs.guards q).identity
  allocated : ∀ p ∈ gs.sampledEntryGuards, p < gs.nextPtr
  confirmed_eq : gs.confirmedEntryGuards = gs.sampledEntryGuards.filter (isConfirmed gs)
  confirmedIdx : gs.confirmedEntryGuards.Pairwise fun p q => (gs.guards p).confirmedIdx ≠ (gs.guards q).confirmedIdx
  confirmedIdx_lt : ∀ p ∈ gs.confirmedEntryGuards, (gs.guards p).confirmedIdx < gs.nextConfirmedIdx
  next_nonneg : 0 ≤ gs.nextConfirmedIdx
  flags : ∀ p ∈ gs.sampledEntryGuards, FlagsOk (gs.guards p)

/-- The guards that carry the primary mark are those of the list. -/
structure Marked (gs : GuardSelection) (l : List Ptr) : Prop where
  sampled : ∀ p ∈ l, p ∈ gs.sampledEntryGuards
  iff : ∀ p ∈ gs.sampledEntryGuards, (gs.guards p).isPrimary = true ↔ p ∈ l

theorem Core.mem_confirmed (h : Core gs) :
    p ∈ gs.confirmedEntryGuards ↔ p ∈ gs.sampledEntryGuards ∧ 0 ≤ (gs.guards p).confirmedIdx := by
  rw [h.confirmed_eq, List.mem_filter, isConfirmed, decide_eq_true_eq]

theorem Core.confirmed_sampledIdx (h : Core gs) :
    gs.confirmedEntryGuards.Pairwise fun p q => (gs.guards p).sampledIdx < (gs.guards q).sampledIdx := by
  rw [h.confirmed_eq]
  exact h.sampledIdx.filter _

theorem Core.nodup_sampled (h : Core gs) : gs.sampledEntryGuards.Nodup := by
  refine h.sampledIdx.imp fun {p q} hlt heq => ?_
  rw [heq] at hlt
  exact lt_irrefl _ hlt

theorem Core.nodup_confirmed (h : Core gs) : gs.confirmedEntryGuards.Nodup := by
  rw [h.confirmed_eq]
  exact h.nodup_sampled.filter _

theorem Marked.congr (h : Marked gs l) (hl : ∀ p, p ∈ l' ↔ p ∈ l) : Marked gs l' where
  sampled p hp := h.sampled p ((hl p).mp hp)
  iff p hp := (h.iff p hp).trans (hl p).symm

/-! ## Changes that keep the indices -/

structure KeepsKeys (guard guard' : Guard) : Prop where
  identity : guard'.identity = guard.identity
  sampledIdx : guard'.sampledIdx = guard.sampledIdx
  confirmedIdx : guard'.confirmedIdx = guard.confirmedIdx
  flags : FlagsOk guard → FlagsOk guard'

/-- The guards may change, in all but their keys; the lists may not. -/
structure KeepsLists (gs gs' : GuardSelection) : Prop where
  sampled : gs'.sampledEntryGuards = gs.sampledEntryGuards
  confirmed : gs'.confirmedEntryGuards = gs.confirmedEntryGuards
  nextPtr : gs'.nextPtr = gs.nextPtr
  nextSampledIdx : gs'.nextSampledIdx = gs.nextSampledIdx
  nextConfirmedIdx : gs'.nextConfirmedIdx = gs.nextConfirmedIdx
  keys : ∀ p, KeepsKeys (gs.guards p) (gs'.guards p)

theorem Core.of_keepsLists (h : Core gs) (hk : KeepsLists gs gs') : Core gs' where
  sampledIdx := by
    rw [hk.sampled]
    exact h.sampledIdx.imp fun {p q} hlt => by rwa [(hk.keys p).sampledIdx, (hk.keys q).sampledIdx]
  sampledIdx_lt p hp := by
    rw [(hk.keys p).sampledIdx, hk.nextSampledIdx]
    exact h.sampledIdx_lt p (hk.sampled ▸ hp)
  identity := by
    rw [hk.sampled]
    exact h.identity.imp fun {p q} hne => by rwa [(hk.keys p).identity, (hk.keys q).identity]
  allocated p hp := by
    rw [hk.nextPtr]
    exact h.allocated p (hk.sampled ▸ hp)
  confirmed_eq := by
    rw [hk.confirmed, hk.sampled, h.confirmed_eq]
    refine List.filter_congr fun p _ => ?_
    rw [isConfirmed, isConfirmed, (hk.keys p).confirmedIdx]
  confirmedIdx := by
    rw [hk.confirmed]
    exact h.confirmedIdx.imp fun {p q} hne => by rwa [(hk.keys p).confirmedIdx, (hk.keys q).confirmedIdx]
  confirmedIdx_lt p hp := by
    rw [(hk.keys p).confirmedIdx, hk.nextConfirmedIdx]
    exact h.confirmedIdx_lt p (hk.confirmed ▸ hp)
  next_nonneg := by
    rw [hk.nextConfirmedIdx]
    exact h.next_nonneg
  flags p hp := (hk.keys p).flags (h.flags p (hk.sampled ▸ hp))

theorem KeepsKeys.refl : KeepsKeys guard guard := ⟨rfl, rfl, rfl, id⟩

/-- The guard at `p` alone may change. -/
theorem keepsLists_modify {f : Guard → Guard} (h : KeepsKeys (gs.guards p) (f (gs.guards p))) :
    KeepsLists gs (gs.modify p f) where
  sampled := rfl
  confirmed := rfl
  nextPtr := rfl
  nextSampledIdx := rfl
  nextConfirmedIdx := rfl
  keys q := by
    by_cases hq : q = p
    · subst hq
      simpa [GuardSelection.modify] using h
    · simpa [GuardSelection.modify, hq] using KeepsKeys.refl _

/-! ## Changes that keep the primary marks as well -/

structure Quiet (gs gs' : GuardSelection) : Prop extends KeepsLists gs gs' where
  primary : gs'.primaryEntryGuards = gs.primaryEntryGuards
  limit : gs'.primaryLimit = gs.primaryLimit
  marks : ∀ p, (gs'.guards p).isPrimary = (gs.guards p).isPrimary

theorem Quiet.refl (gs : GuardSelection) : Quiet gs gs :=
  ⟨⟨rfl, rfl, rfl, rfl, rfl, fun _ => KeepsKeys.refl _⟩, rfl, rfl, fun _ => rfl⟩

theorem KeepsKeys.trans {a b c : Guard} (h : KeepsKeys a b) (h' : KeepsKeys b c) : KeepsKeys a c where
  identity := h'.identity.trans h.identity
  sampledIdx := h'.sampledIdx.trans h.sampledIdx
  confirmedIdx := h'.confirmedIdx.trans h.confirmedIdx
  flags hflags := h'.flags (h.flags hflags)

theorem Quiet.trans (h : Quiet gs gs') (h' : Quiet gs' gs'') : Quiet gs gs'' where
  sampled := h'.sampled.trans h.sampled
  confirmed := h'.confirmed.trans h.confirmed
  nextPtr := h'.nextPtr.trans h.nextPtr
  nextSampledIdx := h'.nextSampledIdx.trans h.nextSampledIdx
  nextConfirmedIdx := h'.nextConfirmedIdx.trans h.nextConfirmedIdx
  keys p := (h.keys p).trans (h'.keys p)
  primary := h'.primary.trans h.primary
  limit := h'.limit.trans h.limit
  marks p := (h'.marks p).trans (h.marks p)

/-- A guard whose flags and times alone may have changed. -/
structure Retimed (guard guard' : Guard) : Prop extends KeepsKeys guard guard' where
  isPrimary : guard'.isPrimary = guard.isPrimary

theorem Retimed.refl (guard : Guard) : Retimed guard guard := ⟨KeepsKeys.refl _, rfl⟩

theorem quiet_modify {f : Guard → Guard} (h : Retimed (gs.guards p) (f (gs.guards p))) : Quiet gs (gs.modify p f) where
  toKeepsLists := keepsLists_modify h.toKeepsKeys
  primary := rfl
  limit := rfl
  marks q := by
    by_cases hq : q = p
    · subst hq
      simpa [GuardSelection.modify] using h.isPrimary
    · simp [GuardSelection.modify, hq]

/-- Neither the clock of the selection nor the draws are read by the invariant. -/
theorem quiet_clock (gs : GuardSelection) (upToDate : Bool) (time : Time) (draws : Nat) :
    Quiet gs { gs with primaryGuardsUpToDate := upToDate, lastTimeOnInternet := time, draws := draws } :=
  ⟨⟨rfl, rfl, rfl, rfl, rfl, fun _ => KeepsKeys.refl _⟩, rfl, rfl, fun _ => rfl⟩

/-- A loop of quiet turns is quiet. -/
theorem quiet_foldl {σ : Type} {sel : σ → GuardSelection} {turn : σ → Ptr → σ} (s : σ) (l : List Ptr)
    (h : ∀ s p, Quiet (sel s) (sel (turn s p))) : Quiet (sel s) (sel (l.foldl turn s)) := by
  induction l generalizing s with
  | nil => exact Quiet.refl _
  | cons p l ih => exact (h s p).trans (ih (turn s p))

theorem quiet_modifyEach {f : Guard → Guard} (h : ∀ guard, Retimed guard (f guard)) : Quiet gs (gs.modifyEach l f) :=
  @quiet_foldl _ id _ gs l fun _ _ => quiet_modify (h _)

theorem Marked.of_quiet (h : Marked gs l) (hq : Quiet gs gs') : Marked gs' l where
  sampled p hp := hq.sampled ▸ h.sampled p hp
  iff p hp := by
    rw [hq.marks p]
    exact h.iff p (hq.sampled ▸ hp)

/-! ## The quiet operations -/

theorem entryGuardConsiderRetry_retimed : Retimed guard (entryGuardConsiderRetry env guard) := by
  unfold entryGuardConsiderRetry
  split
  · exact Retimed.refl _
  · rename_i hno
    simp only
    split
    · refine ⟨⟨rfl, rfl, rfl, fun hflags => ?_⟩, rfl⟩
      unfold FlagsOk at *
      cases hf : guard.isFilteredGuard <;> simp_all
    · exact Retimed.refl _

theorem markGuardMaybeReachable_retimed : Retimed guard (markGuardMaybeReachable guard) := by
  unfold markGuardMaybeReachable
  split
  · exact Retimed.refl _
  · rename_i hno
    refine ⟨⟨rfl, rfl, rfl, fun hflags => ?_⟩, rfl⟩
    unfold FlagsOk at *
    cases hf : guard.isFilteredGuard <;> simp_all

/-- The flags are right after `entry_guard_set_filtered_flags`, whatever they were. -/
theorem filteredFlags_ok : FlagsOk (filteredFlags env p guard) := by
  unfold filteredFlags
  split
  · apply (entryGuardConsiderRetry_retimed _).flags
    simp [FlagsOk]
  · simp [FlagsOk]

theorem filteredFlags_retimed : Retimed guard (filteredFlags env p guard) := by
  have hok := @filteredFlags_ok env p guard
  unfold filteredFlags at *
  split
  · rename_i hpass
    have hretry := @entryGuardConsiderRetry_retimed env
      { guard with isFilteredGuard := true, isUsableFilteredGuard := decide (guard.isReachable ≠ .no) }
    rw [if_pos hpass] at hok
    exact ⟨⟨hretry.identity, hretry.sampledIdx, hretry.confirmedIdx, fun _ => hok⟩, hretry.isPrimary⟩
  · rename_i hpass
    rw [if_neg hpass] at hok
    exact ⟨⟨rfl, rfl, rfl, fun _ => hok⟩, rfl⟩

theorem setFilteredFlags_quiet : Quiet gs (entryGuardSetFilteredFlags env gs p) := by
  unfold entryGuardSetFilteredFlags
  have hmod : Quiet gs (gs.modify p (filteredFlags env p)) := quiet_modify (filteredFlags_retimed _)
  simp only
  split
  · exact hmod
  · exact hmod.trans (quiet_clock _ _ _ _)

theorem updateFilteredSets_quiet : Quiet gs (entryGuardsUpdateFilteredSets env gs) :=
  @quiet_foldl _ id _ gs gs.sampledEntryGuards fun _ _ => setFilteredFlags_quiet

theorem numReachable_quiet {rst : Option Restriction} : Quiet gs (numReachableFilteredGuards env gs rst).1 := by
  refine @quiet_foldl _ Prod.fst _ (gs, 0) gs.sampledEntryGuards fun s p => ?_
  have hmod := @quiet_modify s.1 p (entryGuardConsiderRetry env) (entryGuardConsiderRetry_retimed _)
  simp only
  split
  · exact hmod
  split
  · exact hmod
  · exact hmod

theorem updatePresence_retimed (draw : Nat) (guard : Guard) : Retimed guard (updatePresence env draw guard).1 := by
  unfold updatePresence
  simp only
  by_cases hback : (entryGuardIsListed env guard && !guard.currentlyListed) = true
  · simp only [hback, if_true]
    split_ifs
    all_goals exact ⟨⟨rfl, rfl, rfl, id⟩, rfl⟩
  · by_cases hgone : (!entryGuardIsListed env guard && guard.currentlyListed) = true
    · simp only [hback, hgone, if_true, Bool.false_eq_true, if_false]
      split_ifs
      all_goals exact ⟨⟨rfl, rfl, rfl, id⟩, rfl⟩
    · simp only [hback, hgone, Bool.false_eq_true, if_false]
      split_ifs
      all_goals exact ⟨⟨rfl, rfl, rfl, id⟩, rfl⟩

theorem updateConsensusPresence_quiet : Quiet gs (sampledGuardsUpdateConsensusPresence env gs).1 := by
  refine @quiet_foldl _ Prod.fst _ (gs, 0) gs.sampledEntryGuards fun s p => ?_
  have hmod := @quiet_modify s.1 p (fun _ => (updatePresence env s.1.draws (s.1.guards p)).1)
    (updatePresence_retimed _ _)
  exact hmod.trans (quiet_clock _ _ _ _)

theorem noteFailure_retimed : Retimed guard (noteFailure env guard) :=
  ⟨⟨rfl, rfl, rfl, fun _ => by simp [FlagsOk, noteFailure]⟩, rfl⟩

theorem noteSuccess_retimed : Retimed guard (noteSuccess guard) := by
  refine ⟨⟨rfl, rfl, rfl, fun hflags => ?_⟩, rfl⟩
  unfold FlagsOk noteSuccess at *
  cases hf : guard.isFilteredGuard <;> simp_all

theorem takePending_quiet : Quiet gs (takePending env gs p) := quiet_modify ⟨⟨rfl, rfl, rfl, id⟩, rfl⟩

theorem usablePrimaryGuards_quiet {usage : GuardUsage} {rst : Option Restriction} {usable : List Ptr} :
    Quiet gs (usablePrimaryGuards env usage rst l gs usable).1 := by
  induction l generalizing gs usable with
  | nil => exact Quiet.refl _
  | cons p rest ih =>
    have hretry := @quiet_modify gs p (entryGuardConsiderRetry env) (entryGuardConsiderRetry_retimed _)
    have htried : Quiet gs ((gs.modify p (entryGuardConsiderRetry env)).modify p fun guard =>
        { guard with lastTriedToConnect := env.now }) := hretry.trans (quiet_modify ⟨⟨rfl, rfl, rfl, id⟩, rfl⟩)
    simp only [usablePrimaryGuards]
    split
    · exact hretry.trans ih
    split
    · split
      · exact hretry.trans ih
      split
      · exact htried
      · exact htried.trans ih
    · exact hretry.trans ih

theorem selectPrimary_quiet {usage : GuardUsage} {rst : Option Restriction} :
    Quiet gs (selectPrimaryGuardForCircuit env gs usage rst).1 := by
  unfold selectPrimaryGuardForCircuit
  have husable := @usablePrimaryGuards_quiet env gs gs.primaryEntryGuards usage rst []
  simp only
  split
  · exact husable
  · exact husable.trans (quiet_clock _ _ _ _)

theorem selectConfirmed_quiet {usage : GuardUsage} {rst : Option Restriction} :
    Quiet gs (selectConfirmedGuardForCircuit env gs usage rst).1 := by
  unfold selectConfirmedGuardForCircuit
  generalize gs.confirmedEntryGuards = l
  induction l generalizing gs with
  | nil => exact Quiet.refl _
  | cons p rest ih =>
    have hretry := @quiet_modify gs p (entryGuardConsiderRetry env) (entryGuardConsiderRetry_retimed _)
    simp only [usableConfirmedGuard]
    split
    · exact ih
    split
    · exact ih
    split
    · split
      · exact hretry.trans ih
      · exact hretry.trans takePending_quiet
    · exact hretry.trans ih

/-- The guards of the sample that may be returned; where the flags say so, none of them is primary. -/
theorem reachableFilteredSample_spec {rst : Option Restriction} {flags : SampleFlags} :
    Quiet gs (reachableFilteredSample env gs rst flags l).1 ∧
      ∀ p ∈ (reachableFilteredSample env gs rst flags l).2,
        p ∈ l ∧ (flags.excludePrimary = true → (gs.guards p).isPrimary = false) := by
  unfold reachableFilteredSample
  refine List.foldlRecOn (motive := fun s : GuardSelection × List Ptr => Quiet gs s.1 ∧
    ∀ p ∈ s.2, p ∈ l ∧ (flags.excludePrimary = true → (gs.guards p).isPrimary = false)) l _ ⟨Quiet.refl _, by simp⟩
    fun s hs p hp => ?_
  obtain ⟨hquiet, hmem⟩ := hs
  have hmod := @quiet_modify s.1 p (entryGuardConsiderRetry env) (entryGuardConsiderRetry_retimed _)
  simp only
  split
  · rename_i hcand
    refine ⟨hquiet.trans hmod, fun q hq => ?_⟩
    rcases List.mem_append.mp hq with hq | hq
    · exact hmem q hq
    · rw [List.mem_singleton] at hq
      subst hq
      refine ⟨hp, fun hexclude => ?_⟩
      rw [← (hquiet.trans hmod).marks q]
      simp only [isCandidate, Bool.and_eq_true, Bool.not_eq_true', hexclude, Bool.true_and] at hcand
      exact hcand.1.1.2
  · exact ⟨hquiet.trans hmod, hmem⟩

/-! ## Growing the sample -/

/-- The invariant of the lists is kept, with any guards marked, and the primary list is as it was. -/
structure Keeps (gs gs' : GuardSelection) : Prop where
  core : Core gs → Core gs'
  marked : Core gs → ∀ l, Marked gs l → Marked gs' l
  primary : gs'.primaryEntryGuards = gs.primaryEntryGuards
  limit : gs'.primaryLimit = gs.primaryLimit

theorem Quiet.keeps (h : Quiet gs gs') : Keeps gs gs' where
  core hc := hc.of_keepsLists h.toKeepsLists
  marked _ _ hm := hm.of_quiet h
  primary := h.primary
  limit := h.limit

theorem Keeps.trans (h : Keeps gs gs') (h' : Keeps gs' gs'') : Keeps gs gs'' where
  core hc := h'.core (h.core hc)
  marked hc l hm := h'.marked (h.core hc) l (h.marked hc l hm)
  primary := h'.primary.trans h.primary
  limit := h'.limit.trans h.limit

section Push

variable {guard : Guard}

theorem push_guards_new : (gs.push guard).guards gs.nextPtr = guard := by simp [GuardSelection.push]

theorem Core.push_guards_old (h : Core gs) (hp : p ∈ gs.sampledEntryGuards) :
    (gs.push guard).guards p = gs.guards p := by
  have hne : p ≠ gs.nextPtr := Nat.ne_of_lt (h.allocated p hp)
  simp [GuardSelection.push, hne]

theorem mem_push : p ∈ (gs.push guard).sampledEntryGuards ↔ p ∈ gs.sampledEntryGuards ∨ p = gs.nextPtr := by
  simp [GuardSelection.push]

/-- A relation that the old guards are in among each other and with the new one. -/
theorem Core.pairwise_push (h : Core gs) {R : Guard → Guard → Prop}
    (hold : gs.sampledEntryGuards.Pairwise fun p q => R (gs.guards p) (gs.guards q))
    (hnew : ∀ p ∈ gs.sampledEntryGuards, R (gs.guards p) guard) :
    (gs.push guard).sampledEntryGuards.Pairwise fun p q => R ((gs.push guard).guards p) ((gs.push guard).guards q) := by
  refine List.pairwise_append.mpr ⟨?_, List.pairwise_singleton _ _, fun p hp q hq => ?_⟩
  · refine hold.imp_of_mem fun {p q} hp hq hr => ?_
    rwa [h.push_guards_old hp, h.push_guards_old hq]
  · rw [List.mem_singleton] at hq
    subst hq
    rw [h.push_guards_old hp, push_guards_new]
    exact hnew p hp

theorem Core.confirmed_push (h : Core gs) (hconf : guard.confirmedIdx < 0) :
    (gs.push guard).sampledEntryGuards.filter (isConfirmed (gs.push guard)) = gs.confirmedEntryGuards := by
  have hlast : isConfirmed (gs.push guard) gs.nextPtr = false := by
    rw [isConfirmed, push_guards_new]
    exact decide_eq_false (by omega)
  have hold : gs.sampledEntryGuards.filter (isConfirmed (gs.push guard)) =
      gs.sampledEntryGuards.filter (isConfirmed gs) := by
    refine List.filter_congr fun p hp => ?_
    rw [isConfirmed, isConfirmed, h.push_guards_old hp]
  calc (gs.sampledEntryGuards ++ [gs.nextPtr]).filter (isConfirmed (gs.push guard))
      = gs.sampledEntryGuards.filter (isConfirmed (gs.push guard)) := by simp [List.filter_append, hlast]
    _ = gs.confirmedEntryGuards := by rw [hold, h.confirmed_eq]

theorem Core.push (h : Core gs) (hid : ∀ p ∈ gs.sampledEntryGuards, (gs.guards p).identity ≠ guard.identity)
    (hidx : guard.sampledIdx = gs.nextSampledIdx) (hconf : guard.confirmedIdx < 0) (hflags : FlagsOk guard) :
    Core (gs.push guard) where
  sampledIdx := h.pairwise_push (R := fun a b => a.sampledIdx < b.sampledIdx) h.sampledIdx fun p hp =>
    lt_of_lt_of_eq (h.sampledIdx_lt p hp) hidx.symm
  sampledIdx_lt p hp := by
    rcases mem_push.mp hp with hp | rfl
    · rw [h.push_guards_old hp]
      exact Nat.lt_succ_of_lt (h.sampledIdx_lt p hp)
    · rw [push_guards_new, hidx]
      exact Nat.lt_succ_self _
  identity := h.pairwise_push (R := fun a b => a.identity ≠ b.identity) h.identity hid
  allocated p hp := by
    rcases mem_push.mp hp with hp | rfl
    · exact Nat.lt_succ_of_lt (h.allocated p hp)
    · exact Nat.lt_succ_self _
  confirmed_eq := (h.confirmed_push hconf).symm
  confirmedIdx := by
    refine h.confirmedIdx.imp_of_mem fun {p q} hp hq hne => ?_
    rwa [h.push_guards_old (h.mem_confirmed.mp hp).1, h.push_guards_old (h.mem_confirmed.mp hq).1]
  confirmedIdx_lt p hp := by
    rw [h.push_guards_old (h.mem_confirmed.mp hp).1]
    exact h.confirmedIdx_lt p hp
  next_nonneg := h.next_nonneg
  flags p hp := by
    rcases mem_push.mp hp with hp | rfl
    · rw [h.push_guards_old hp]
      exact h.flags p hp
    · rw [push_guards_new]
      exact hflags

theorem Marked.push (h : Core gs) (hm : Marked gs l) (hnot : guard.isPrimary = false) :
    Marked (gs.push guard) l where
  sampled p hp := mem_push.mpr (.inl (hm.sampled p hp))
  iff p hp := by
    rcases mem_push.mp hp with hp | rfl
    · rw [h.push_guards_old hp]
      exact hm.iff p hp
    · have hfresh : gs.nextPtr ∉ l := fun hin => lt_irrefl _ (h.allocated _ (hm.sampled _ hin))
      simp [push_guards_new, hnot, hfresh]

end Push

theorem addToSample_keeps {node : Node} : Keeps gs (entryGuardAddToSample env gs node).1 := by
  unfold entryGuardAddToSample
  by_cases hhave : haveSampledGuardWithId gs node.identity = true
  · rw [if_pos hhave]
    exact (Quiet.refl gs).keeps
  rw [if_neg hhave]
  have hid : ∀ p ∈ gs.sampledEntryGuards, (gs.guards p).identity ≠ node.identity := by
    intro p hp heq
    apply hhave
    exact List.any_eq_true.mpr ⟨p, hp, by simp [heq]⟩
  have hpush : Keeps gs (gs.push (newGuard env gs node.identity)) := by
    refine ⟨fun hc => ?_, fun hc l hm => hm.push hc rfl, rfl, rfl⟩
    apply hc.push hid rfl (Int.negSucc_lt_zero 0)
    simp [FlagsOk, newGuard, Guard.zero]
  exact (hpush.trans (quiet_clock _ _ _ _).keeps).trans setFilteredFlags_quiet.keeps

theorem selectAndAdd_keeps {eligibleGuards : List Node} :
    Keeps gs (selectAndAddGuardItemForSample env gs eligibleGuards).1 := by
  unfold selectAndAddGuardItemForSample
  have hdraw : Keeps gs { gs with draws := gs.draws + 1 } := (quiet_clock gs _ _ _).keeps
  simp only
  split
  · exact hdraw
  · exact hdraw.trans addToSample_keeps

theorem expandSample_keeps : Keeps gs (entryGuardsExpandSample env gs).1 := by
  unfold entryGuardsExpandSample
  have hcount := (@numReachable_quiet env gs none).keeps
  exact (hcount.trans (quiet_clock _ _ _ _).keeps).trans
    (expandLoop_rel (fun gs => (Quiet.refl gs).keeps) Keeps.trans fun _ _ => selectAndAdd_keeps)

end Badnet.Entrynodes

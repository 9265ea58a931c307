/-
  Badnet.Entrynodes.Priority — which of two guards comes first, and whether all primary guards are down
  (feature/client/entrynodes.c).

  The comparison of the source is that of one key (`higherPriority_iff`): confirmed guards come first, by their
  confirmed index, then the pending ones, by the time they were tried; the rest are alike. The check of the primary
  guards may grow the sample and set flags, but leaves the key of every guard there was
  (`allPrimaryGuardsAreDown_keepsPriority`).
-/

import Badnet.Entrynodes.RepInv
import Mathlib.Data.Prod.Lex

namespace Badnet.Entrynodes

variable {env : Env} {gs gs' gs'' : GuardSelection} {p : Ptr} {l : List Ptr}

/-! ## The order of the guards -/

def entryGuardHasHigherPriority (guards : Ptr → Guard) (a b : Ptr) : Bool :=
  if a = b then false
  else if (guards a).confirmedIdx < 0 then
    if 0 ≤ (guards b).confirmedIdx then false
    else if (guards a).isPending then
      if !(guards b).isPending then true
      else decide ((guards a).lastTriedToConnect < (guards b).lastTriedToConnect)
    else false
  else if (guards b).confirmedIdx < 0 then true
  else decide ((guards a).confirmedIdx < (guards b).confirmedIdx)

/-- The least key has the highest priority. -/
def priority (guard : Guard) : ℕ ×ₗ ℤ :=
  if 0 ≤ guard.confirmedIdx then toLex (0, guard.confirmedIdx)
  else if guard.isPending then toLex (1, guard.lastTriedToConnect)
  else toLex (2, 0)

theorem higherPriority_iff {guards : Ptr → Guard} {a b : Ptr} :
    entryGuardHasHigherPriority guards a b = true ↔ priority (guards a) < priority (guards b) := by
  by_cases hab : a = b
  · subst hab
    simp [entryGuardHasHigherPriority]
  simp only [entryGuardHasHigherPriority, if_neg hab, priority]
  by_cases ha : 0 ≤ (guards a).confirmedIdx <;> by_cases hb : 0 ≤ (guards b).confirmedIdx
  · simp [ha, hb, not_lt.mpr ha, not_lt.mpr hb, Prod.Lex.toLex_lt_toLex]
  · simp [ha, hb, not_lt.mpr ha, not_le.mp hb, apply_ite, Prod.Lex.toLex_lt_toLex]
  · cases hpa : (guards a).isPending
    all_goals simp [ha, hb, not_le.mp ha, Prod.Lex.toLex_le_toLex]
  · cases hpa : (guards a).isPending <;> cases hpb : (guards b).isPending
    all_goals simp [ha, hb, not_le.mp ha, Prod.Lex.toLex_lt_toLex]

/-! ## What leaves the order alone -/

/-- What the order and the restrictions read of a guard. -/
structure SamePriority (guard guard' : Guard) : Prop where
  identity : guard'.identity = guard.identity
  confirmedIdx : guard'.confirmedIdx = guard.confirmedIdx
  isPending : guard'.isPending = guard.isPending
  lastTriedToConnect : guard'.lastTriedToConnect = guard.lastTriedToConnect

theorem SamePriority.refl (guard : Guard) : SamePriority guard guard := ⟨rfl, rfl, rfl, rfl⟩

theorem SamePriority.trans {a b c : Guard} (h : SamePriority a b) (h' : SamePriority b c) : SamePriority a c where
  identity := h'.identity.trans h.identity
  confirmedIdx := h'.confirmedIdx.trans h.confirmedIdx
  isPending := h'.isPending.trans h.isPending
  lastTriedToConnect := h'.lastTriedToConnect.trans h.lastTriedToConnect

variable {guard guard' : Guard} {rst : Option Restriction} {new : List Ptr}

theorem SamePriority.symm (h : SamePriority guard guard') : SamePriority guard' guard :=
  ⟨h.identity.symm, h.confirmedIdx.symm, h.isPending.symm, h.lastTriedToConnect.symm⟩

theorem SamePriority.priority_eq (h : SamePriority guard guard') : priority guard' = priority guard := by
  simp only [priority, h.confirmedIdx, h.isPending, h.lastTriedToConnect]

theorem SamePriority.obeys_eq (h : SamePriority guard guard') (rst : Option Restriction) :
    entryGuardObeysRestriction env guard' rst = entryGuardObeysRestriction env guard rst := by
  have hfamily : guardInNodeFamily env guard' = guardInNodeFamily env guard := by
    funext node
    unfold guardInNodeFamily
    rw [h.identity]
  rcases rst with _ | _ | _
  · rfl
  · simp only [entryGuardObeysRestriction, guardObeysExitRestriction, hfamily, h.identity]
  · simp only [entryGuardObeysRestriction, guardObeysMdDirserverRestriction, h.identity]

/-- The guards that were allocated keep their place in the order. -/
structure KeepsPriority (gs gs' : GuardSelection) : Prop where
  nextPtr_le : gs.nextPtr ≤ gs'.nextPtr
  guards : ∀ p < gs.nextPtr, SamePriority (gs.guards p) (gs'.guards p)

theorem KeepsPriority.refl (gs : GuardSelection) : KeepsPriority gs gs := ⟨le_refl _, fun _ _ => SamePriority.refl _⟩

theorem KeepsPriority.trans (h : KeepsPriority gs gs') (h' : KeepsPriority gs' gs'') : KeepsPriority gs gs'' where
  nextPtr_le := h.nextPtr_le.trans h'.nextPtr_le
  guards p hp := (h.guards p hp).trans (h'.guards p (lt_of_lt_of_le hp h.nextPtr_le))

theorem keepsPriority_modify {f : Guard → Guard} (h : SamePriority (gs.guards p) (f (gs.guards p))) :
    KeepsPriority gs (gs.modify p f) where
  nextPtr_le := le_refl _
  guards q _ := by
    by_cases hq : q = p
    · subst hq
      simpa [GuardSelection.modify] using h
    · simpa [GuardSelection.modify, hq] using SamePriority.refl _

/-- A loop whose turns keep the order keeps it. -/
theorem keepsPriority_foldl {σ : Type} {sel : σ → GuardSelection} {turn : σ → Ptr → σ} (s : σ) (l : List Ptr)
    (h : ∀ s p, KeepsPriority (sel s) (sel (turn s p))) : KeepsPriority (sel s) (sel (l.foldl turn s)) := by
  induction l generalizing s with
  | nil => exact KeepsPriority.refl _
  | cons p l ih => exact (h s p).trans (ih (turn s p))

theorem considerRetry_samePriority (guard : Guard) : SamePriority guard (entryGuardConsiderRetry env guard) := by
  unfold entryGuardConsiderRetry
  split
  · exact SamePriority.refl _
  · simp only
    split
    · exact ⟨rfl, rfl, rfl, rfl⟩
    · exact SamePriority.refl _

theorem considerRetry_keepsPriority : KeepsPriority gs (gs.modify p (entryGuardConsiderRetry env)) :=
  keepsPriority_modify (considerRetry_samePriority _)

theorem filteredFlags_samePriority (guard : Guard) : SamePriority guard (filteredFlags env p guard) := by
  unfold filteredFlags
  split
  · have hflagged : SamePriority guard
        { guard with isFilteredGuard := true, isUsableFilteredGuard := decide (guard.isReachable ≠ .no) } :=
      ⟨rfl, rfl, rfl, rfl⟩
    exact hflagged.trans (considerRetry_samePriority _)
  · exact ⟨rfl, rfl, rfl, rfl⟩

theorem setFilteredFlags_keepsPriority : KeepsPriority gs (entryGuardSetFilteredFlags env gs p) := by
  unfold entryGuardSetFilteredFlags
  have hmod : KeepsPriority gs (gs.modify p (filteredFlags env p)) := keepsPriority_modify (filteredFlags_samePriority _)
  simp only
  split
  · exact hmod
  · exact hmod.trans ⟨le_refl _, fun _ _ => SamePriority.refl _⟩

theorem setPrimary_keepsPriority {isPrimary : Bool} : KeepsPriority gs (gs.setPrimary p isPrimary) :=
  keepsPriority_modify ⟨rfl, rfl, rfl, rfl⟩

theorem numReachable_keepsPriority : KeepsPriority gs (numReachableFilteredGuards env gs rst).1 := by
  refine @keepsPriority_foldl _ Prod.fst _ (gs, 0) gs.sampledEntryGuards fun s p => ?_
  simp only
  split
  · exact considerRetry_keepsPriority
  split
  · exact considerRetry_keepsPriority
  · exact considerRetry_keepsPriority

theorem addToSample_keepsPriority {node : Node} : KeepsPriority gs (entryGuardAddToSample env gs node).1 := by
  unfold entryGuardAddToSample
  split
  · exact KeepsPriority.refl gs
  -- the new guard stands where nothing was allocated
  have hpush : KeepsPriority gs { gs.push (newGuard env gs node.identity) with draws := gs.draws + 1 } := by
    refine ⟨Nat.le_succ _, fun p hp => ?_⟩
    have hne : p ≠ gs.nextPtr := Nat.ne_of_lt hp
    simpa [GuardSelection.push, hne] using SamePriority.refl _
  exact hpush.trans setFilteredFlags_keepsPriority

theorem selectAndAdd_keepsPriority {eligibleGuards : List Node} :
    KeepsPriority gs (selectAndAddGuardItemForSample env gs eligibleGuards).1 := by
  unfold selectAndAddGuardItemForSample
  have hdraw : KeepsPriority gs { gs with draws := gs.draws + 1 } := ⟨le_refl _, fun _ _ => SamePriority.refl _⟩
  simp only
  split
  · exact hdraw
  · exact hdraw.trans addToSample_keepsPriority

theorem expandSample_keepsPriority : KeepsPriority gs (entryGuardsExpandSample env gs).1 := by
  unfold entryGuardsExpandSample
  have hcount := @numReachable_keepsPriority env gs none
  refine (hcount.trans ?_).trans
    (expandLoop_rel KeepsPriority.refl KeepsPriority.trans fun _ _ => selectAndAdd_keepsPriority)
  exact ⟨le_refl _, fun _ _ => SamePriority.refl _⟩

theorem reachableFilteredSample_keepsPriority {flags : SampleFlags} :
    KeepsPriority gs (reachableFilteredSample env gs rst flags l).1 := by
  refine @keepsPriority_foldl _ Prod.fst _ (gs, []) l fun s p => ?_
  simp only
  split
  · exact considerRetry_keepsPriority
  · exact considerRetry_keepsPriority

/-- The search for a guard as the update of the primary list makes it. -/
theorem firstReachable_keepsPriority {flags : SampleFlags} :
    KeepsPriority gs (firstReachableFilteredEntryGuard id env gs rst flags).1 := by
  unfold firstReachableFilteredEntryGuard
  have hretry : KeepsPriority gs (gs.modifyEach gs.sampledEntryGuards (entryGuardConsiderRetry env)) :=
    @keepsPriority_foldl _ id _ gs gs.sampledEntryGuards fun _ _ => considerRetry_keepsPriority
  have hcount := hretry.trans (@numReachable_keepsPriority env _ rst)
  simp only [id_eq, ite_self]
  refine KeepsPriority.trans ?_ reachableFilteredSample_keepsPriority
  split
  · exact hcount.trans expandSample_keepsPriority
  · exact hcount

/-! ## Updating the primary guards -/

theorem keepConfirmed_keepsPriority {n : Nat} : KeepsPriority gs (keepConfirmed n l gs new).1 := by
  induction l generalizing gs new with
  | nil => exact KeepsPriority.refl gs
  | cons p rest ih =>
    simp only [keepConfirmed]
    split
    · exact KeepsPriority.refl gs
    split
    · exact ih
    · exact setPrimary_keepsPriority.trans ih

theorem keepOld_keepsPriority {n : Nat} : KeepsPriority gs (keepOld n l gs new).1 := by
  induction l generalizing gs new with
  | nil => exact KeepsPriority.refl gs
  | cons p rest ih =>
    simp only [keepOld]
    split
    · exact ih
    split
    · exact setPrimary_keepsPriority.trans ih
    · exact setPrimary_keepsPriority.trans ih

theorem fillFromSample_keepsPriority {places : Nat} : KeepsPriority gs (fillFromSample env places gs new).1 := by
  induction places generalizing gs new with
  | zero => exact KeepsPriority.refl gs
  | succ places ih =>
    have hfound := @firstReachable_keepsPriority env gs none fillFlags
    simp only [fillFromSample]
    rcases hfirst : firstReachableFilteredEntryGuard id env gs none fillFlags with ⟨gs', _ | p⟩
    · rw [hfirst] at hfound
      exact hfound
    · rw [hfirst] at hfound
      exact (hfound.trans setPrimary_keepsPriority).trans ih

theorem updatePrimary_keepsPriority : KeepsPriority gs (entryGuardsUpdatePrimary env gs) := by
  unfold entryGuardsUpdatePrimary
  have hstart : KeepsPriority gs { gs with primaryGuardsUpToDate := true, primaryLimit := getNPrimaryGuards env } :=
    ⟨le_refl _, fun _ _ => SamePriority.refl _⟩
  simp only
  generalize hconf : keepConfirmed _ _ _ _ = kept
  generalize hold : keepOld _ _ _ _ = olds
  generalize hfill : fillFromSample _ _ _ _ = full
  have hkept : KeepsPriority gs kept.1 := hconf ▸ hstart.trans keepConfirmed_keepsPriority
  have holds : KeepsPriority gs olds.1 := hold ▸ hkept.trans keepOld_keepsPriority
  have hfull : KeepsPriority gs full.1 := hfill ▸ holds.trans fillFromSample_keepsPriority
  exact hfull.trans ⟨le_refl _, fun _ _ => SamePriority.refl _⟩

/-! ## Whether all primary guards are down -/

/-- The loop of `entry_guards_all_primary_guards_are_down`. -/
def primaryGuardsDown (env : Env) : List Ptr → GuardSelection → GuardSelection × Bool
  | [], gs => (gs, true)
  | p :: rest, gs =>
    let gs := gs.modify p (entryGuardConsiderRetry env)
    if (gs.guards p).isReachable ≠ .no then (gs, false) else primaryGuardsDown env rest gs

/-- The selection with its primary list up to date. -/
def withPrimary (env : Env) (gs : GuardSelection) : GuardSelection :=
  if !gs.primaryGuardsUpToDate then entryGuardsUpdatePrimary env gs else gs

def entryGuardsAllPrimaryGuardsAreDown (env : Env) (gs : GuardSelection) : GuardSelection × Bool :=
  let gs := withPrimary env gs
  primaryGuardsDown env gs.primaryEntryGuards gs

/-- Every guard of the primary list, once that is up to date, is known to be unreachable and not due for a retry. -/
def PrimariesDown (env : Env) (gs : GuardSelection) : Prop :=
  ∀ p ∈ (withPrimary env gs).primaryEntryGuards,
    (entryGuardConsiderRetry env ((withPrimary env gs).guards p)).isReachable = .no

theorem considerRetry_of_no (h : (entryGuardConsiderRetry env guard).isReachable = .no) :
    entryGuardConsiderRetry env guard = guard := by
  unfold entryGuardConsiderRetry at h ⊢
  split
  · rfl
  · rename_i hno
    simp only [hno, if_false] at h ⊢
    split
    · rename_i hdue
      simp [hdue] at h
    · rfl

theorem primaryGuardsDown_cases (l : List Ptr) :
    (∀ p ∈ l, (entryGuardConsiderRetry env (gs.guards p)).isReachable = .no) ∧
        primaryGuardsDown env l gs = (gs, true) ∨
      ∃ p ∈ l, (entryGuardConsiderRetry env (gs.guards p)).isReachable ≠ .no ∧
        primaryGuardsDown env l gs = (gs.modify p (entryGuardConsiderRetry env), false) := by
  induction l with
  | nil => exact .inl ⟨by simp, rfl⟩
  | cons p rest ih =>
    have hguard : (gs.modify p (entryGuardConsiderRetry env)).guards p = entryGuardConsiderRetry env (gs.guards p) := by
      simp [GuardSelection.modify]
    simp only [primaryGuardsDown, hguard]
    by_cases hno : (entryGuardConsiderRetry env (gs.guards p)).isReachable = .no
    · -- the guard is as it was, and so is the selection
      have hsame : gs.modify p (entryGuardConsiderRetry env) = gs := by
        simp only [GuardSelection.modify, considerRetry_of_no hno, Function.update_eq_self]
      rw [if_neg (not_not_intro hno), hsame]
      rcases ih with ⟨hall, hrun⟩ | ⟨q, hq, hup, hrun⟩
      · exact .inl ⟨List.forall_mem_cons.mpr ⟨hno, hall⟩, hrun⟩
      · exact .inr ⟨q, List.mem_cons_of_mem _ hq, hup, hrun⟩
    · rw [if_pos hno]
      exact .inr ⟨p, List.mem_cons_self, hno, rfl⟩

/-- The check changes nothing but the list it brings up to date and the one guard it stops at. -/
theorem allPrimaryGuardsAreDown_cases (env : Env) (gs : GuardSelection) :
    PrimariesDown env gs ∧ entryGuardsAllPrimaryGuardsAreDown env gs = (withPrimary env gs, true) ∨
      ¬PrimariesDown env gs ∧ ∃ p ∈ (withPrimary env gs).primaryEntryGuards,
        entryGuardsAllPrimaryGuardsAreDown env gs =
          ((withPrimary env gs).modify p (entryGuardConsiderRetry env), false) := by
  rcases @primaryGuardsDown_cases env (withPrimary env gs) (withPrimary env gs).primaryEntryGuards with
    ⟨hall, hrun⟩ | ⟨p, hp, hup, hrun⟩
  · exact .inl ⟨hall, hrun⟩
  · exact .inr ⟨fun hall => hup (hall p hp), p, hp, hrun⟩

theorem withPrimary_keepsPriority : KeepsPriority gs (withPrimary env gs) := by
  unfold withPrimary
  split
  · exact updatePrimary_keepsPriority
  · exact KeepsPriority.refl gs

theorem PrimariesDown.isReachable (h : PrimariesDown env gs) (hp : p ∈ (withPrimary env gs).primaryEntryGuards) :
    ((withPrimary env gs).guards p).isReachable = .no := by
  have hno := h p hp
  rwa [considerRetry_of_no hno] at hno

end Badnet.Entrynodes

/-
  Badnet.Entrynodes.Unblocked — which waiting circuits a call of entry_guards_upgrade_waiting_circuits upgrades.

  What is upgraded was blocked by no circuit that the code looks at (`upgrades_only_unblocked`); a circuit marked for
  close and one that was usable for as long as the timeout block nothing. Only the best circuit is examined. If it is
  blocked under its restrictions, a circuit with other restrictions is not upgraded even if nothing blocks it
  (`none_left_behind_iff`).
-/

import Badnet.Entrynodes.Upgrade

namespace Badnet.Entrynodes

/-! ## The call -/

section Call

variable {env : UpgradeEnv} {self : SelectionPtr} {gs : GuardSelection} {guards guards' : Ptr → Guard}
  {circs : CircId → OriginCircuit} {allCircuitsIn newlyCompleteOut : List CircId} {a b c c1 c2 : CircId}

theorem circHigher_congr {rst : Option Restriction} (ha : OfSelection self circs a) (hb : OfSelection self circs b)
    (hsameA : SamePriority (guards (guardPtrOf circs a)) (guards' (guardPtrOf circs a)))
    (hsameB : SamePriority (guards (guardPtrOf circs b)) (guards' (guardPtrOf circs b))) :
    circStateHasHigherPriority env.toEnv guards' circs a rst b =
      circStateHasHigherPriority env.toEnv guards circs a rst b := by
  rw [Bool.eq_iff_iff, circHigher_iff ha hb, circHigher_iff ha hb, hsameA.obeys_eq]
  simp only [circPriority, hsameA.priority_eq, hsameB.priority_eq]

/-- The guards of the circuits are as they were, in all that is compared. -/
def SameOrder (self : SelectionPtr) (guards guards' : Ptr → Guard) (circs : CircId → OriginCircuit)
    (allCircuitsIn : List CircId) : Prop :=
  ∀ c ∈ allCircuitsIn, OfSelection self circs c →
    SamePriority (guards (guardPtrOf circs c)) (guards' (guardPtrOf circs c))

theorem sameOrder_withPrimary (hinv : Inv gs) (hsampled : GuardsSampled self gs circs allCircuitsIn) :
    SameOrder self gs.guards (withPrimary env.toEnv gs).guards circs allCircuitsIn := by
  intro c hc hsel
  obtain ⟨state, guard, hstate, hguard, hself⟩ := hsel
  have hptr : guardPtrOf circs c = guard.guard := by simp [guardPtrOf, hstate, hguard]
  rw [hptr]
  exact withPrimary_keepsPriority.guards _ (hinv.core.allocated _ (hsampled c hc state guard hstate hguard hself))

theorem mem_waiting : c ∈ waitingCircuits self circs allCircuitsIn ↔ c ∈ allCircuitsIn ∧ OfSelection self circs c ∧
    (circs c).markedForClose = false ∧ hasState circs .waitingForBetterGuard c = true := by
  simp only [waitingCircuits, List.mem_filter, circuitIsOurs_iff, and_assoc]

theorem FirstBest.congr (hsame : SameOrder self guards guards' circs allCircuitsIn)
    (h : FirstBest env.toEnv guards' circs (waitingCircuits self circs allCircuitsIn) b) :
    FirstBest env.toEnv guards circs (waitingCircuits self circs allCircuitsIn) b := by
  have hcongr : ∀ a ∈ waitingCircuits self circs allCircuitsIn, ∀ c ∈ waitingCircuits self circs allCircuitsIn,
      circStateHasHigherPriority env.toEnv guards' circs a none c =
        circStateHasHigherPriority env.toEnv guards circs a none c := by
    intro a ha c hc
    rw [mem_waiting] at ha hc
    exact circHigher_congr ha.2.1 hc.2.1 (hsame a ha.1 ha.2.1) (hsame c hc.1 hc.2.1)
  refine ⟨h.mem, fun c hc => ?_, fun c hc hnot => h.first c hc ?_⟩
  · rw [← hcongr c hc b h.mem]
    exact h.best c hc
  · rwa [hcongr b h.mem c hc]

theorem Unblocked.congr (hsame : SameOrder self guards guards' circs allCircuitsIn) (hc1 : c1 ∈ allCircuitsIn)
    (h1 : OfSelection self circs c1) (h : Unblocked env self guards' circs allCircuitsIn c1) :
    Unblocked env self guards circs allCircuitsIn c1 := by
  intro c2 hc2 h2 hopen
  have hnot := h c2 hc2 h2 hopen
  rwa [blocks_iff h1 h2, circHigher_congr h2 h1 (hsame c2 hc2 h2) (hsame c1 hc1 h1), ← blocks_iff h1 h2] at hnot

theorem SameOrder.symm (h : SameOrder self guards guards' circs allCircuitsIn) :
    SameOrder self guards' guards circs allCircuitsIn := fun c hc hsel => (h c hc hsel).symm

/-- The best waiting circuit is one that the code may upgrade. -/
def BestUnblocked (env : UpgradeEnv) (self : SelectionPtr) (guards : Ptr → Guard) (circs : CircId → OriginCircuit)
    (allCircuitsIn : List CircId) : Prop :=
  ∃ b, FirstBest env.toEnv guards circs (waitingCircuits self circs allCircuitsIn) b ∧
    Unblocked env self guards circs allCircuitsIn b

theorem BestUnblocked.congr (hsame : SameOrder self guards guards' circs allCircuitsIn)
    (h : BestUnblocked env self guards' circs allCircuitsIn) : BestUnblocked env self guards circs allCircuitsIn := by
  obtain ⟨b, hbest, hfree⟩ := h
  have hb := mem_waiting.mp hbest.mem
  exact ⟨b, hbest.congr hsame, hfree.congr hsame hb.1 hb.2.1⟩

/-- The call either changes no circuit, or the primary guards are down and it completes the circuits that the last loop
    chooses for an unblocked best one. -/
theorem upgrade_cases (env : UpgradeEnv) (self : SelectionPtr) (gs : GuardSelection) (circs : CircId → OriginCircuit)
    (allCircuitsIn newlyCompleteOut : List CircId) :
    let r := entryGuardsUpgradeWaitingCircuits env self gs circs allCircuitsIn newlyCompleteOut
    let guards := (withPrimary env.toEnv gs).guards
    (r.upgraded = false ∧ r.circs = circs ∧ r.newlyCompleteOut = newlyCompleteOut ∧
        (r.gs = withPrimary env.toEnv gs ∨ ∃ p ∈ (withPrimary env.toEnv gs).primaryEntryGuards,
          r.gs = (withPrimary env.toEnv gs).modify p (entryGuardConsiderRetry env.toEnv)) ∧
        ¬(PrimariesDown env.toEnv gs ∧ BestUnblocked env self guards circs allCircuitsIn)) ∨
      (r.upgraded = true ∧ PrimariesDown env.toEnv gs ∧ r.gs = withPrimary env.toEnv gs ∧
        ∃ b, FirstBest env.toEnv guards circs (waitingCircuits self circs allCircuitsIn) b ∧
          Unblocked env self guards circs allCircuitsIn b ∧
          r.circs = ((allCircuitsIn.filter fun circ => circuitIsOurs self (circs circ)).foldl
            (upgradeTurn env.toEnv guards b (restrictionsOf circs b)) (circs, newlyCompleteOut)).1 ∧
          r.newlyCompleteOut = ((allCircuitsIn.filter fun circ => circuitIsOurs self (circs circ)).foldl
            (upgradeTurn env.toEnv guards b (restrictionsOf circs b)) (circs, newlyCompleteOut)).2) := by
  intro r guards
  have hr : r = entryGuardsUpgradeWaitingCircuits env self gs circs allCircuitsIn newlyCompleteOut := rfl
  clear_value r
  unfold entryGuardsUpgradeWaitingCircuits at hr
  rcases allPrimaryGuardsAreDown_cases env.toEnv gs with ⟨hdown, hrun⟩ | ⟨hup, p, hp, hrun⟩
  · have hall : ∀ c ∈ allCircuitsIn.filter fun circ => circuitIsOurs self (circs circ), OfSelection self circs c :=
      fun c hc => (circuitIsOurs_iff.mp (List.mem_filter.mp hc).2).1
    have hunblocked : ∀ b, (∀ c ∈ allCircuitsIn.filter fun circ => circuitIsOurs self (circs circ),
        ¬Blocks env.toEnv guards circs (env.nonprimaryGuardConnectTimeout - 1) c b) ↔
        Unblocked env self guards circs allCircuitsIn b := by
      intro b
      simp only [Unblocked, List.mem_filter, circuitIsOurs_iff, and_imp]
    simp only [hrun] at hr
    rcases hbest : bestWaitingCircuit env.toEnv (withPrimary env.toEnv gs).guards circs
      (allCircuitsIn.filter fun circ => circuitIsOurs self (circs circ)) with _ | b
    · simp only [hbest] at hr
      subst hr
      refine .inl ⟨rfl, rfl, rfl, .inl rfl, fun h => ?_⟩
      obtain ⟨-, b, hfirst, -⟩ := h
      have hsome := (bestWaiting_iff hall).mpr hfirst
      rw [hbest] at hsome
      cases hsome
    · have hfirst := (bestWaiting_iff hall).mp hbest
      have hcounts := (unblocked_iff hall hfirst).trans (hunblocked b)
      simp only [hbest] at hr
      by_cases hfree : Unblocked env self guards circs allCircuitsIn b
      · obtain ⟨hcomplete, hblockers⟩ := hcounts.mpr hfree
        rw [if_neg (not_not_intro hcomplete), if_neg (not_not_intro hblockers)] at hr
        subst hr
        exact .inr ⟨rfl, hdown, rfl, b, hfirst, hfree, rfl, rfl⟩
      · have hchanged : r = ⟨withPrimary env.toEnv gs, circs, newlyCompleteOut, false⟩ := by
          rw [hr]
          split
          · rfl
          rename_i hcomplete
          split
          · rfl
          rename_i hblockers
          exact absurd (hcounts.mp ⟨not_not.mp hcomplete, not_not.mp hblockers⟩) hfree
        subst hchanged
        refine .inl ⟨rfl, rfl, rfl, .inl rfl, fun h => ?_⟩
        obtain ⟨-, b', hfirst', hfree'⟩ := h
        have hsame := (bestWaiting_iff hall).mpr hfirst'
        rw [hbest, Option.some.injEq] at hsame
        exact hfree (hsame ▸ hfree')
  · simp only [hrun] at hr
    subst hr
    exact .inl ⟨rfl, rfl, rfl, .inr ⟨p, hp, rfl⟩, fun h => hup h.1⟩

/-- Every circuit that the last loop chooses is as free as the best one: it is the best one, or has its priority while
    the best one has no restrictions. -/
theorem Chosen.unblocked (hbest : FirstBest env.toEnv guards circs (waitingCircuits self circs allCircuitsIn) b)
    (hfree : Unblocked env self guards circs allCircuitsIn b)
    (hc : c ∈ waitingCircuits self circs allCircuitsIn)
    (h : Chosen env.toEnv guards circs b (restrictionsOf circs b) c) :
    Unblocked env self guards circs allCircuitsIn c := by
  by_cases hcb : c = b
  · exact hcb ▸ hfree
  have hrst : restrictionsOf circs b = none := by
    have hnot := h.free
    rw [not_and] at hnot
    simpa using hnot hcb
  have hb := (mem_waiting.mp hbest.mem).2.1
  have hsel := (mem_waiting.mp hc).2.1
  have hle : circPriority guards circs c ≤ circPriority guards circs b := by
    have hnotLower := h.notLower
    rwa [Bool.eq_false_iff, Ne, circHigher_unrestricted_iff hb hsel, not_lt] at hnotLower
  intro c2 hc2 h2 hopen
  exact not_blocks_of_best hb hsel h2 hrst hle (hfree c2 hc2 h2 hopen)

end Call

/-! ## Soundness -/

section Sound

variable {env : UpgradeEnv} {self : SelectionPtr} {gs : GuardSelection} {circs : CircId → OriginCircuit}
  {allCircuitsIn newlyCompleteOut : List CircId}

theorem FirstBest.chosen {guards : Ptr → Guard} {rst : Option Restriction} {b : CircId}
    (h : FirstBest env.toEnv guards circs (waitingCircuits self circs allCircuitsIn) b) :
    Chosen env.toEnv guards circs b rst b :=
  ⟨fun hother => hother.1 rfl, (mem_waiting.mp h.mem).2.2.2, h.best b h.mem⟩

theorem upgraded_iff_completes :
    let r := entryGuardsUpgradeWaitingCircuits env self gs circs allCircuitsIn newlyCompleteOut
    r.upgraded = true ↔ ∃ c, Completes circs r.circs c := by
  intro r
  have hcases := upgrade_cases env self gs circs allCircuitsIn newlyCompleteOut
  change (r.upgraded = false ∧ _) ∨ (r.upgraded = true ∧ _) at hcases
  rcases hcases with ⟨hno, hcircs, -⟩ | ⟨hyes, -, -, b, hbest, -, hcircs, -⟩
  · rw [hno, hcircs]
    refine ⟨fun h => absurd h Bool.false_ne_true, ?_⟩
    rintro ⟨c, hwaiting, hcomplete⟩
    rw [hasState_unique hwaiting (by decide)] at hcomplete
    exact absurd hcomplete Bool.false_ne_true
  · obtain ⟨hmarked, -⟩ := @upgradeLoop_spec env.toEnv (withPrimary env.toEnv gs).guards b (restrictionsOf circs b)
      (allCircuitsIn.filter fun circ => circuitIsOurs self (circs circ)) circs newlyCompleteOut
    rw [← hcircs] at hmarked
    have hwaiting := (mem_waiting.mp hbest.mem).2.2.2
    refine ⟨fun _ => ⟨b, hwaiting, ?_⟩, fun _ => hyes⟩
    exact hasState_markComplete hwaiting (hmarked b (List.mem_of_mem_filter hbest.mem) hbest.chosen)

/-- The call upgrades exactly when the best waiting circuit is unblocked under its own restrictions. -/
theorem upgraded_iff_best (hinv : Inv gs) (hsampled : GuardsSampled self gs circs allCircuitsIn) :
    (entryGuardsUpgradeWaitingCircuits env self gs circs allCircuitsIn newlyCompleteOut).upgraded = true ↔
      PrimariesDown env.toEnv gs ∧ BestUnblocked env self gs.guards circs allCircuitsIn := by
  have hsame := @sameOrder_withPrimary env _ _ _ _ hinv hsampled
  have hbest : BestUnblocked env self (withPrimary env.toEnv gs).guards circs allCircuitsIn ↔
      BestUnblocked env self gs.guards circs allCircuitsIn := ⟨BestUnblocked.congr hsame, BestUnblocked.congr hsame.symm⟩
  rw [← hbest]
  rcases upgrade_cases env self gs circs allCircuitsIn newlyCompleteOut with
    ⟨hno, -, -, -, hnot⟩ | ⟨hyes, hdown, -, b, hfirst, hfree, -⟩
  · rw [hno]
    exact ⟨fun h => absurd h Bool.false_ne_true, fun h => absurd h hnot⟩
  · exact ⟨fun _ => ⟨hdown, b, hfirst, hfree⟩, fun _ => hyes⟩

/-- A circuit is completed only if it was waiting, the primary guards are all unreachable and no circuit that the
code looks at blocks it. A call that completes none changes no circuit. -/
theorem upgrades_only_unblocked (hinv : Inv gs) (hsampled : GuardsSampled self gs circs allCircuitsIn) :
    let r := entryGuardsUpgradeWaitingCircuits env self gs circs allCircuitsIn newlyCompleteOut
    (∀ c1, r.circs c1 ≠ circs c1 →
        (c1 ∈ allCircuitsIn ∧ OfSelection self circs c1 ∧ hasState circs .waitingForBetterGuard c1 = true ∧
          r.circs c1 = markComplete env.toEnv (circs c1)) ∧
        (∀ p ∈ r.gs.primaryEntryGuards, (r.gs.guards p).isReachable = .no) ∧
        Unblocked env self gs.guards circs allCircuitsIn c1) ∧
      (r.upgraded = true ↔ ∃ c1, Completes circs r.circs c1) ∧
      (r.upgraded = false → r.circs = circs ∧ r.newlyCompleteOut = newlyCompleteOut ∧
        (r.gs = withPrimary env.toEnv gs ∨ ∃ p ∈ (withPrimary env.toEnv gs).primaryEntryGuards,
          r.gs = (withPrimary env.toEnv gs).modify p (entryGuardConsiderRetry env.toEnv))) := by
  intro r
  have hcases := upgrade_cases env self gs circs allCircuitsIn newlyCompleteOut
  change (r.upgraded = false ∧ _) ∨ (r.upgraded = true ∧ _) at hcases
  refine ⟨fun c1 hc1 => ?_, upgraded_iff_completes, fun hno => ?_⟩
  · rcases hcases with ⟨-, hcircs, -⟩ | ⟨-, hdown, hgs, b, hbest, hfree, hcircs, -⟩
    · exact absurd (congrFun hcircs c1) hc1
    obtain ⟨hmarked, hkept, -⟩ := @upgradeLoop_spec env.toEnv (withPrimary env.toEnv gs).guards b (restrictionsOf circs b)
      (allCircuitsIn.filter fun circ => circuitIsOurs self (circs circ)) circs newlyCompleteOut
    rw [← hcircs] at hmarked hkept
    obtain ⟨hin, hchosen⟩ := Classical.not_not.mp fun hnot => hc1 (hkept c1 hnot)
    have hwaiting : c1 ∈ waitingCircuits self circs allCircuitsIn := List.mem_filter.mpr ⟨hin, hchosen.waiting⟩
    obtain ⟨hall, hsel, -, -⟩ := mem_waiting.mp hwaiting
    refine ⟨⟨hall, hsel, hchosen.waiting, hmarked c1 hin hchosen⟩, ?_, ?_⟩
    · rw [hgs]
      exact fun p hp => hdown.isReachable hp
    · exact (hchosen.unblocked hbest hfree hwaiting).congr (sameOrder_withPrimary hinv hsampled) hall hsel
  · rcases hcases with ⟨-, hcircs, hout, hgs, -⟩ | ⟨hyes, -⟩
    · exact ⟨hcircs, hout, hgs⟩
    · rw [hyes] at hno
      exact absurd hno.symm Bool.false_ne_true

/-- `newly_complete_out` gets the circuits that were completed. -/
theorem newlyComplete_iff : ∃ new,
    (entryGuardsUpgradeWaitingCircuits env self gs circs allCircuitsIn newlyCompleteOut).newlyCompleteOut =
      newlyCompleteOut ++ new ∧
    ∀ c, c ∈ new ↔
      Completes circs (entryGuardsUpgradeWaitingCircuits env self gs circs allCircuitsIn newlyCompleteOut).circs c := by
  rcases upgrade_cases env self gs circs allCircuitsIn newlyCompleteOut with
    ⟨-, hcircs, hout, -, -⟩ | ⟨-, -, -, b, -, -, hcircs, hout⟩
  · refine ⟨[], by rw [hout, List.append_nil], fun c => ⟨fun h => absurd h List.not_mem_nil, ?_⟩⟩
    rintro ⟨hwaiting, hcomplete⟩
    rw [hcircs, hasState_unique hwaiting (by decide)] at hcomplete
    exact absurd hcomplete Bool.false_ne_true
  · obtain ⟨hmarked, hkept, new, hnew, hmem⟩ := @upgradeLoop_spec env.toEnv (withPrimary env.toEnv gs).guards b
      (restrictionsOf circs b) (allCircuitsIn.filter fun circ => circuitIsOurs self (circs circ)) circs newlyCompleteOut
    rw [← hcircs] at hmarked hkept
    refine ⟨new, hout.trans hnew, fun c => ⟨fun hc => ?_, fun hc => ?_⟩⟩
    · obtain ⟨hin, hchosen⟩ := (hmem c).mp hc
      exact ⟨hchosen.waiting, hasState_markComplete hchosen.waiting (hmarked c hin hchosen)⟩
    · obtain ⟨hwaiting, hcomplete⟩ := hc
      refine (hmem c).mpr (Classical.not_not.mp fun hnot => ?_)
      have hsame := hkept c hnot
      rw [hasState, hsame, ← hasState, hasState_unique hwaiting (by decide)] at hcomplete
      exact Bool.false_ne_true hcomplete

end Sound

/-! ## A selection with its primary guard down -/

def threeGuards : UpgradeEnv where
  toEnv := { twoGuards 1 with
    nodes := [possibleGuard 1, possibleGuard 2, possibleGuard 3]
    nodes_distinct := by decide }
  nonprimaryGuardConnectTimeout := 15

/-- A confirmed guard that passes the filter. -/
def confirmedGuard (id : Identity) (idx : Nat) : Guard :=
  { Guard.zero with
    identity := id
    currentlyListed := true
    confirmedOnDate := 1699000000
    sampledIdx := idx
    confirmedIdx := idx
    isReachable := .yes
    isFilteredGuard := true
    isUsableFilteredGuard := true }

/-- The guard `0` is primary and failed when it was last tried; `1` and `2` work. -/
def oneGuardDown (lastTried : Time) : GuardSelection where
  type := .normal
  guards
    | 0 =>
      { confirmedGuard 1 0 with
        lastTriedToConnect := lastTried
        isReachable := .no
        failingSince := lastTried
        isUsableFilteredGuard := false
        isPrimary := true }
    | 1 => confirmedGuard 2 1
    | 2 => confirmedGuard 3 2
    | _ => Guard.zero
  nextPtr := 3
  sampledEntryGuards := [0, 1, 2]
  confirmedEntryGuards := [0, 1, 2]
  primaryEntryGuards := [0]
  primaryGuardsUpToDate := true
  lastTimeOnInternet := 1699999000
  nextConfirmedIdx := 3
  nextSampledIdx := 3
  draws := 0
  primaryLimit := 1

theorem oneGuardDown_inv (lastTried : Time) : Inv (oneGuardDown lastTried) where
  core :=
    { sampledIdx := by simp [oneGuardDown, confirmedGuard]
      sampledIdx_lt := by simp [oneGuardDown, confirmedGuard]
      identity := by simp [oneGuardDown, confirmedGuard]
      allocated := by simp [oneGuardDown]
      confirmed_eq := by simp [oneGuardDown, confirmedGuard, isConfirmed]
      confirmedIdx := by simp [oneGuardDown, confirmedGuard]
      confirmedIdx_lt := by simp [oneGuardDown, confirmedGuard]
      next_nonneg := by simp [oneGuardDown]
      flags := by simp [oneGuardDown, confirmedGuard, FlagsOk] }
  marked :=
    { sampled := by simp [oneGuardDown]
      iff := by simp [oneGuardDown, confirmedGuard, Guard.zero] }
  nodup := by simp [oneGuardDown]
  length_le := by simp [oneGuardDown]

/-- A circuit through a guard of the selection `0`, in its state for one second. -/
def circuitThrough (guard : Ptr) (state : CircState) (restrictions : Option Restriction) : OriginCircuit where
  guardState := some ⟨some ⟨0, guard⟩, state, 1699999999, restrictions⟩
  markedForClose := false

def circuits (l : List OriginCircuit) (c : CircId) : OriginCircuit := l.getD c ⟨none, false⟩

/-- In the proofs below every circuit is one of the list. -/
theorem guardsSampled_of_all {l : List OriginCircuit} {lastTried : Time} {allCircuitsIn : List CircId}
    (h : (allCircuitsIn.all fun c => ((circuits l c).guardState.bind CircuitGuardState.guard).all fun guard =>
      guard.guard ∈ [0, 1, 2]) = true) :
    GuardsSampled 0 (oneGuardDown lastTried) (circuits l) allCircuitsIn := by
  intro c hc state guard hstate hguard _
  have hin := List.all_eq_true.mp h c hc
  rw [hstate, Option.bind_some, hguard, Option.all_some] at hin
  exact of_decide_eq_true hin

/-- The circuit `0` goes through a better guard than the waiting circuit `1`. -/
def behind (first : OriginCircuit) : CircId → OriginCircuit :=
  circuits [first, circuitThrough 2 .waitingForBetterGuard none]

theorem the_better_of_two_is_upgraded :
    ∃ c, Completes (behind (circuitThrough 1 .waitingForBetterGuard none))
      (entryGuardsUpgradeWaitingCircuits threeGuards 0 (oneGuardDown 1699999900)
        (behind (circuitThrough 1 .waitingForBetterGuard none)) [0, 1] []).circs c :=
  (upgrades_only_unblocked (oneGuardDown_inv _) (guardsSampled_of_all (by decide))).2.1.mp (by decide +kernel)

def closing : OriginCircuit := { circuitThrough 1 .complete none with markedForClose := true }

def usableForTimeout : OriginCircuit where
  guardState := some ⟨some ⟨0, 1⟩, .usableIfNoBetterGuard, 1699999985, none⟩
  markedForClose := false

/-- A circuit that is marked for close does not block, nor one that was usable for as long as the timeout; and a
primary guard gets its retry though the call upgrades nothing. -/
theorem a_closing_circuit_blocks_nothing :
    (¬∀ (env : UpgradeEnv) (self : SelectionPtr) (gs : GuardSelection) (circs : CircId → OriginCircuit)
        (allCircuitsIn newlyCompleteOut : List CircId), Inv gs → GuardsSampled self gs circs allCircuitsIn →
        ∀ c1, (entryGuardsUpgradeWaitingCircuits env self gs circs allCircuitsIn newlyCompleteOut).circs c1 ≠ circs c1 →
          ∀ c2 ∈ allCircuitsIn, OfSelection self circs c2 →
            ¬Blocks env.toEnv gs.guards circs env.nonprimaryGuardConnectTimeout c2 c1) ∧
      (¬∀ (env : UpgradeEnv) (self : SelectionPtr) (gs : GuardSelection) (circs : CircId → OriginCircuit)
        (allCircuitsIn newlyCompleteOut : List CircId), Inv gs → GuardsSampled self gs circs allCircuitsIn →
        ∀ c1, (entryGuardsUpgradeWaitingCircuits env self gs circs allCircuitsIn newlyCompleteOut).circs c1 ≠ circs c1 →
          ∀ c2 ∈ allCircuitsIn, OfSelection self circs c2 → (circs c2).markedForClose = false →
            ¬Blocks env.toEnv gs.guards circs env.nonprimaryGuardConnectTimeout c2 c1) ∧
      ¬∀ (env : UpgradeEnv) (self : SelectionPtr) (gs : GuardSelection) (circs : CircId → OriginCircuit)
        (allCircuitsIn newlyCompleteOut : List CircId), Inv gs → GuardsSampled self gs circs allCircuitsIn →
        (entryGuardsUpgradeWaitingCircuits env self gs circs allCircuitsIn newlyCompleteOut).upgraded = false →
        (entryGuardsUpgradeWaitingCircuits env self gs circs allCircuitsIn newlyCompleteOut).gs = gs := by
  refine ⟨fun hclaim => ?_, fun hclaim => ?_, fun hclaim => ?_⟩
  · have hblocks : Blocks threeGuards.toEnv (oneGuardDown 1699999900).guards (behind closing) 15 0 1 :=
      ⟨_, _, _, _, rfl, rfl, rfl, rfl, rfl, rfl, Or.inl rfl⟩
    have hchanged : (entryGuardsUpgradeWaitingCircuits threeGuards 0 (oneGuardDown 1699999900) (behind closing)
        [0, 1] []).circs 1 ≠ behind closing 1 := by
      decide +kernel
    exact hclaim threeGuards 0 _ _ [0, 1] [] (oneGuardDown_inv _) (guardsSampled_of_all rfl) 1 hchanged 0
      List.mem_cons_self ⟨_, _, rfl, rfl, rfl⟩ hblocks
  · have hblocks : Blocks threeGuards.toEnv (oneGuardDown 1699999900).guards (behind usableForTimeout) 15 0 1 :=
      ⟨_, _, _, _, rfl, rfl, rfl, rfl, rfl, rfl, Or.inr (Or.inr ⟨rfl, by decide⟩)⟩
    have hchanged : (entryGuardsUpgradeWaitingCircuits threeGuards 0 (oneGuardDown 1699999900) (behind usableForTimeout)
        [0, 1] []).circs 1 ≠ behind usableForTimeout 1 := by
      decide +kernel
    exact hclaim threeGuards 0 _ _ [0, 1] [] (oneGuardDown_inv _) (guardsSampled_of_all rfl) 1 hchanged 0
      List.mem_cons_self ⟨_, _, rfl, rfl, rfl⟩ rfl hblocks
  · have hgs := hclaim threeGuards 0 (oneGuardDown 1699990000) (circuits []) [] [] (oneGuardDown_inv _)
      (guardsSampled_of_all rfl) (by decide +kernel)
    have hreachable := congrArg (fun gs => (gs.guards 0).isReachable) hgs
    exact absurd hreachable (by decide +kernel)

/-! ## Circuits left behind -/

/-- The circuit is waiting, and nothing blocks it as the comment has it. -/
structure WaitsUnblocked (env : UpgradeEnv) (self : SelectionPtr) (guards : Ptr → Guard) (circs : CircId → OriginCircuit)
    (allCircuitsIn : List CircId) (c1 : CircId) : Prop where
  mem : c1 ∈ allCircuitsIn
  ofSelection : OfSelection self circs c1
  waiting : hasState circs .waitingForBetterGuard c1 = true
  unblocked : ∀ c2 ∈ allCircuitsIn, OfSelection self circs c2 →
    ¬Blocks env.toEnv guards circs env.nonprimaryGuardConnectTimeout c2 c1

/-- That an unblocked waiting circuit makes the call upgrade something holds exactly when there is no such circuit, or
    the primary guards stay down and the best waiting circuit, the first of its priority, is itself unblocked. -/
theorem none_left_behind_iff {env : UpgradeEnv} {self : SelectionPtr} {gs : GuardSelection}
    {circs : CircId → OriginCircuit} {allCircuitsIn newlyCompleteOut : List CircId} (hinv : Inv gs)
    (hsampled : GuardsSampled self gs circs allCircuitsIn) :
    let r := entryGuardsUpgradeWaitingCircuits env self gs circs allCircuitsIn newlyCompleteOut
    ((∃ c1, WaitsUnblocked env self gs.guards circs allCircuitsIn c1) → ∃ c, Completes circs r.circs c) ↔
      (∀ c1, ¬WaitsUnblocked env self gs.guards circs allCircuitsIn c1) ∨
        PrimariesDown env.toEnv gs ∧ BestUnblocked env self gs.guards circs allCircuitsIn := by
  intro r
  have hupgrades : (∃ c, Completes circs r.circs c) ↔
      PrimariesDown env.toEnv gs ∧ BestUnblocked env self gs.guards circs allCircuitsIn :=
    upgraded_iff_completes.symm.trans (upgraded_iff_best hinv hsampled)
  rw [hupgrades, ← not_exists, imp_iff_not_or]

/-- A circuit is complete through the guard `1`, two wait for it to fail through the guard `2`. The exit of the
second is the guard `1`, so it may not be built through that guard. -/
def exitIsBetterGuard : CircId → OriginCircuit :=
  circuits [circuitThrough 1 .complete (some (.exitNode 9)), circuitThrough 2 .waitingForBetterGuard (some (.exitNode 9)),
    circuitThrough 2 .waitingForBetterGuard (some (.exitNode 2))]

theorem exitIsBetterGuard_waits {l : List CircId} (hmem : 2 ∈ l) (hl : ∀ c ∈ l, c ∈ [0, 1, 2]) :
    WaitsUnblocked threeGuards 0 (oneGuardDown 1699999900).guards exitIsBetterGuard l 2 where
  mem := hmem
  ofSelection := ⟨_, _, rfl, rfl, rfl⟩
  waiting := rfl
  unblocked := by
    intro c2 hc2 h2
    rw [blocks_iff ⟨_, _, rfl, rfl, rfl⟩ h2]
    rintro ⟨hhigher, -⟩
    have hnone : ([0, 1, 2].all fun c => !circStateHasHigherPriority threeGuards.toEnv (oneGuardDown 1699999900).guards
        exitIsBetterGuard c (restrictionsOf exitIsBetterGuard 2) 2) = true := by
      decide
    have hnot := List.all_eq_true.mp hnone c2 (hl c2 hc2)
    rw [hhigher] at hnot
    cases hnot

/-- Nothing blocks the last circuit, but the best one, which the scan finds first, is blocked by the complete one. -/
theorem an_unblocked_circuit_is_left_waiting :
    ¬∀ (env : UpgradeEnv) (self : SelectionPtr) (gs : GuardSelection) (circs : CircId → OriginCircuit)
      (allCircuitsIn newlyCompleteOut : List CircId), Inv gs → GuardsSampled self gs circs allCircuitsIn →
      (∀ p ∈ gs.primaryEntryGuards, (gs.guards p).isReachable = .no) → PrimariesDown env.toEnv gs →
      (∃ c1, WaitsUnblocked env self gs.guards circs allCircuitsIn c1) →
      ∃ c, Completes circs
        (entryGuardsUpgradeWaitingCircuits env self gs circs allCircuitsIn newlyCompleteOut).circs c := by
  intro hclaim
  have hdown : ∀ p ∈ (oneGuardDown 1699999900).primaryEntryGuards,
      ((oneGuardDown 1699999900).guards p).isReachable = .no := by
    simp [oneGuardDown]
  have hstays : PrimariesDown threeGuards.toEnv (oneGuardDown 1699999900) := by
    intro p hp
    obtain rfl := List.mem_singleton.mp hp
    decide
  have hcompletes := hclaim threeGuards 0 _ exitIsBetterGuard [0, 1, 2] [] (oneGuardDown_inv _)
    (guardsSampled_of_all rfl) hdown hstays 
    ⟨2, exitIsBetterGuard_waits (by decide) fun _ hc => hc⟩
  have hno : (entryGuardsUpgradeWaitingCircuits threeGuards 0 (oneGuardDown 1699999900) exitIsBetterGuard
      [0, 1, 2] []).upgraded = false := by
    decide +kernel
  have hyes := upgraded_iff_completes.mpr hcompletes
  rw [hno] at hyes
  exact Bool.false_ne_true hyes

/-- Without the complete circuit the best one is free, and the call upgrades it. -/
theorem the_best_of_two_is_upgraded :
    ∃ c, Completes exitIsBetterGuard
      (entryGuardsUpgradeWaitingCircuits threeGuards 0 (oneGuardDown 1699999900) exitIsBetterGuard [1, 2] []).circs c := by
  have hsampled : GuardsSampled 0 (oneGuardDown 1699999900) exitIsBetterGuard [1, 2] := guardsSampled_of_all rfl
  have hbest := (upgraded_iff_best (oneGuardDown_inv _) hsampled).mp (show (entryGuardsUpgradeWaitingCircuits threeGuards 0
    (oneGuardDown 1699999900) exitIsBetterGuard [1, 2] []).upgraded = true by decide +kernel)
  exact (none_left_behind_iff (oneGuardDown_inv _) hsampled).mpr (Or.inr hbest)
    ⟨2, exitIsBetterGuard_waits (by decide) fun _ hc => List.mem_cons_of_mem _ hc⟩

end Badnet.Entrynodes

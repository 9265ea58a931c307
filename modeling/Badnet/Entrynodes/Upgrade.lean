/-
  Badnet.Entrynodes.Upgrade — waiting circuits become complete (entry_guards_upgrade_waiting_circuits in
  feature/client/entrynodes.c).

  When all primary guards are down, the code scans for the waiting circuit whose guard has the highest priority, counts
  the circuits that come before it under its own restrictions, and if there are none upgrades it: alone if it has
  restrictions, else with the other waiting circuits of its priority. Here: the code and what it is for (`Blocks`), and
  what each of its loops finds (`bestWaiting_iff`, `unblocked_iff`, `upgradeLoop_spec`).
-/

import Badnet.Entrynodes.Priority
import Mathlib

namespace Badnet.Entrynodes

/-! ## Circuits -/

abbrev CircId := Nat

/-- The address of a guard selection. -/
abbrev SelectionPtr := Nat

structure GuardRef where
  inSelection : SelectionPtr
  guard : Ptr
  deriving DecidableEq, Repr

structure CircuitGuardState where
  /-- What `entry_guard_handle_get` returns: nothing once the guard was freed. -/
  guard : Option GuardRef
  state : CircState
  stateSetAt : Time
  restrictions : Option Restriction
  deriving DecidableEq, Repr

structure OriginCircuit where
  guardState : Option CircuitGuardState
  markedForClose : Bool
  deriving DecidableEq, Repr

structure UpgradeEnv extends Env where
  nonprimaryGuardConnectTimeout : Nat

/-! ## The code -/

variable (env : Env) (guards : Ptr → Guard) (circs : CircId → OriginCircuit)

/-- That both circuits have a state is asserted. -/
def circStateHasHigherPriority (a : CircId) (rst : Option Restriction) (b : CircId) : Bool :=
  match (circs a).guardState, (circs b).guardState with
  | some stateA, some stateB =>
    match stateA.guard, stateB.guard with
    | none, _ => false
    | some _, none => true
    | some guardA, some guardB =>
      if !entryGuardObeysRestriction env (guards guardA.guard) rst then false
      else entryGuardHasHigherPriority guards guardA.guard guardB.guard
  | _, _ => false

variable (self : SelectionPtr)

/-- The filter of the first loop. -/
def circuitIsOurs (circ : OriginCircuit) : Bool :=
  match circ.guardState with
  | none => false
  | some state =>
    match state.guard with
    | none => false
    | some guard => if guard.inSelection ≠ self then false else !circ.markedForClose

def hasState (state : CircState) (circ : CircId) : Bool :=
  match (circs circ).guardState with
  | none => false
  | some guardState => guardState.state == state

variable (allCircuits : List CircId)

def bestWaitingCircuit : Option CircId :=
  allCircuits.foldl (fun best circ =>
    if hasState circs .waitingForBetterGuard circ then
      match best with
      | none => some circ
      | some b => if circStateHasHigherPriority env guards circs circ none b then some circ else some b
    else best) none

def restrictionsOf (circ : CircId) : Option Restriction :=
  (circs circ).guardState.bind CircuitGuardState.restrictions

def nCompleteBlocking (rst : Option Restriction) (best : CircId) : Nat :=
  allCircuits.countP fun circ =>
    hasState circs .complete circ && circStateHasHigherPriority env guards circs circ rst best

def nBlockersFound (env : UpgradeEnv) (guards : Ptr → Guard) (circs : CircId → OriginCircuit)
    (allCircuits : List CircId) (rst : Option Restriction) (best : CircId) : Nat :=
  let stateSetAtCutoff := env.now - env.nonprimaryGuardConnectTimeout
  allCircuits.countP fun circ =>
    match (circs circ).guardState with
    | none => false
    | some state =>
      if state.state ≠ .usableIfNoBetterGuard then false
      else if state.stateSetAt ≤ stateSetAtCutoff then false
      else circStateHasHigherPriority env.toEnv guards circs circ rst best

/-- The circuit with its state set to complete now. -/
def markComplete (circ : OriginCircuit) : OriginCircuit :=
  { circ with guardState := circ.guardState.map fun state => { state with state := .complete, stateSetAt := env.now } }

/-- A turn of the last loop. -/
def upgradeTurn (best : CircId) (rst : Option Restriction) (s : (CircId → OriginCircuit) × List CircId)
    (circ : CircId) : (CircId → OriginCircuit) × List CircId :=
  if circ ≠ best ∧ rst.isSome then s
  else if !hasState s.1 .waitingForBetterGuard circ then s
  else if circStateHasHigherPriority env guards s.1 best none circ then s
  else (Function.update s.1 circ (markComplete env (s.1 circ)), s.2 ++ [circ])

/-- The selection, the circuits and `newly_complete_out` after the call, and what it returned. -/
structure Upgrade where
  gs : GuardSelection
  circs : CircId → OriginCircuit
  newlyCompleteOut : List CircId
  upgraded : Bool

def entryGuardsUpgradeWaitingCircuits (env : UpgradeEnv) (self : SelectionPtr) (gs : GuardSelection)
    (circs : CircId → OriginCircuit) (allCircuitsIn newlyCompleteOut : List CircId) : Upgrade :=
  match entryGuardsAllPrimaryGuardsAreDown env.toEnv gs with
  | (gs, false) => ⟨gs, circs, newlyCompleteOut, false⟩
  | (gs, true) =>
    let allCircuits := allCircuitsIn.filter fun circ => circuitIsOurs self (circs circ)
    match bestWaitingCircuit env.toEnv gs.guards circs allCircuits with
    | none => ⟨gs, circs, newlyCompleteOut, false⟩
    | some best =>
      let rst := restrictionsOf circs best
      if nCompleteBlocking env.toEnv gs.guards circs allCircuits rst best ≠ 0 then ⟨gs, circs, newlyCompleteOut, false⟩
      else if nBlockersFound env gs.guards circs allCircuits rst best ≠ 0 then ⟨gs, circs, newlyCompleteOut, false⟩
      else
        let s := allCircuits.foldl (upgradeTurn env.toEnv gs.guards best rst) (circs, newlyCompleteOut)
        ⟨gs, s.1, s.2, true⟩

/-! ## What it is for -/

/-- The circuit goes through a guard of this selection. -/
def OfSelection (circs : CircId → OriginCircuit) (c : CircId) : Prop :=
  ∃ state guard, (circs c).guardState = some state ∧ state.guard = some guard ∧ guard.inSelection = self

/-- The three ways of the comment to be in another circuit's way, with the age up to which a circuit that is usable if
    there is no better guard is. -/
def InTheWay (age : Time) (state : CircuitGuardState) : Prop :=
  state.state = .complete ∨ state.state = .waitingForBetterGuard ∨
    state.state = .usableIfNoBetterGuard ∧ env.now - state.stateSetAt ≤ age

/-- `c2` "blocks" `c1`: it obeys all the restrictions that `c1` had to obey, has higher priority than `c1`, and is
    in the way. -/
def Blocks (age : Time) (c2 c1 : CircId) : Prop :=
  ∃ state1 guard1 state2 guard2, (circs c1).guardState = some state1 ∧ state1.guard = some guard1 ∧
    (circs c2).guardState = some state2 ∧ state2.guard = some guard2 ∧
    entryGuardObeysRestriction env (guards guard2.guard) state1.restrictions = true ∧
    entryGuardHasHigherPriority guards guard2.guard guard1.guard = true ∧ InTheWay env age state2

/-- No circuit blocks it that is not marked for close and, if it is usable, was made so less than the timeout ago. -/
def Unblocked (env : UpgradeEnv) (self : SelectionPtr) (guards : Ptr → Guard) (circs : CircId → OriginCircuit)
    (allCircuitsIn : List CircId) (c1 : CircId) : Prop :=
  ∀ c2 ∈ allCircuitsIn, OfSelection self circs c2 → (circs c2).markedForClose = false →
    ¬Blocks env.toEnv guards circs (env.nonprimaryGuardConnectTimeout - 1) c2 c1

/-- The waiting circuits that the code looks at, in the order of its list. -/
def waitingCircuits (circs : CircId → OriginCircuit) (allCircuitsIn : List CircId) : List CircId :=
  (allCircuitsIn.filter fun circ => circuitIsOurs self (circs circ)).filter (hasState circs .waitingForBetterGuard)

/-- No other has higher priority, and those that are as good come later. -/
structure FirstBest (env : Env) (guards : Ptr → Guard) (circs : CircId → OriginCircuit) (waiting : List CircId)
    (b : CircId) : Prop where
  mem : b ∈ waiting
  best : ∀ c ∈ waiting, circStateHasHigherPriority env guards circs c none b = false
  first : ∀ c ∈ waiting, circStateHasHigherPriority env guards circs b none c = false →
    waiting.idxOf b ≤ waiting.idxOf c

/-- A guard leaves the sample when it is freed. -/
def GuardsSampled (gs : GuardSelection) (circs : CircId → OriginCircuit) (allCircuitsIn : List CircId) : Prop :=
  ∀ c ∈ allCircuitsIn, ∀ state guard, (circs c).guardState = some state → state.guard = some guard →
    guard.inSelection = self → guard.guard ∈ gs.sampledEntryGuards

/-- The circuit was waiting before and is complete after. -/
def Completes (circs' : CircId → OriginCircuit) (c : CircId) : Prop :=
  hasState circs .waitingForBetterGuard c = true ∧ hasState circs' .complete c = true

/-! ## Circuits by the key of their guards -/

section Keys

variable {env : Env} {guards guards' : Ptr → Guard} {circs circs' : CircId → OriginCircuit} {self : SelectionPtr}
  {a b c c1 c2 : CircId} {age : Time}

theorem circuitIsOurs_iff :
    circuitIsOurs self (circs c) = true ↔ OfSelection self circs c ∧ (circs c).markedForClose = false := by
  unfold circuitIsOurs OfSelection
  rcases hstate : (circs c).guardState with _ | state
  · simp
  rcases hguard : state.guard with _ | guard
  · simp [hguard]
  · by_cases hself : guard.inSelection = self
    · simp [hguard, hself]
    · simp [hguard, hself]

def guardPtrOf (circs : CircId → OriginCircuit) (c : CircId) : Ptr :=
  (((circs c).guardState.bind CircuitGuardState.guard).map GuardRef.guard).getD 0

def circPriority (guards : Ptr → Guard) (circs : CircId → OriginCircuit) (c : CircId) : ℕ ×ₗ ℤ :=
  priority (guards (guardPtrOf circs c))

theorem OfSelection.guard (h : OfSelection self circs c) : ∃ state ref, (circs c).guardState = some state ∧
    state.guard = some ref ∧ guardPtrOf circs c = ref.guard := by
  obtain ⟨state, ref, hstate, href, -⟩ := h
  exact ⟨state, ref, hstate, href, by simp [guardPtrOf, hstate, href]⟩

theorem circHigher_iff {rst : Option Restriction} (ha : OfSelection self circs a) (hb : OfSelection self circs b) :
    circStateHasHigherPriority env guards circs a rst b = true ↔
      entryGuardObeysRestriction env (guards (guardPtrOf circs a)) rst = true ∧
        circPriority guards circs a < circPriority guards circs b := by
  obtain ⟨stateA, guardA, hstateA, hguardA, hptrA⟩ := ha.guard
  obtain ⟨stateB, guardB, hstateB, hguardB, hptrB⟩ := hb.guard
  simp only [circStateHasHigherPriority, hstateA, hguardA, hstateB, hguardB, circPriority, hptrA, hptrB]
  by_cases hobeys : entryGuardObeysRestriction env (guards guardA.guard) rst = true
  · simp [hobeys, higherPriority_iff]
  · simp [hobeys]

theorem circHigher_unrestricted_iff (ha : OfSelection self circs a) (hb : OfSelection self circs b) :
    circStateHasHigherPriority env guards circs a none b = true ↔
      circPriority guards circs a < circPriority guards circs b := by
  rw [circHigher_iff ha hb]
  exact and_iff_right rfl

theorem blocks_iff (h1 : OfSelection self circs c1) (h2 : OfSelection self circs c2) :
    Blocks env guards circs age c2 c1 ↔
      circStateHasHigherPriority env guards circs c2 (restrictionsOf circs c1) c1 = true ∧
        ∃ state, (circs c2).guardState = some state ∧ InTheWay env age state := by
  rw [circHigher_iff h2 h1]
  obtain ⟨state1, guard1, hstate1, hguard1, hptr1⟩ := h1.guard
  obtain ⟨state2, guard2, hstate2, hguard2, hptr2⟩ := h2.guard
  have hrst : restrictionsOf circs c1 = state1.restrictions := by simp [restrictionsOf, hstate1]
  simp [Blocks, hstate1, hguard1, hstate2, hguard2, circPriority, hptr1, hptr2, hrst, higherPriority_iff, and_assoc]

/-- Whatever blocks a circuit of at least the priority of `b` blocks `b` too, if `b` has no restrictions. -/
theorem not_blocks_of_best (hb : OfSelection self circs b) (h1 : OfSelection self circs c1)
    (h2 : OfSelection self circs c2) (hrst : restrictionsOf circs b = none)
    (hle : circPriority guards circs c1 ≤ circPriority guards circs b) (h : ¬Blocks env guards circs age c2 b) :
    ¬Blocks env guards circs age c2 c1 := by
  rw [blocks_iff hb h2, hrst, circHigher_unrestricted_iff h2 hb] at h
  rw [blocks_iff h1 h2, circHigher_iff h2 h1]
  rintro ⟨⟨-, hlt⟩, hway⟩
  exact h ⟨lt_of_lt_of_le hlt hle, hway⟩

end Keys

/-! ## The best waiting circuit and its blockers -/

section Best

variable {env : UpgradeEnv} {guards guards' : Ptr → Guard} {circs circs' : CircId → OriginCircuit}
  {self : SelectionPtr} {b c : CircId} {all : List CircId}

/-- The scan finds what `List.argmin` does. -/
theorem bestWaiting_eq (hall : ∀ c ∈ all, OfSelection self circs c) :
    bestWaitingCircuit env.toEnv guards circs all =
      (all.filter (hasState circs .waitingForBetterGuard)).argmin (circPriority guards circs) := by
  have hscan : ∀ (l : List CircId) (best : Option CircId), (∀ c ∈ l, OfSelection self circs c) →
      (∀ b ∈ best, OfSelection self circs b) →
      l.foldl (fun best circ =>
        if hasState circs .waitingForBetterGuard circ then
          match best with
          | none => some circ
          | some b => if circStateHasHigherPriority env.toEnv guards circs circ none b then some circ else some b
        else best) best =
      (l.filter (hasState circs .waitingForBetterGuard)).foldl
        (List.argAux fun x y => circPriority guards circs x < circPriority guards circs y) best := by
    intro l
    induction l with
    | nil => exact fun _ _ _ => rfl
    | cons c l ih =>
      intro best hl hbest
      obtain ⟨hc, hl⟩ := List.forall_mem_cons.mp hl
      by_cases hwaiting : hasState circs .waitingForBetterGuard c = true
      · rw [List.foldl_cons, List.filter_cons_of_pos hwaiting, List.foldl_cons, if_pos hwaiting]
        rcases best with _ | b
        · exact ih _ hl (by simpa using hc)
        · have hb : OfSelection self circs b := hbest b rfl
          simp only [circHigher_unrestricted_iff hc hb]
          apply ih _ hl
          intro x hx
          split at hx
          · cases hx
            exact hc
          · cases hx
            exact hb
      · rw [List.foldl_cons, List.filter_cons_of_neg hwaiting, if_neg hwaiting]
        exact ih _ hl hbest
  exact hscan all none hall (by simp)

theorem bestWaiting_iff (hall : ∀ c ∈ all, OfSelection self circs c) :
    bestWaitingCircuit env.toEnv guards circs all = some b ↔
      FirstBest env.toEnv guards circs (all.filter (hasState circs .waitingForBetterGuard)) b := by
  have hwaiting : ∀ c ∈ all.filter (hasState circs .waitingForBetterGuard), OfSelection self circs c :=
    fun c hc => hall c (List.mem_of_mem_filter hc)
  rw [bestWaiting_eq hall, List.argmin_eq_some_iff]
  constructor
  · rintro ⟨hmem, hbest, hfirst⟩
    refine ⟨hmem, fun c hc => ?_, fun c hc hnot => ?_⟩
    · rw [Bool.eq_false_iff, Ne, circHigher_unrestricted_iff (hwaiting c hc) (hwaiting b hmem), not_lt]
      exact hbest c hc
    · rw [Bool.eq_false_iff, Ne, circHigher_unrestricted_iff (hwaiting b hmem) (hwaiting c hc), not_lt] at hnot
      exact hfirst c hc hnot
  · rintro ⟨hmem, hbest, hfirst⟩
    refine ⟨hmem, fun c hc => ?_, fun c hc hle => ?_⟩
    · have hnot := hbest c hc
      rwa [Bool.eq_false_iff, Ne, circHigher_unrestricted_iff (hwaiting c hc) (hwaiting b hmem), not_lt] at hnot
    · apply hfirst c hc
      rwa [Bool.eq_false_iff, Ne, circHigher_unrestricted_iff (hwaiting b hmem) (hwaiting c hc), not_lt]

/-- In whole seconds, the code's cutoff leaves those that are younger than the timeout. -/
theorem setAt_le_cutoff_iff {now setAt : Int} {timeout : Nat} :
    setAt ≤ now - timeout ↔ ¬now - setAt ≤ timeout - 1 := by
  omega

/-- The two counts are zero when no circuit blocks the best one. That no waiting circuit does is how it was chosen. -/
theorem unblocked_iff (hall : ∀ c ∈ all, OfSelection self circs c)
    (hb : FirstBest env.toEnv guards circs (all.filter (hasState circs .waitingForBetterGuard)) b) :
    (nCompleteBlocking env.toEnv guards circs all (restrictionsOf circs b) b = 0 ∧
        nBlockersFound env guards circs all (restrictionsOf circs b) b = 0) ↔
      ∀ c ∈ all, ¬Blocks env.toEnv guards circs (env.nonprimaryGuardConnectTimeout - 1) c b := by
  have hbsel : OfSelection self circs b := hall b (List.mem_of_mem_filter hb.mem)
  simp only [nCompleteBlocking, nBlockersFound, List.countP_eq_zero, ← forall₂_and]
  refine forall₂_congr fun c hc => ?_
  have hcsel := hall c hc
  obtain ⟨state, -, hstate, -, -⟩ := id hcsel
  rw [blocks_iff hbsel hcsel]
  simp only [hasState, hstate, Option.some.injEq, exists_eq_left', InTheWay]
  by_cases hhigher : circStateHasHigherPriority env.toEnv guards circs c (restrictionsOf circs b) b = true
  · have hnotWaiting : state.state ≠ .waitingForBetterGuard := by
      intro hwaiting
      have hmem : c ∈ all.filter (hasState circs .waitingForBetterGuard) :=
        List.mem_filter.mpr ⟨hc, by simp [hasState, hstate, hwaiting]⟩
      have hnot := hb.best c hmem
      rw [Bool.eq_false_iff] at hnot
      exact hnot ((circHigher_unrestricted_iff hcsel hbsel).mpr ((circHigher_iff hcsel hbsel).mp hhigher).2)
    have hcutoff := @setAt_le_cutoff_iff env.now state.stateSetAt env.nonprimaryGuardConnectTimeout
    rcases hs : state.state with _ | _ | _ | _ | _
    case waitingForBetterGuard => exact absurd hs hnotWaiting
    all_goals simp [hhigher, hcutoff]
  · simp [hhigher]

end Best

/-! ## The last loop -/

section Loop

variable {env : Env} {guards : Ptr → Guard} {circs circs' : CircId → OriginCircuit} {best c x : CircId}
  {rst : Option Restriction}

/-- What the last loop asks of a circuit. -/
structure Chosen (env : Env) (guards : Ptr → Guard) (circs : CircId → OriginCircuit) (best : CircId)
    (rst : Option Restriction) (c : CircId) : Prop where
  free : ¬(c ≠ best ∧ rst.isSome = true)
  waiting : hasState circs .waitingForBetterGuard c = true
  notLower : circStateHasHigherPriority env guards circs best none c = false

theorem upgradeTurn_chosen {s : (CircId → OriginCircuit) × List CircId} (h : Chosen env guards s.1 best rst c) :
    upgradeTurn env guards best rst s c = (Function.update s.1 c (markComplete env (s.1 c)), s.2 ++ [c]) := by
  rw [upgradeTurn, if_neg h.free, if_neg (by simp [h.waiting]), if_neg (by simp [h.notLower])]

theorem upgradeTurn_skipped {s : (CircId → OriginCircuit) × List CircId} (h : ¬Chosen env guards s.1 best rst c) :
    upgradeTurn env guards best rst s c = s := by
  unfold upgradeTurn
  split
  · rfl
  rename_i hfree
  split
  · rfl
  rename_i hwaiting
  split
  · rfl
  rename_i hnotLower
  exact absurd ⟨hfree, by simpa using hwaiting, by simpa using hnotLower⟩ h

/-- The comparison reads only the guards of the two circuits. -/
theorem circHigher_update (a : CircId) (rst : Option Restriction) (b : CircId) :
    circStateHasHigherPriority env guards (Function.update circs x (markComplete env (circs x))) a rst b =
      circStateHasHigherPriority env guards circs a rst b := by
  have hcirc : ∀ c, Function.update circs x (markComplete env (circs x)) c = circs c ∨
      Function.update circs x (markComplete env (circs x)) c = markComplete env (circs c) := by
    intro c
    by_cases hc : c = x
    · subst hc
      exact .inr (Function.update_self ..)
    · exact .inl (Function.update_of_ne hc ..)
  unfold circStateHasHigherPriority
  rcases hcirc a with ha | ha <;> rcases hcirc b with hb | hb <;> rw [ha, hb]
  all_goals
    rcases hstateA : (circs a).guardState with _ | stateA <;> rcases hstateB : (circs b).guardState with _ | stateB
    all_goals simp [markComplete, hstateA, hstateB]

theorem hasState_markComplete (h : hasState circs .waitingForBetterGuard c = true)
    (hc : circs' c = markComplete env (circs c)) : hasState circs' .complete c = true := by
  unfold hasState at *
  rcases hstate : (circs c).guardState with _ | state
  · simp [hstate] at h
  · simp [hc, markComplete, hstate]

theorem hasState_unique {s s' : CircState} (h : hasState circs s c = true) (hne : s ≠ s') :
    hasState circs s' c = false := by
  unfold hasState at *
  split at h
  · cases h
  · rw [beq_iff_eq] at h
    rw [h]
    exact beq_false_of_ne hne

/-- A circuit is chosen by what it was before the loop: once it is complete, it is not chosen again. -/
theorem chosen_update (hx : hasState circs .waitingForBetterGuard x = true) :
    Chosen env guards (Function.update circs x (markComplete env (circs x))) best rst c ↔
      Chosen env guards circs best rst c ∧ c ≠ x := by
  have hother : c ≠ x → hasState (Function.update circs x (markComplete env (circs x))) .waitingForBetterGuard c =
      hasState circs .waitingForBetterGuard c := by
    intro hc
    simp only [hasState, Function.update_of_ne hc]
  constructor
  · rintro ⟨hfree, hwaiting, hnotLower⟩
    have hc : c ≠ x := by
      rintro rfl
      have hcomplete : hasState (Function.update circs c (markComplete env (circs c))) .complete c = true :=
        hasState_markComplete hx (Function.update_self ..)
      rw [hasState_unique hwaiting (by decide)] at hcomplete
      exact Bool.false_ne_true hcomplete
    exact ⟨⟨hfree, hother hc ▸ hwaiting, by rwa [circHigher_update] at hnotLower⟩, hc⟩
  · rintro ⟨⟨hfree, hwaiting, hnotLower⟩, hc⟩
    exact ⟨hfree, (hother hc).trans hwaiting, by rwa [circHigher_update]⟩

/-- The loop completes the chosen circuits of the list and reports them. -/
theorem upgradeLoop_spec (l : List CircId) (circs : CircId → OriginCircuit) (out : List CircId) :
    (∀ c, c ∈ l → Chosen env guards circs best rst c →
        (l.foldl (upgradeTurn env guards best rst) (circs, out)).1 c = markComplete env (circs c)) ∧
      (∀ c, ¬(c ∈ l ∧ Chosen env guards circs best rst c) →
        (l.foldl (upgradeTurn env guards best rst) (circs, out)).1 c = circs c) ∧
      ∃ new, (l.foldl (upgradeTurn env guards best rst) (circs, out)).2 = out ++ new ∧
        ∀ c, c ∈ new ↔ c ∈ l ∧ Chosen env guards circs best rst c := by
  induction l generalizing circs out with
  | nil => exact ⟨by simp, fun _ _ => rfl, [], by simp, by simp⟩
  | cons x l ih =>
    rw [List.foldl_cons]
    by_cases hx : Chosen env guards circs best rst x
    · rw [upgradeTurn_chosen hx]
      obtain ⟨hmarked, hsame, new, hnew, hmem⟩ := ih (Function.update circs x (markComplete env (circs x))) (out ++ [x])
      simp only [chosen_update hx.waiting] at hmarked hsame hmem
      refine ⟨fun c hc hchosen => ?_, fun c hc => ?_, x :: new, by simp [hnew], fun c => ?_⟩
      · by_cases hcx : c = x
        · subst hcx
          rw [hsame c (by simp), Function.update_self]
        · rw [hmarked c (List.mem_of_ne_of_mem hcx hc) ⟨hchosen, hcx⟩, Function.update_of_ne hcx]
      · have hcx : c ≠ x := by
          rintro rfl
          exact hc ⟨List.mem_cons_self, hx⟩
        rw [hsame c fun h => hc ⟨List.mem_cons_of_mem _ h.1, h.2.1⟩, Function.update_of_ne hcx]
      · by_cases hcx : c = x
        · subst hcx
          simp [hx]
        · simp [hcx, hmem]
    · rw [upgradeTurn_skipped hx]
      obtain ⟨hmarked, hsame, new, hnew, hmem⟩ := ih circs out
      have hcons : ∀ c, (c ∈ x :: l ∧ Chosen env guards circs best rst c) ↔
          (c ∈ l ∧ Chosen env guards circs best rst c) := by
        intro c
        by_cases hcx : c = x
        · subst hcx
          simp [hx]
        · simp [hcx]
      refine ⟨fun c hc hchosen => ?_, fun c hc => hsame c fun h => hc ((hcons c).mpr h), new, hnew, fun c => ?_⟩
      · exact hmarked c ((hcons c).mp ⟨hc, hchosen⟩).1 hchosen
      · rw [hmem, hcons]

end Loop

end Badnet.Entrynodes

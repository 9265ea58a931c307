/-
  Badnet.Entrynodes.Select — confirmed and primary guards, and the choice of a guard for a circuit
  (feature/client/entrynodes.c).

  The primary list is filled with confirmed guards, then with the primary guards there were, then with guards from the
  sample, which grows on the way when it has too few usable ones. `step` is an operation of the selection with the
  environment it runs in.
-/

import Badnet.Entrynodes.Sample
import Badnet.Lib.Run
import Mathlib.Data.List.Sort

namespace Badnet.Entrynodes

/-! ## Confirmed guards -/

def compareGuardsByConfirmedIdx (a b : Guard) : Int :=
  if a.confirmedIdx < b.confirmedIdx then -1 else if b.confirmedIdx < a.confirmedIdx then 1 else 0

def compareGuardsBySampledIdx (a b : Guard) : Int :=
  if a.sampledIdx < b.sampledIdx then -1 else if b.sampledIdx < a.sampledIdx then 1 else 0

def smartlistSort (guards : Ptr → Guard) (compare : Guard → Guard → Int) (sl : List Ptr) : List Ptr :=
  sl.insertionSort fun p q => compare (guards p) (guards q) ≤ 0

/-- Every guard of the list gets its place in it as its index. -/
def renumberConfirmed : Nat → GuardSelection → List Ptr → GuardSelection
  | _, gs, [] => gs
  | idx, gs, p :: rest => renumberConfirmed (idx + 1) (gs.modify p fun guard => { guard with confirmedIdx := idx }) rest

def entryGuardsUpdateConfirmed (gs : GuardSelection) : GuardSelection :=
  let confirmed := gs.sampledEntryGuards.filter fun p => 0 ≤ (gs.guards p).confirmedIdx
  let byConfirmed := smartlistSort gs.guards compareGuardsByConfirmedIdx confirmed
  let gs := renumberConfirmed 0 gs byConfirmed
  { gs with
    nextConfirmedIdx := byConfirmed.length
    confirmedEntryGuards := smartlistSort gs.guards compareGuardsBySampledIdx byConfirmed }

variable (env : Env) (gs : GuardSelection) (p : Ptr)

def makeGuardConfirmed : GuardSelection :=
  if (gs.guards p).confirmedOnDate ≠ 0 ∧ 0 ≤ (gs.guards p).confirmedIdx then gs
  else if p ∈ gs.confirmedEntryGuards then gs
  else
    let confirmedOnDate := randomizeTime env gs.draws env.now (getGuardLifetime env / 10)
    let idx := gs.nextConfirmedIdx
    let gs := gs.modify p fun guard => { guard with confirmedOnDate := confirmedOnDate, confirmedIdx := idx }
    { gs with
      draws := gs.draws + 1
      nextConfirmedIdx := idx + 1
      confirmedEntryGuards := smartlistSort gs.guards compareGuardsBySampledIdx (gs.confirmedEntryGuards ++ [p])
      primaryGuardsUpToDate := false }

/-! ## A guard from the sample -/

structure SampleFlags where
  excludeConfirmed : Bool
  excludePrimary : Bool
  excludePending : Bool
  noUpdatePrimary : Bool
  excludeNoDescriptor : Bool

variable (guard : Guard)

/-- Whether a guard may be returned, once it was considered for a retry. -/
def isCandidate (rst : Option Restriction) (flags : SampleFlags) : Bool :=
  entryGuardObeysRestriction env guard rst && guard.isUsableFilteredGuard &&
    !(flags.excludeConfirmed && decide (0 ≤ guard.confirmedIdx)) && !(flags.excludePrimary && guard.isPrimary) &&
    !(flags.excludePending && guard.isPending) && !(flags.excludeNoDescriptor && !guardHasDescriptor env guard)

/-- The guards of a list that may be returned. -/
def reachableFilteredSample (rst : Option Restriction) (flags : SampleFlags) (sl : List Ptr) :
    GuardSelection × List Ptr :=
  sl.foldl (fun s p =>
    let gs := s.1.modify p (entryGuardConsiderRetry env)
    if isCandidate env (gs.guards p) rst flags then (gs, s.2 ++ [p]) else (gs, s.2)) (gs, [])

/-- `first_reachable_filtered_entry_guard`; `updatePrimary` is its call of `entry_guards_update_primary`, which calls it
    back only with `SAMPLE_NO_UPDATE_PRIMARY` set. -/
def firstReachableFilteredEntryGuard (updatePrimary : GuardSelection → GuardSelection) (env : Env) (gs : GuardSelection)
    (rst : Option Restriction) (flags : SampleFlags) : GuardSelection × Option Ptr :=
  let gs := gs.modifyEach gs.sampledEntryGuards (entryGuardConsiderRetry env)
  let (gs, nReachableFiltered) := numReachableFilteredGuards env gs rst
  let gs :=
    if nReachableFiltered < getMinFilteredSampleSize env then (entryGuardsExpandSample env gs).1 else gs
  let gs :=
    if flags.excludePrimary && !gs.primaryGuardsUpToDate && !flags.noUpdatePrimary then updatePrimary gs else gs
  let (gs, sample) := reachableFilteredSample env gs rst flags gs.sampledEntryGuards
  (gs, sample.head?)

/-! ## Primary guards -/

def GuardSelection.setPrimary (isPrimary : Bool) : GuardSelection :=
  gs.modify p fun guard => { guard with isPrimary := isPrimary }

/-- The first loop of `entry_guards_update_primary`, over the confirmed guards. -/
def keepConfirmed (nPrimaryGuards : Nat) : List Ptr → GuardSelection → List Ptr → GuardSelection × List Ptr
  | [], gs, new => (gs, new)
  | p :: rest, gs, new =>
    if nPrimaryGuards ≤ new.length then (gs, new)
    else if !(gs.guards p).isFilteredGuard then keepConfirmed nPrimaryGuards rest gs new
    else keepConfirmed nPrimaryGuards rest (gs.setPrimary p true) (new ++ [p])

/-- The second loop, over the primary guards there were. -/
def keepOld (nPrimaryGuards : Nat) : List Ptr → GuardSelection → List Ptr → GuardSelection × List Ptr
  | [], gs, new => (gs, new)
  | p :: rest, gs, new =>
    if p ∈ new then keepOld nPrimaryGuards rest gs new
    else if new.length < nPrimaryGuards && (gs.guards p).isFilteredGuard then
      keepOld nPrimaryGuards rest (gs.setPrimary p true) (new ++ [p])
    else keepOld nPrimaryGuards rest (gs.setPrimary p false) new

def fillFlags : SampleFlags where
  excludeConfirmed := true
  excludePrimary := true
  excludePending := false
  noUpdatePrimary := true
  excludeNoDescriptor := false

/-- The third loop: each turn fills one of the places left. -/
def fillFromSample (env : Env) : Nat → GuardSelection → List Ptr → GuardSelection × List Ptr
  | 0, gs, new => (gs, new)
  | places + 1, gs, new =>
    match firstReachableFilteredEntryGuard id env gs none fillFlags with
    | (gs, none) => (gs, new)
    | (gs, some p) => fillFromSample env places (gs.setPrimary p true) (new ++ [p])

def entryGuardsUpdatePrimary : GuardSelection :=
  let nPrimaryGuards := getNPrimaryGuards env
  let old := gs.primaryEntryGuards
  let gs := { gs with primaryGuardsUpToDate := true, primaryLimit := nPrimaryGuards }
  let (gs, new) := keepConfirmed nPrimaryGuards gs.confirmedEntryGuards gs []
  let (gs, new) := keepOld nPrimaryGuards old gs new
  let (gs, new) := fillFromSample env (nPrimaryGuards - new.length) gs new
  let new := if gs.primaryEntryGuards = new then new else smartlistSort gs.guards compareGuardsBySampledIdx new
  { gs with primaryEntryGuards := new, primaryGuardsUpToDate := true }

def markPrimaryGuardsMaybeReachable : GuardSelection :=
  let gs := if !gs.primaryGuardsUpToDate then entryGuardsUpdatePrimary env gs else gs
  gs.modifyEach gs.primaryEntryGuards markGuardMaybeReachable

/-! ## A guard for a circuit -/

inductive CircState where
  | usableOnCompletion
  | usableIfNoBetterGuard
  | waitingForBetterGuard
  | complete
  | dead
  deriving DecidableEq, Repr

/-- The loop of `select_primary_guard_for_circuit`. -/
def usablePrimaryGuards (env : Env) (usage : GuardUsage) (rst : Option Restriction) :
    List Ptr → GuardSelection → List Ptr → GuardSelection × List Ptr
  | [], gs, usable => (gs, usable)
  | p :: rest, gs, usable =>
    let gs := gs.modify p (entryGuardConsiderRetry env)
    if !entryGuardObeysRestriction env (gs.guards p) rst then usablePrimaryGuards env usage rst rest gs usable
    else if (gs.guards p).isReachable ≠ .no then
      if usage == .traffic && !guardHasDescriptor env (gs.guards p) then
        usablePrimaryGuards env usage rst rest gs usable
      else
        let gs := gs.modify p fun guard => { guard with lastTriedToConnect := env.now }
        let usable := usable ++ [p]
        if getNPrimaryGuardsToUse env usage ≤ usable.length then (gs, usable)
        else usablePrimaryGuards env usage rst rest gs usable
    else usablePrimaryGuards env usage rst rest gs usable

variable (usage : GuardUsage) (rst : Option Restriction)

def selectPrimaryGuardForCircuit : GuardSelection × Option (Ptr × CircState) :=
  let (gs, usable) := usablePrimaryGuards env usage rst gs.primaryEntryGuards gs []
  match usable[env.rand gs.draws % usable.length]? with
  | none => (gs, none)
  | some p => ({ gs with draws := gs.draws + 1 }, some (p, .usableOnCompletion))

/-- The guard that is chosen waits for its circuit. -/
def takePending : GuardSelection :=
  gs.modify p fun guard => { guard with isPending := true, lastTriedToConnect := env.now }

/-- The loop of `select_confirmed_guard_for_circuit`. -/
def usableConfirmedGuard (env : Env) (usage : GuardUsage) (rst : Option Restriction) :
    List Ptr → GuardSelection → GuardSelection × Option (Ptr × CircState)
  | [], gs => (gs, none)
  | p :: rest, gs =>
    if (gs.guards p).isPrimary then usableConfirmedGuard env usage rst rest gs
    else if !entryGuardObeysRestriction env (gs.guards p) rst then usableConfirmedGuard env usage rst rest gs
    else
      let gs := gs.modify p (entryGuardConsiderRetry env)
      if (gs.guards p).isUsableFilteredGuard && !(gs.guards p).isPending then
        if usage == .traffic && !guardHasDescriptor env (gs.guards p) then usableConfirmedGuard env usage rst rest gs
        else (takePending env gs p, some (p, .usableIfNoBetterGuard))
      else usableConfirmedGuard env usage rst rest gs

def selectConfirmedGuardForCircuit : GuardSelection × Option (Ptr × CircState) :=
  usableConfirmedGuard env usage rst gs.confirmedEntryGuards gs

def selectFilteredGuardForCircuit : GuardSelection × Option (Ptr × CircState) :=
  let flags : SampleFlags := ⟨true, true, true, false, usage == .traffic⟩
  match firstReachableFilteredEntryGuard (entryGuardsUpdatePrimary env) env gs rst flags with
  | (gs, none) => (gs, none)
  | (gs, some p) => (takePending env gs p, some (p, .usableIfNoBetterGuard))

def selectEntryGuardForCircuit : GuardSelection × Option (Ptr × CircState) :=
  let gs := if !gs.primaryGuardsUpToDate then entryGuardsUpdatePrimary env gs else gs
  match selectPrimaryGuardForCircuit env gs usage rst with
  | (gs, some chosen) => (gs, some chosen)
  | (gs, none) =>
    match selectConfirmedGuardForCircuit env gs usage rst with
    | (gs, some chosen) => (gs, some chosen)
    | (gs, none) =>
      match selectFilteredGuardForCircuit env gs usage rst with
      | (gs, some chosen) => (gs, some chosen)
      | (gs, none) => (markAllGuardsMaybeReachable gs, none)

/-! ## What became of a circuit -/

def noteFailure : Guard :=
  { guard with
    isReachable := .no
    isUsableFilteredGuard := false
    isPending := false
    failingSince := if guard.failingSince = 0 then env.now else guard.failingSince }

def entryGuardsNoteGuardFailure : GuardSelection :=
  gs.modify p (noteFailure env)

def noteSuccess : Guard :=
  { guard with
    isReachable := .yes
    failingSince := 0
    isPending := false
    isUsableFilteredGuard := if guard.isFilteredGuard then true else guard.isUsableFilteredGuard }

def newCircState (oldState : CircState) (isPrimary : Bool) : CircState :=
  match oldState with
  | .complete | .usableOnCompletion => .complete
  | _ => if isPrimary then .complete else .waitingForBetterGuard

def entryGuardsNoteGuardSuccess (oldState : CircState) : GuardSelection × CircState :=
  let lastTimeOnInternet := gs.lastTimeOnInternet
  let gs := { gs with lastTimeOnInternet := env.now }
  let gs := gs.modify p noteSuccess
  let gs :=
    if (gs.guards p).confirmedIdx < 0 then
      let gs := makeGuardConfirmed env gs p
      if !gs.primaryGuardsUpToDate then entryGuardsUpdatePrimary env gs else gs
    else gs
  let newState := newCircState oldState (gs.guards p).isPrimary
  let gs :=
    if !(gs.guards p).isPrimary &&
        decide (lastTimeOnInternet + env.params.internetLikelyDownInterval < env.now) then
      markPrimaryGuardsMaybeReachable env gs
    else gs
  (gs, newState)

/-! ## Operations -/

inductive Op where
  | expandSample
  | updateFromConsensus
  | updateFilteredSets
  | updateConfirmed
  | updatePrimary
  | selectForCircuit (usage : GuardUsage) (rst : Option Restriction)
  | noteSuccess (p : Ptr) (oldState : CircState)
  | noteFailure (p : Ptr)

def perform : Op → GuardSelection
  | .expandSample => (entryGuardsExpandSample env gs).1
  | .updateFromConsensus => sampledGuardsUpdateFromConsensus env gs
  | .updateFilteredSets => entryGuardsUpdateFilteredSets env gs
  | .updateConfirmed => entryGuardsUpdateConfirmed gs
  | .updatePrimary => entryGuardsUpdatePrimary env gs
  | .selectForCircuit usage rst => (selectEntryGuardForCircuit env gs usage rst).1
  | .noteSuccess p oldState => (entryGuardsNoteGuardSuccess env gs p oldState).1
  | .noteFailure p => entryGuardsNoteGuardFailure env gs p

/-- The outcome of a circuit is noted for guards that are still sampled. -/
def Op.allowed : Op → Bool
  | .noteSuccess p _ | .noteFailure p => p ∈ gs.sampledEntryGuards
  | _ => true

def step (l : Env × Op) : Option GuardSelection :=
  if l.2.allowed gs then some (perform l.1 gs l.2) else none

end Badnet.Entrynodes

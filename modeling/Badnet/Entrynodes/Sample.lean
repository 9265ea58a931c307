/-
  Badnet.Entrynodes.Sample — the guard selection and its sample (feature/client/entrynodes.c).

  The guards stand in a heap under their pointers; the sampled, the confirmed and the primary list hold pointers. The
  nodelist, the options, the parameters, the clock and the random numbers are the environment (`Env`) of one operation.
  Here: the filter, the retries, how the sample grows (this fork's version, which needs no live consensus), and how a
  consensus marks guards as unlisted and removes old ones.
-/

import Badnet.Lib.Intrusive
import Mathlib.Data.Nat.Log

namespace Badnet.Entrynodes

/-! ## Data -/

abbrev Identity := BitVec 160

abbrev Time := Int

abbrev Ptr := Nat

inductive Reachable where
  | no
  | yes
  | maybe
  deriving DecidableEq, Repr

structure Guard where
  identity : Identity
  sampledOnDate : Time
  unlistedSinceDate : Time
  currentlyListed : Bool
  confirmedOnDate : Time
  sampledIdx : Nat
  confirmedIdx : Int
  lastTriedToConnect : Time
  isReachable : Reachable
  isPending : Bool
  failingSince : Time
  isFilteredGuard : Bool
  isUsableFilteredGuard : Bool
  isPrimary : Bool
  deriving DecidableEq, Repr

/-- Memory that was never allocated reads as zeroes. -/
def Guard.zero : Guard where
  identity := 0
  sampledOnDate := 0
  unlistedSinceDate := 0
  currentlyListed := false
  confirmedOnDate := 0
  sampledIdx := 0
  confirmedIdx := 0
  lastTriedToConnect := 0
  isReachable := .no
  isPending := false
  failingSince := 0
  isFilteredGuard := false
  isUsableFilteredGuard := false
  isPrimary := false

/-- A node and the flags that `node_is_possible_guard` looks at. -/
structure Node where
  identity : Identity
  isPossibleGuard : Bool
  isStable : Bool
  isFast : Bool
  isValid : Bool
  isDir : Bool
  isMe : Bool
  deriving DecidableEq, Repr

def nodeIsPossibleGuard (node : Node) : Bool :=
  node.isPossibleGuard && node.isStable && node.isFast && node.isValid && node.isDir && !node.isMe

structure Options where
  excludeNodes : Node → Bool
  entryNodes : Option (Node → Bool)
  guardLifetime : Nat
  numPrimaryGuards : Nat
  numEntryGuards : Nat
  numDirectoryGuards : Nat

/-- The network parameters, as `networkstatus_get_param` returns them. -/
structure Params where
  /-- `(int)(n_guards * get_max_sample_threshold())`, a product of doubles. -/
  maxSampleByPct : Nat → Nat
  maxSampleSize : Nat
  minFilteredSampleSize : Nat
  removeUnlistedGuardsAfterDays : Nat
  guardLifetimeDays : Nat
  guardConfirmedMinLifetimeDays : Nat
  nPrimaryGuards : Nat
  nPrimaryGuardsToUse : Nat
  nPrimaryDirGuardsToUse : Nat
  internetLikelyDownInterval : Nat

/-- What an operation finds around the guard selection. -/
structure Env where
  nodes : List Node
  nodes_distinct : (nodes.map Node.identity).Nodup
  options : Options
  params : Params
  now : Time
  reasonablyLiveConsensus : Bool
  reachableAddrAllowsNode : Node → Bool
  nodeIsAConfiguredBridge : Node → Bool
  nodesInSameFamily : Node → Node → Bool
  nodeHasPreferredDescriptor : Node → Bool
  relayIsOutdatedDirserver : Identity → Bool
  pathBiasDisabled : Ptr → Bool
  /-- The random numbers, in the order they are drawn. -/
  rand : Nat → Nat
  /-- The hash with the key of a Bloom filter that is made at this draw, its first or its second half. -/
  siphash : Nat → Bool → Identity → BitVec 64

/-- Selections of bridges are not modelled. -/
inductive GsType where
  | normal
  | restricted
  deriving DecidableEq, Repr

structure GuardSelection where
  type : GsType
  /-- The heap, and the next pointer that `malloc` returns. -/
  guards : Ptr → Guard
  nextPtr : Ptr
  sampledEntryGuards : List Ptr
  confirmedEntryGuards : List Ptr
  primaryEntryGuards : List Ptr
  primaryGuardsUpToDate : Bool
  lastTimeOnInternet : Time
  nextConfirmedIdx : Int
  nextSampledIdx : Nat
  /-- How many random numbers were drawn. -/
  draws : Nat
  /-- What `get_n_primary_guards` returned when the primary list was last rebuilt; the source keeps no such field. -/
  primaryLimit : Nat

def guardSelectionNew (type : GsType) : GuardSelection where
  type := type
  guards := fun _ => Guard.zero
  nextPtr := 0
  sampledEntryGuards := []
  confirmedEntryGuards := []
  primaryEntryGuards := []
  primaryGuardsUpToDate := false
  lastTimeOnInternet := 0
  nextConfirmedIdx := 0
  nextSampledIdx := 0
  draws := 0
  primaryLimit := 0

def GuardSelection.modify (gs : GuardSelection) (p : Ptr) (f : Guard → Guard) : GuardSelection :=
  { gs with guards := Function.update gs.guards p (f (gs.guards p)) }

/-- `f` on every guard of a list. -/
def GuardSelection.modifyEach (gs : GuardSelection) (l : List Ptr) (f : Guard → Guard) : GuardSelection :=
  l.foldl (fun gs p => gs.modify p f) gs

/-! ## Parameters -/

variable (env : Env)

def getMinFilteredSampleSize : Nat := env.params.minFilteredSampleSize

def getRemoveUnlistedGuardsAfterSeconds : Nat := env.params.removeUnlistedGuardsAfterDays * 24 * 60 * 60

def getGuardLifetime : Nat :=
  if 86400 ≤ env.options.guardLifetime then env.options.guardLifetime else env.params.guardLifetimeDays * 86400

def getGuardConfirmedMinLifetime : Nat :=
  if 86400 ≤ env.options.guardLifetime then env.options.guardLifetime
  else env.params.guardConfirmedMinLifetimeDays * 86400

def getNPrimaryGuards : Nat :=
  if env.options.numPrimaryGuards ≠ 0 then env.options.numPrimaryGuards else env.params.nPrimaryGuards

inductive GuardUsage where
  | traffic
  | dirguard
  deriving DecidableEq, Repr

def getNPrimaryGuardsToUse : GuardUsage → Nat
  | .dirguard =>
    if 1 ≤ env.options.numDirectoryGuards then env.options.numDirectoryGuards else env.params.nPrimaryDirGuardsToUse
  | .traffic => if 1 ≤ env.options.numEntryGuards then env.options.numEntryGuards else env.params.nPrimaryGuardsToUse

/-- A time within `maxBackdate` before now. -/
def randomizeTime (draw : Nat) (now maxBackdate : Time) : Time :=
  let earliest := if now - maxBackdate ≤ 0 then 1 else now - maxBackdate
  let latest := if now ≤ earliest then earliest + 1 else now
  earliest + (env.rand draw : Int) % (latest - earliest)

/-! ## Nodes, filters and restrictions -/

def nodeGetById (id : Identity) : Option Node := env.nodes.find? fun node => node.identity == id

variable (guard : Guard)

def guardHasDescriptor : Bool :=
  match nodeGetById env guard.identity with
  | none => false
  | some node => env.nodeHasPreferredDescriptor node

def nodePassesGuardFilter (node : Node) : Bool :=
  if env.options.excludeNodes node then false
  else if env.options.entryNodes.any fun entryNodes => !entryNodes node then false
  else if !env.reachableAddrAllowsNode node then false
  else if env.nodeIsAConfiguredBridge node then false
  else true

def entryGuardPassesFilter (p : Ptr) (guard : Guard) : Bool :=
  if !guard.currentlyListed then false
  else if env.pathBiasDisabled p then false
  else
    match nodeGetById env guard.identity with
    | none => false
    | some node => nodePassesGuardFilter env node

inductive Restriction where
  | exitNode (excludeId : Identity)
  | outdatedMdDirserver
  deriving DecidableEq, Repr

/-- A guard of this kind of selection has no bridge address to compare. -/
def guardInNodeFamily (node : Node) : Bool :=
  match nodeGetById env guard.identity with
  | some guardNode => env.nodesInSameFamily guardNode node
  | none => false

def guardObeysExitRestriction (excludeId : Identity) : Bool :=
  if (nodeGetById env excludeId).any fun node => guardInNodeFamily env guard node then false
  else guard.identity != excludeId

def guardObeysMdDirserverRestriction : Bool :=
  !env.relayIsOutdatedDirserver guard.identity

def entryGuardObeysRestriction : Option Restriction → Bool
  | none => true
  | some (.exitNode excludeId) => guardObeysExitRestriction env guard excludeId
  | some .outdatedMdDirserver => guardObeysMdDirserverRestriction env guard

/-! ## Retrying a guard -/

/-- The last row of the table is for every longer time. -/
def getRetrySchedule (failingSince now : Time) (isPrimary : Bool) : Time :=
  let tdiff := if failingSince < now then now - failingSince else 0
  if tdiff ≤ 6 * 3600 then (if isPrimary then 10 * 60 else 1 * 60 * 60)
  else if tdiff ≤ 4 * 86400 then (if isPrimary then 90 * 60 else 4 * 60 * 60)
  else if tdiff ≤ 7 * 86400 then (if isPrimary then 4 * 60 * 60 else 18 * 60 * 60)
  else (if isPrimary then 9 * 60 * 60 else 36 * 60 * 60)

def entryGuardConsiderRetry : Guard :=
  if guard.isReachable ≠ .no then guard
  else
    let delay := getRetrySchedule guard.failingSince env.now guard.isPrimary
    let lastAttempt := guard.lastTriedToConnect
    if lastAttempt = 0 ∨ lastAttempt + delay ≤ env.now then
      { guard with
        isReachable := .maybe
        isUsableFilteredGuard := if guard.isFilteredGuard then true else guard.isUsableFilteredGuard }
    else guard

def markGuardMaybeReachable : Guard :=
  if guard.isReachable ≠ .no then guard
  else
    { guard with
      isReachable := .maybe
      isUsableFilteredGuard := if guard.isFilteredGuard then true else guard.isUsableFilteredGuard }

variable (gs : GuardSelection)

def markAllGuardsMaybeReachable : GuardSelection :=
  gs.modifyEach gs.sampledEntryGuards markGuardMaybeReachable

/-! ## The filtered set -/

/-- The guard with its two flags set anew. -/
def filteredFlags (p : Ptr) (guard : Guard) : Guard :=
  if entryGuardPassesFilter env p guard then
    entryGuardConsiderRetry env
      { guard with isFilteredGuard := true, isUsableFilteredGuard := decide (guard.isReachable ≠ .no) }
  else { guard with isFilteredGuard := false, isUsableFilteredGuard := false }

def entryGuardSetFilteredFlags (p : Ptr) : GuardSelection :=
  let wasFiltered := (gs.guards p).isFilteredGuard
  let gs := gs.modify p (filteredFlags env p)
  if wasFiltered = (gs.guards p).isFilteredGuard then gs else { gs with primaryGuardsUpToDate := false }

def entryGuardsUpdateFilteredSets : GuardSelection :=
  gs.sampledEntryGuards.foldl (entryGuardSetFilteredFlags env) gs

def numReachableFilteredGuards (rst : Option Restriction) : GuardSelection × Nat :=
  gs.sampledEntryGuards.foldl (fun s p =>
    let gs := s.1.modify p (entryGuardConsiderRetry env)
    if !entryGuardObeysRestriction env (gs.guards p) rst then (gs, s.2)
    else if (gs.guards p).isUsableFilteredGuard then (gs, s.2 + 1)
    else (gs, s.2)) (gs, 0)

/-! ## Growing the sample -/

def getMaxSampleSize (nGuards : Nat) : Nat :=
  let maxSample := min (env.params.maxSampleByPct nGuards) env.params.maxSampleSize
  if maxSample < getMinFilteredSampleSize env then getMinFilteredSampleSize env else maxSample

variable (hash : Bool → Identity → BitVec 64)

/-- The bits of a Bloom filter of `2 ^ logBits` bits that stand for an item. -/
def bloomBits (logBits : Nat) (id : Identity) : List Nat :=
  [false, true].flatMap fun i =>
    [(hash i id).toNat / 2 ^ 32 % 2 ^ logBits, (hash i id).toNat % 2 ^ 32 % 2 ^ logBits]

/-- The filter is made for as many items as are added. -/
def digestsetProbablyContains (added : List Identity) (id : Identity) : Bool :=
  let logBits := Nat.log 2 added.length + 5
  (bloomBits hash logBits id).all fun bit => added.any fun a => (bloomBits hash logBits a).contains bit

/-- The possible guards outside the sample, and the number of all possible guards. -/
def getEligibleGuards : List Node × Nat :=
  let sampledGuardIds := gs.sampledEntryGuards.map fun p => (gs.guards p).identity
  let guards := env.nodes.filter fun node =>
    nodeIsPossibleGuard node && (gs.type != .restricted || nodePassesGuardFilter env node)
  (guards.filter fun node => !digestsetProbablyContains (env.siphash gs.draws) sampledGuardIds node.identity,
    guards.length)

variable (id : Identity)

def haveSampledGuardWithId : Bool :=
  gs.sampledEntryGuards.any fun p => (gs.guards p).identity == id

/-- The zeroed memory with the fields that are set in it. -/
def newGuard : Guard :=
  { Guard.zero with
    identity := id
    sampledOnDate := randomizeTime env gs.draws env.now (getGuardLifetime env / 10)
    currentlyListed := true
    sampledIdx := gs.nextSampledIdx
    confirmedIdx := -1
    isReachable := .maybe }

/-- A new guard at the end of the sample. -/
def GuardSelection.push (guard : Guard) : GuardSelection :=
  { gs with
    guards := Function.update gs.guards gs.nextPtr guard
    nextPtr := gs.nextPtr + 1
    nextSampledIdx := gs.nextSampledIdx + 1
    sampledEntryGuards := gs.sampledEntryGuards ++ [gs.nextPtr] }

def entryGuardAddToSampleImpl : GuardSelection × Ptr :=
  let p := gs.nextPtr
  let gs := { gs.push (newGuard env gs id) with draws := gs.draws + 1 }
  (entryGuardSetFilteredFlags env gs p, p)

def entryGuardAddToSample (node : Node) : GuardSelection × Option Ptr :=
  if haveSampledGuardWithId gs node.identity then (gs, none)
  else
    let (gs, p) := entryGuardAddToSampleImpl env gs node.identity
    (gs, some p)

/-- The weighted choice of a node draws an index; out of range, no node was chosen. -/
def selectAndAddGuardItemForSample (eligibleGuards : List Node) : GuardSelection × List Node × Option Ptr :=
  let idx := env.rand gs.draws
  let gs := { gs with draws := gs.draws + 1 }
  match eligibleGuards[idx]? with
  | none => (gs, eligibleGuards, none)
  | some node =>
    let (gs, added) := entryGuardAddToSample env gs node
    (gs, Lib.swapRemove eligibleGuards idx, added)

/-- The loop of `entry_guards_expand_sample`: as long as it goes on, each turn takes one node off the eligible list. -/
def expandLoop (env : Env) (maxSample : Nat) :
    Nat → GuardSelection → List Node → Nat → Nat → Option Ptr → GuardSelection × Option Ptr
  | 0, gs, _, _, _, added => (gs, added)
  | fuel + 1, gs, eligibleGuards, nSampled, nUsableFilteredGuards, added =>
    if getMinFilteredSampleSize env ≤ nUsableFilteredGuards then (gs, added)
    else if maxSample ≤ nSampled then (gs, added)
    else if eligibleGuards.length = 0 then (gs, added)
    else
      match selectAndAddGuardItemForSample env gs eligibleGuards with
      | (gs, _, none) => (gs, none)
      | (gs, eligibleGuards, some p) =>
        let usable := (gs.guards p).isUsableFilteredGuard
        expandLoop env maxSample fuel gs eligibleGuards (nSampled + 1)
          (if usable then nUsableFilteredGuards + 1 else nUsableFilteredGuards) (some p)

/-- The loop has no turn without an eligible node, so the number of these is fuel enough (`expandLoop_fuel`). -/
def entryGuardsExpandSample : GuardSelection × Option Ptr :=
  let nSampled := gs.sampledEntryGuards.length
  let (gs, nUsableFilteredGuards) := numReachableFilteredGuards env gs none
  let (eligibleGuards, nGuards) := getEligibleGuards env gs
  let gs := { gs with draws := gs.draws + 1 }
  let maxSample := getMaxSampleSize env nGuards
  expandLoop env maxSample eligibleGuards.length gs eligibleGuards nSampled nUsableFilteredGuards none

theorem selectAndAdd_length {env : Env} {gs gs' : GuardSelection} {eligibleGuards rest : List Node} {p : Ptr}
    (h : selectAndAddGuardItemForSample env gs eligibleGuards = (gs', rest, some p)) :
    rest.length + 1 = eligibleGuards.length := by
  unfold selectAndAddGuardItemForSample at h
  rcases hnode : eligibleGuards[env.rand gs.draws]? with _ | node
  · simp [hnode] at h
  · simp only [hnode, Prod.mk.injEq] at h
    obtain ⟨-, rfl, -⟩ := h
    exact (Lib.swapRemove_perm hnode).length_eq

/-- What every turn does, its addition failed or not, the loop does. -/
theorem expandLoop_rel {env : Env} {R : GuardSelection → GuardSelection → Prop} (hrefl : ∀ gs, R gs gs)
    (htrans : ∀ {gs gs' gs''}, R gs gs' → R gs' gs'' → R gs gs'')
    (hadd : ∀ gs eligibleGuards, R gs (selectAndAddGuardItemForSample env gs eligibleGuards).1) {maxSample fuel : Nat} :
    ∀ {gs eligibleGuards nSampled nUsable added},
      R gs (expandLoop env maxSample fuel gs eligibleGuards nSampled nUsable added).1 := by
  induction fuel with
  | zero => exact hrefl _
  | succ fuel ih =>
    intro gs eligibleGuards nSampled nUsable added
    simp only [expandLoop]
    split
    · exact hrefl _
    split
    · exact hrefl _
    split
    · exact hrefl _
    have hturn := hadd gs eligibleGuards
    generalize selectAndAddGuardItemForSample env gs eligibleGuards = turn at hturn ⊢
    rcases turn with ⟨gs', rest, _ | p⟩
    · exact hturn
    · exact htrans hturn ih

/-- More fuel than there are eligible nodes changes nothing. -/
theorem expandLoop_fuel {env : Env} {maxSample fuel fuel' : Nat} {gs : GuardSelection} {eligibleGuards : List Node}
    {nSampled nUsable : Nat} {added : Option Ptr} (h : eligibleGuards.length ≤ fuel)
    (h' : eligibleGuards.length ≤ fuel') :
    expandLoop env maxSample fuel gs eligibleGuards nSampled nUsable added =
      expandLoop env maxSample fuel' gs eligibleGuards nSampled nUsable added := by
  induction fuel generalizing fuel' gs eligibleGuards nSampled nUsable added with
  | zero =>
    have hnil : eligibleGuards.length = 0 := by omega
    cases fuel' with
    | zero => rfl
    | succ fuel' => simp [expandLoop, hnil]
  | succ fuel ih =>
    cases fuel' with
    | zero =>
      have hnil : eligibleGuards.length = 0 := by omega
      simp [expandLoop, hnil]
    | succ fuel' =>
      simp only [expandLoop]
      split
      · rfl
      split
      · rfl
      split
      · rfl
      rcases hadd : selectAndAddGuardItemForSample env gs eligibleGuards with ⟨gs', rest, _ | p⟩
      · rfl
      · have hlen := selectAndAdd_length hadd
        exact ih (by omega) (by omega)

/-! ## A new consensus -/

def smartlistRemoveKeeporder (sl : List Ptr) (p : Ptr) : List Ptr := sl.filter (· != p)

def removeGuardFromConfirmedAndPrimaryLists (p : Ptr) : GuardSelection :=
  let gs :=
    if (gs.guards p).isPrimary then
      { gs.modify p fun guard => { guard with isPrimary := false } with
        primaryEntryGuards := smartlistRemoveKeeporder gs.primaryEntryGuards p }
    else if p ∈ gs.primaryEntryGuards then
      { gs with primaryEntryGuards := smartlistRemoveKeeporder gs.primaryEntryGuards p }
    else gs
  if 0 ≤ (gs.guards p).confirmedIdx then
    { gs.modify p fun guard => { guard with confirmedIdx := -1, confirmedOnDate := 0 } with
      confirmedEntryGuards := smartlistRemoveKeeporder gs.confirmedEntryGuards p }
  else if p ∈ gs.confirmedEntryGuards then
    { gs with confirmedEntryGuards := smartlistRemoveKeeporder gs.confirmedEntryGuards p }
  else gs

def entryGuardIsListed : Bool :=
  (nodeGetById env guard.identity).any nodeIsPossibleGuard

/-- One guard in the loop of `sampled_guards_update_consensus_presence`: the guard, the draws and the changes made. -/
def updatePresence (draw : Nat) (guard : Guard) : Guard × Nat × Nat :=
  let slop : Time := getRemoveUnlistedGuardsAfterSeconds env / 5
  let isListed := entryGuardIsListed env guard
  let (guard, draw, nChanges) :=
    if isListed && !guard.currentlyListed then
      ({ guard with currentlyListed := true, unlistedSinceDate := 0 }, draw, 1)
    else if !isListed && guard.currentlyListed then
      ({ guard with currentlyListed := false, unlistedSinceDate := randomizeTime env draw env.now slop }, draw + 1, 1)
    else (guard, draw, 0)
  if guard.currentlyListed && guard.unlistedSinceDate != 0 then
    ({ guard with unlistedSinceDate := 0 }, draw, nChanges + 1)
  else if !guard.currentlyListed && guard.unlistedSinceDate == 0 then
    ({ guard with unlistedSinceDate := randomizeTime env draw env.now slop }, draw + 1, nChanges + 1)
  else (guard, draw, nChanges)

def sampledGuardsUpdateConsensusPresence : GuardSelection × Nat :=
  gs.sampledEntryGuards.foldl (fun s p =>
    let (guard, draw, nChanges) := updatePresence env s.1.draws (s.1.guards p)
    ({ s.1.modify p fun _ => guard with draws := draw }, s.2 + nChanges)) (gs, 0)

/-- Whether a guard is removed for its age. -/
def isObsolete (removeIfUnlistedSince maybeRemoveIfSampledBefore removeIfConfirmedBefore : Time) (guard : Guard) :
    Bool :=
  if !guard.currentlyListed && decide (guard.unlistedSinceDate < removeIfUnlistedSince) then true
  else if guard.sampledOnDate < maybeRemoveIfSampledBefore then
    guard.confirmedOnDate == 0 || decide (guard.confirmedOnDate < removeIfConfirmedBefore)
  else false

def sampledGuardsPruneObsoleteEntries
    (removeIfUnlistedSince maybeRemoveIfSampledBefore removeIfConfirmedBefore : Time) : GuardSelection × Nat :=
  gs.sampledEntryGuards.foldl (fun s p =>
    if isObsolete removeIfUnlistedSince maybeRemoveIfSampledBefore removeIfConfirmedBefore (s.1.guards p) then
      (removeGuardFromConfirmedAndPrimaryLists
        { s.1 with sampledEntryGuards := smartlistRemoveKeeporder s.1.sampledEntryGuards p } p, s.2 + 1)
    else s) (gs, 0)

def sampledGuardsUpdateFromConsensus : GuardSelection :=
  if !env.reasonablyLiveConsensus then gs
  else
    let (gs, nPresence) := sampledGuardsUpdateConsensusPresence env gs
    let (gs, nPruned) := sampledGuardsPruneObsoleteEntries gs
      (env.now - getRemoveUnlistedGuardsAfterSeconds env) (env.now - getGuardLifetime env)
      (env.now - getGuardConfirmedMinLifetime env)
    if nPresence + nPruned ≠ 0 then
      entryGuardsUpdateFilteredSets env { gs with primaryGuardsUpToDate := false }
    else gs

end Badnet.Entrynodes

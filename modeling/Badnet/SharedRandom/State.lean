/-
  Badnet.SharedRandom.State — the shared random state from round to round (`feature/dirauth/shared_random_state.c`).

  The phase comes from the slot that a valid-after time is in. `sr_state_update` prepares the state for the upcoming
  round: going into the commit phase starts a protocol run, with the value of the run before it, and without its commits.
-/

import Badnet.SharedRandom.Srv

namespace Badnet.SharedRandom

open Lib Encoding Dirparse

def SHARED_RANDOM_N_ROUNDS : Int := 12
def SHARED_RANDOM_N_PHASES : Int := 2

/-- `sr_state_t`: beside what votes change, the times, the counters and the values. -/
structure SrMemState extends SrState where
  version : UInt32
  validAfter : Int
  validUntil : Int
  nProtocolRuns : UInt64
  nCommitRounds : UInt32
  nRevealRounds : UInt32
  previousSrv : Option SrSrv
  currentSrv : Option SrSrv
  isSrvFresh : Bool
  deriving DecidableEq

/-- What an update takes from elsewhere. -/
structure UpdateEnv where
  sha3 : Bytes → Digest256
  /-- `get_voting_interval()`. -/
  votingInterval : Int
  /-- `dirauth_sched_get_cur_valid_after_time()`. -/
  curValidAfterTime : Int
  /-- The digest of our identity key; none is a failure. -/
  digest : Option Identity
  /-- The bytes of `crypto_strongest_rand`. -/
  random : Digest256
  /-- `smartlist_sort` with `compare_reveal_`. -/
  sort : List SrCommit → List SrCommit
  trusteddirserver : Identity → Bool

/-! ## Times and phases -/

def getSrProtocolPhase (votingInterval validAfter : Int) : SrPhase :=
  let totalPeriods := SHARED_RANDOM_N_ROUNDS * SHARED_RANDOM_N_PHASES
  let currentSlot := (validAfter.tdiv votingInterval).tmod totalPeriods
  if currentSlot < SHARED_RANDOM_N_ROUNDS then .COMMIT else .REVEAL

section

variable (env : UpdateEnv)

def getStateValidUntilTime (now : Int) : Int :=
  let totalRounds := SHARED_RANDOM_N_ROUNDS * SHARED_RANDOM_N_PHASES
  let currentRound := (now.tdiv env.votingInterval).tmod totalRounds
  let roundsLeft := totalRounds - currentRound
  env.curValidAfterTime + roundsLeft * env.votingInterval

def stateNew (now : Int) : SrMemState where
  version := UInt32.ofNat SR_PROTO_VERSION
  commits := []
  phase := getSrProtocolPhase env.votingInterval now
  validUntil := getStateValidUntilTime env now
  validAfter := 0
  nProtocolRuns := 0
  nCommitRounds := 0
  nRevealRounds := 0
  previousSrv := none
  currentSrv := none
  isSrvFresh := false

/-! ## Updates -/

namespace SrMemState

def rotateSrv (s : SrMemState) : SrMemState := { s with previousSrv := s.currentSrv, currentSrv := none }

/-- `sr_compute_srv` with what it sets; none is a failed assertion. -/
def computeSrv (env : UpdateEnv) (s : SrMemState) : Option SrMemState := do
  match ← srComputeSrv env.sha3 env.sort env.trusteddirserver s.phase s.commits s.previousSrv with
  | none => some s
  | some srv => some { s with currentSrv := some srv, isSrvFresh := true }

/-- `sr_state_add_commit`. -/
def addCommit (s : SrMemState) (commit : SrCommit) : SrMemState := { s with toSrState := s.toSrState.addCommit commit }

def resetForNewProtocolRun (env : UpdateEnv) (s : SrMemState) (validAfter : Int) : SrMemState :=
  { s with
    nRevealRounds := 0
    nCommitRounds := 0
    nProtocolRuns := s.nProtocolRuns + 1
    validUntil := getStateValidUntilTime env validAfter
    validAfter := validAfter
    commits := [] }

end SrMemState

/-- What `sr_generate_our_commit` makes at a valid-after time, if it makes one. -/
def ourCommit (validAfter : Int) : Option SrCommit :=
  env.digest.bind fun digest => srGenerateOurCommit env.sha3 (UInt64.ofInt validAfter) digest env.random

/-- The state after an update, the commit that it added, and whether it ran into its `BUG`. -/
structure Updated where
  state : SrMemState
  added : Option SrCommit
  bug : Bool

def addOurCommit (s : SrMemState) (validAfter : Int) : SrMemState × Option SrCommit :=
  match ourCommit env validAfter with
  | none => (s, none)
  | some commit => (s.addCommit commit, some commit)

/-- Only at the end of the reveal phase is there a value to compute. -/
def newProtocolRun (s : SrMemState) (validAfter : Int) : Option (SrMemState × Option SrCommit) :=
  (if s.phase = .REVEAL then s.rotateSrv.computeSrv env else some s).map fun s =>
    addOurCommit env (s.resetForNewProtocolRun env validAfter) validAfter

/-- The part of `sr_state_update` before the valid-after time is set. -/
def enterPhase (s : SrMemState) (validAfter : Int) : Option (SrMemState × Option SrCommit) :=
  let nextPhase := getSrProtocolPhase env.votingInterval validAfter
  if s.phase ≠ nextPhase then
    (if nextPhase = .COMMIT then newProtocolRun env s validAfter else some (s, none)).map fun (s, added) =>
      ({ s with phase := nextPhase }, added)
  else if s.phase = .COMMIT ∧ s.commits = [] then some (addOurCommit env s validAfter)
  else some (s, none)

def srStateUpdate (s : SrMemState) (validAfter : Int) : Option Updated :=
  if validAfter ≤ s.validAfter then some { state := s, added := none, bug := false }
  else do
    let (s, added) ← enterPhase env s validAfter
    let s := { s with validAfter := validAfter }
    if s.phase = .COMMIT then
      if s.nRevealRounds ≠ 0 then some { state := s, added := added, bug := true }
      else some { state := { s with nCommitRounds := s.nCommitRounds + 1 }, added := added, bug := false }
    else some { state := { s with nRevealRounds := s.nRevealRounds + 1 }, added := added, bug := false }

end

/-! ## What an update does -/

variable {env : UpdateEnv} {s t : SrMemState} {validAfter : Int} {added : Option SrCommit}

theorem addOurCommit_state (env : UpdateEnv) (s : SrMemState) (validAfter : Int) :
    ∃ commits, (addOurCommit env s validAfter).1 = { s with commits := commits } ∧
      (s.commits = [] → commits = (addOurCommit env s validAfter).2.toList) := by
  rw [addOurCommit]
  cases ourCommit env validAfter with
  | none => exact ⟨s.commits, rfl, fun h => h⟩
  | some commit =>
    refine ⟨_, rfl, fun h => ?_⟩
    rw [h]
    rfl

theorem addOurCommit_added (env : UpdateEnv) (s : SrMemState) (validAfter : Int) :
    (addOurCommit env s validAfter).2 = ourCommit env validAfter := by
  rw [addOurCommit]
  cases ourCommit env validAfter with
  | none => rfl
  | some commit => rfl

/-- The first round of a run: the counters at 0 and no commit but ours. -/
structure StartsRun (t : SrMemState) (added : Option SrCommit) : Prop where
  commits : t.commits = added.toList
  nCommitRounds : t.nCommitRounds = 0
  nRevealRounds : t.nRevealRounds = 0

theorem newProtocolRun_starts (h : newProtocolRun env s validAfter = some (t, added)) : StartsRun t added := by
  obtain ⟨u, -, h⟩ := Option.map_eq_some_iff.mp h
  obtain ⟨commits, hstate, hcommits⟩ := addOurCommit_state env (u.resetForNewProtocolRun env validAfter) validAfter
  rw [h] at hstate hcommits
  obtain rfl : t = { u.resetForNewProtocolRun env validAfter with commits := commits } := hstate
  exact ⟨hcommits rfl, rfl, rfl⟩

/-- A round that goes on: the counters stay, and so do the commits, where there are any. -/
structure GoesOn (s t : SrMemState) (added : Option SrCommit) : Prop where
  commits : t.commits = s.commits ∧ added = none ∨ s.commits = [] ∧ t.commits = added.toList
  nCommitRounds : t.nCommitRounds = s.nCommitRounds
  nRevealRounds : t.nRevealRounds = s.nRevealRounds

/-- Only the way from the reveal phase into the commit phase starts a run. -/
theorem enterPhase_cases (h : enterPhase env s validAfter = some (t, added)) :
    t.phase = getSrProtocolPhase env.votingInterval validAfter ∧
      if s.phase = .REVEAL ∧ getSrProtocolPhase env.votingInterval validAfter = .COMMIT then StartsRun t added
      else GoesOn s t added := by
  rw [enterPhase] at h
  generalize getSrProtocolPhase env.votingInterval validAfter = nextPhase at h ⊢
  simp only at h
  split at h
  · next hne =>
    obtain ⟨⟨u, added'⟩, hu, h⟩ := Option.map_eq_some_iff.mp h
    obtain ⟨rfl, rfl⟩ := Prod.mk.inj h
    refine ⟨rfl, ?_⟩
    cases nextPhase with
    | COMMIT =>
      have hreveal : s.phase = .REVEAL := by
        cases hs : s.phase with
        | COMMIT => exact absurd hs hne
        | REVEAL => rfl
      rw [if_pos rfl] at hu
      have hstarts := newProtocolRun_starts hu
      rw [if_pos ⟨hreveal, rfl⟩]
      exact ⟨hstarts.commits, hstarts.nCommitRounds, hstarts.nRevealRounds⟩
    | REVEAL =>
      rw [if_neg (by decide)] at hu
      obtain ⟨rfl, rfl⟩ := Prod.mk.inj (Option.some.inj hu)
      rw [if_neg (by simp)]
      exact ⟨.inl ⟨rfl, rfl⟩, rfl, rfl⟩
  · next hsame =>
    have hsame : s.phase = nextPhase := Classical.not_not.mp hsame
    have hno : ¬ (s.phase = .REVEAL ∧ nextPhase = .COMMIT) := by
      rintro ⟨hreveal, hcommit⟩
      rw [hreveal, hcommit] at hsame
      cases hsame
    rw [if_neg hno]
    split at h
    · next hempty =>
      obtain ⟨commits, hstate, hcommits⟩ := addOurCommit_state env s validAfter
      rw [Option.some.inj h] at hstate hcommits
      obtain rfl : t = { s with commits := commits } := hstate
      exact ⟨hsame, .inr ⟨hempty.2, hcommits hempty.2⟩, rfl, rfl⟩
    · obtain ⟨rfl, rfl⟩ := Prod.mk.inj (Option.some.inj h)
      exact ⟨hsame, .inl ⟨rfl, rfl⟩, rfl, rfl⟩

/-- What is added is our own. -/
theorem enterPhase_added (h : enterPhase env s validAfter = some (t, added)) :
    ∀ c ∈ added, ourCommit env validAfter = some c := by
  rw [enterPhase] at h
  simp only at h
  split at h
  · obtain ⟨⟨u, added'⟩, hu, h⟩ := Option.map_eq_some_iff.mp h
    obtain ⟨-, rfl⟩ := Prod.mk.inj h
    split at hu
    · obtain ⟨v, -, hv⟩ := Option.map_eq_some_iff.mp hu
      have hadded := addOurCommit_added env (v.resetForNewProtocolRun env validAfter) validAfter
      rw [hv] at hadded
      exact fun c hc => hadded ▸ hc
    · obtain ⟨-, rfl⟩ := Prod.mk.inj (Option.some.inj hu)
      exact fun c hc => by cases hc
  · split at h
    · have hadded := addOurCommit_added env s validAfter
      rw [Option.some.inj h] at hadded
      exact fun c hc => hadded ▸ hc
    · obtain ⟨-, rfl⟩ := Prod.mk.inj (Option.some.inj h)
      exact fun c hc => by cases hc

/-- What an update for a later round does, after the phase is entered. -/
theorem srStateUpdate_later {u : Updated} (hlt : s.validAfter < validAfter)
    (h : srStateUpdate env s validAfter = some u) :
    ∃ t, enterPhase env s validAfter = some (t, u.added) ∧ u.state.phase = t.phase ∧ u.state.commits = t.commits ∧
      u.state.validAfter = validAfter ∧
      if t.phase = .COMMIT then
        if t.nRevealRounds ≠ 0 then u.bug = true
        else u.bug = false ∧ u.state.nCommitRounds = t.nCommitRounds + 1 ∧ u.state.nRevealRounds = 0
      else u.bug = false ∧ u.state.nCommitRounds = t.nCommitRounds ∧ u.state.nRevealRounds = t.nRevealRounds + 1 := by
  rw [srStateUpdate, if_neg (Int.not_le.mpr hlt)] at h
  obtain ⟨⟨t, added⟩, henter, h⟩ := Option.bind_eq_some_iff.mp h
  simp only at h
  refine ⟨t, ?_⟩
  split at h
  · next hcommit =>
    rw [if_pos hcommit]
    split at h
    · next hbug =>
      cases h
      rw [if_pos hbug]
      exact ⟨henter, rfl, rfl, rfl, rfl⟩
    · next hnone =>
      cases h
      rw [if_neg hnone]
      exact ⟨henter, rfl, rfl, rfl, rfl, rfl, Classical.not_not.mp hnone⟩
  · next hreveal =>
    cases h
    rw [if_neg hreveal]
    exact ⟨henter, rfl, rfl, rfl, rfl, rfl, rfl⟩

/-- Only a protocol run that starts can run into an assertion. -/
theorem srStateUpdate_some (hno : ¬ (s.phase = .REVEAL ∧ getSrProtocolPhase env.votingInterval validAfter = .COMMIT)) :
    ∃ u, srStateUpdate env s validAfter = some u := by
  have henter : ∃ e, enterPhase env s validAfter = some e := by
    rw [enterPhase]
    generalize getSrProtocolPhase env.votingInterval validAfter = nextPhase at hno ⊢
    by_cases hne : s.phase = nextPhase
    · rw [if_neg (not_not.mpr hne)]
      split
      · exact ⟨_, rfl⟩
      · exact ⟨_, rfl⟩
    · rw [if_pos hne]
      have hreveal : nextPhase ≠ .COMMIT := by
        intro hcommit
        cases hs : s.phase with
        | COMMIT => exact hne (hs.trans hcommit.symm)
        | REVEAL => exact hno ⟨hs, hcommit⟩
      rw [if_neg hreveal]
      exact ⟨_, rfl⟩
  obtain ⟨⟨e, added⟩, henter⟩ := henter
  rw [srStateUpdate]
  split
  · exact ⟨_, rfl⟩
  · rw [henter, Option.bind_eq_bind, Option.bind_some]
    simp only
    split
    · split
      · exact ⟨_, rfl⟩
      · exact ⟨_, rfl⟩
    · exact ⟨_, rfl⟩

end Badnet.SharedRandom

/-
  Badnet.SharedRandom.StateRuns — whether the state belongs to the protocol run it is in (`sr_state_update`).

  The code notices that a protocol run has begun by the change from the reveal phase into the commit phase, and by
  nothing else: over a longer gap, commits and counters of an earlier run stay (`a_day_missed_keeps_the_commits`). In
  every run of calls that goes over no such boundary with something to lose, the state belongs to the protocol run of
  its valid-after time (`state_belongs_to_run`).
-/

import Badnet.SharedRandom.State

namespace Badnet.SharedRandom

open Lib Encoding

section

variable (votingInterval : Int)

/-- The number of the round that a time is in, and of the protocol run. -/
def roundOf (time : Int) : Int := time / votingInterval

def runOf (time : Int) : Int := roundOf votingInterval time / 24

/-- The place of the round in its run. -/
def slotOf (time : Int) : Int := roundOf votingInterval time % 24

/-- The state, and what it does not say itself. -/
structure Tracked where
  state : SrMemState
  /-- Ghost: the valid-after time of the round in which the commit of an authority was added. -/
  addedAt : Identity → Int
  /-- Ghost: an update ran into its `BUG`. -/
  bug : Bool

inductive Call where
  | srStateUpdate (env : UpdateEnv) (validAfter : Int)
  | srStateAddCommit (commit : SrCommit)

def Tracked.after (t : Tracked) (validAfter : Int) (u : Updated) : Tracked where
  state := u.state
  addedAt := fun id => if u.added.any (·.rsaIdentity = id) then validAfter else t.addedAt id
  bug := t.bug || u.bug

/-- All calls go by one voting interval. -/
def callStep (t : Tracked) : Call → Option Tracked
  | .srStateUpdate env validAfter =>
    (srStateUpdate { env with votingInterval := votingInterval } t.state validAfter).map (t.after validAfter)
  | .srStateAddCommit commit =>
    some { t with
      state := t.state.addCommit commit
      addedAt := fun id => if commit.rsaIdentity = id then t.state.validAfter else t.addedAt id }

/-! ## What is wanted -/

structure BelongsToRun (votingInterval : Int) (t : Tracked) : Prop where
  commits : ∀ c ∈ t.state.commits,
    runOf votingInterval (t.addedAt c.rsaIdentity) = runOf votingInterval t.state.validAfter
  phase : t.state.phase = getSrProtocolPhase votingInterval t.state.validAfter
  nCommitRounds : t.state.nCommitRounds.toNat ≤ 12
  nRevealRounds : t.state.nRevealRounds.toNat ≤ 12
  noBug : t.bug = false

/-- A state as `state_new` makes it, or as it is read from disk: the counters at 0, the commits and the phase, if
there are any, of the run of its valid-after time. -/
structure Restarted (votingInterval : Int) (t : Tracked) : Prop where
  validAfter : 0 ≤ t.state.validAfter
  commits : ∀ c ∈ t.state.commits,
    runOf votingInterval (t.addedAt c.rsaIdentity) = runOf votingInterval t.state.validAfter
  phase : t.state.validAfter = 0 ∨ t.state.phase = getSrProtocolPhase votingInterval t.state.validAfter
  nCommitRounds : t.state.nCommitRounds = 0
  nRevealRounds : t.state.nRevealRounds = 0
  noBug : t.bug = false

/-- Rounds start at multiples of the interval. -/
def OnSchedule (_ : Tracked) : Call → Prop
  | .srStateUpdate _ validAfter => 0 < validAfter ∧ votingInterval ∣ validAfter
  | .srStateAddCommit _ => True

/-- An update stays in the run, or notices the next one by the change of phase, or there are no commits, and no more
rounds counted than the phase has had. -/
def RunNoticed (t : Tracked) : Call → Prop
  | .srStateUpdate _ validAfter =>
    t.state.validAfter < validAfter →
      runOf votingInterval validAfter = runOf votingInterval t.state.validAfter ∨
      (t.state.phase = .REVEAL ∧ getSrProtocolPhase votingInterval validAfter = .COMMIT) ∨
      (t.state.commits = [] ∧
        match getSrProtocolPhase votingInterval validAfter with
        | .COMMIT => (t.state.nCommitRounds.toNat : Int) ≤ slotOf votingInterval validAfter
        | .REVEAL => (t.state.nRevealRounds.toNat : Int) ≤ slotOf votingInterval validAfter - 12)
  | .srStateAddCommit _ => True

end

/-! ## Rounds -/

variable {votingInterval time time' : Int} {t t' : Tracked} {env : UpdateEnv} {validAfter : Int}

theorem phase_eq_slot (hpos : 0 < votingInterval) (htime : 0 ≤ time) :
    getSrProtocolPhase votingInterval time = if slotOf votingInterval time < 12 then .COMMIT else .REVEAL := by
  have hround : 0 ≤ time / votingInterval := Int.ediv_nonneg htime (Int.le_of_lt hpos)
  rw [getSrProtocolPhase, Int.tdiv_eq_ediv_of_nonneg htime, Int.tmod_eq_emod_of_nonneg hround]
  rfl

theorem slotOf_bounds (votingInterval time : Int) : 0 ≤ slotOf votingInterval time ∧ slotOf votingInterval time < 24 := by
  rw [slotOf]
  omega

/-- Later in one run is later in its slots, when both times start a round. -/
theorem slotOf_lt (hpos : 0 < votingInterval) (h : votingInterval ∣ time) (h' : votingInterval ∣ time')
    (hlt : time < time') (hrun : runOf votingInterval time' = runOf votingInterval time) :
    slotOf votingInterval time < slotOf votingInterval time' := by
  obtain ⟨k, rfl⟩ := h
  obtain ⟨k', rfl⟩ := h'
  have hk : k < k' := Int.lt_of_mul_lt_mul_left hlt (Int.le_of_lt hpos)
  simp only [runOf, slotOf, roundOf, Int.mul_ediv_cancel_left _ (Int.ne_of_gt hpos)] at hrun ⊢
  omega

/-! ## The invariant -/

structure RunInvariant (votingInterval : Int) (t : Tracked) : Prop where
  validAfter : 0 ≤ t.state.validAfter
  commits : ∀ c ∈ t.state.commits,
    runOf votingInterval (t.addedAt c.rsaIdentity) = runOf votingInterval t.state.validAfter
  phase : t.state.validAfter = 0 ∨ t.state.phase = getSrProtocolPhase votingInterval t.state.validAfter
  /-- The counters say something only once a round was prepared. -/
  counted : (t.state.nCommitRounds.toNat = 0 ∧ t.state.nRevealRounds.toNat = 0) ∨ votingInterval ∣ t.state.validAfter
  nCommitRounds : t.state.nCommitRounds.toNat ≤ 12 ∧
    (t.state.nCommitRounds.toNat : Int) ≤ slotOf votingInterval t.state.validAfter + 1
  nRevealRounds : t.state.nRevealRounds.toNat = 0 ∨
    (t.state.nRevealRounds.toNat : Int) ≤ slotOf votingInterval t.state.validAfter - 11
  noBug : t.bug = false

theorem Restarted.invariant (h : Restarted votingInterval t) : RunInvariant votingInterval t := by
  have hslot := slotOf_bounds votingInterval t.state.validAfter
  refine ⟨h.validAfter, h.commits, h.phase, .inl ?_, ?_, .inl ?_, h.noBug⟩
  · rw [h.nCommitRounds, h.nRevealRounds]
    exact ⟨rfl, rfl⟩
  · rw [h.nCommitRounds]
    exact ⟨by decide, by simp only [UInt32.toNat_zero]; omega⟩
  · rw [h.nRevealRounds]
    rfl

theorem RunInvariant.belongs (h : RunInvariant votingInterval t) (hpos : 0 < t.state.validAfter) :
    BelongsToRun votingInterval t := by
  have hslot := slotOf_bounds votingInterval t.state.validAfter
  have hreveal := h.nRevealRounds
  refine ⟨h.commits, h.phase.resolve_left (by omega), h.nCommitRounds.1, by omega, h.noBug⟩

/-- In the commit phase no reveal round is counted. -/
theorem RunInvariant.noReveals (h : RunInvariant votingInterval t) (hpos : 0 < votingInterval)
    (hphase : t.state.phase = .COMMIT) : t.state.nRevealRounds = 0 := by
  have hslot : slotOf votingInterval t.state.validAfter < 12 := by
    rcases h.phase with hzero | hsame
    · rw [hzero]
      simp [slotOf, roundOf]
    · rw [hsame, phase_eq_slot hpos h.validAfter] at hphase
      by_contra hnot
      rw [if_neg hnot] at hphase
      cases hphase
  have hreveal := h.nRevealRounds
  exact UInt32.toNat_inj.mp (show _ = 0 by omega)

theorem toNat_count (n : UInt32) (h : n.toNat ≤ 12) : (n + 1).toNat = n.toNat + 1 := by
  rw [UInt32.toNat_add, UInt32.toNat_one]
  omega

variable {added : Option SrCommit} {e : SrMemState}

/-- The commits that an update leaves are of the run that it prepares. -/
theorem commits_belong {s u : SrMemState} {addedAt : Identity → Int}
    (htags : ∀ c ∈ s.commits, runOf votingInterval (addedAt c.rsaIdentity) = runOf votingInterval s.validAfter)
    (hcommits : (u.commits = s.commits ∧ added = none) ∨ u.commits = added.toList)
    (hrun : u.commits = added.toList ∨ runOf votingInterval validAfter = runOf votingInterval s.validAfter) :
    ∀ c ∈ u.commits, runOf votingInterval (if added.any (·.rsaIdentity = c.rsaIdentity) then validAfter
      else addedAt c.rsaIdentity) = runOf votingInterval validAfter := by
  intro c hc
  by_cases hown : u.commits = added.toList
  · rw [hown] at hc
    obtain rfl := Option.mem_toList.mp hc
    rw [if_pos (by simp)]
  · obtain ⟨hsame, rfl⟩ := hcommits.resolve_right hown
    rw [Option.any_none, if_neg Bool.false_ne_true, hrun.resolve_left hown]
    exact htags c (hsame ▸ hc)

/-- When a round is entered, its phase has had no more rounds than there were. -/
structure CountersFit (votingInterval validAfter : Int) (e : SrMemState) : Prop where
  most : e.nCommitRounds.toNat ≤ 12
  commit : getSrProtocolPhase votingInterval validAfter = .COMMIT →
    e.nRevealRounds = 0 ∧ (e.nCommitRounds.toNat : Int) ≤ slotOf votingInterval validAfter
  reveal : getSrProtocolPhase votingInterval validAfter = .REVEAL →
    (e.nRevealRounds.toNat : Int) ≤ slotOf votingInterval validAfter - 12

theorem StartsRun.countersFit (h : StartsRun e added)
    (hcommit : getSrProtocolPhase votingInterval validAfter = .COMMIT) : CountersFit votingInterval validAfter e := by
  have hslot := slotOf_bounds votingInterval validAfter
  refine ⟨?_, fun _ => ⟨h.nRevealRounds, ?_⟩, fun hreveal => ?_⟩
  · rw [h.nCommitRounds]
    decide
  · rw [h.nCommitRounds]
    exact hslot.1
  · rw [hcommit] at hreveal
    cases hreveal

theorem GoesOn.countersFit (hpos : 0 < votingInterval)
    (h : RunInvariant votingInterval t) (hsched : 0 < validAfter ∧ votingInterval ∣ validAfter)
    (hlt : t.state.validAfter < validAfter) (hgoes : GoesOn t.state e added)
    (hno : ¬ (t.state.phase = .REVEAL ∧ getSrProtocolPhase votingInterval validAfter = .COMMIT))
    (hnoticed : RunNoticed votingInterval t (.srStateUpdate env validAfter)) : CountersFit votingInterval validAfter e := by
  have hphase := phase_eq_slot hpos (Int.le_of_lt hsched.1)
  have hslot := slotOf_bounds votingInterval validAfter
  have hlater : runOf votingInterval validAfter = runOf votingInterval t.state.validAfter →
      (t.state.nCommitRounds.toNat = 0 ∧ t.state.nRevealRounds.toNat = 0) ∨
        slotOf votingInterval t.state.validAfter < slotOf votingInterval validAfter := by
    intro hrun
    rcases h.counted with hzero | hdvd
    · exact .inl hzero
    · exact .inr (slotOf_lt hpos hdvd hsched.2 hlt hrun)
  have hcommitRounds := h.nCommitRounds
  have hrevealRounds := h.nRevealRounds
  refine ⟨?_, fun hcommit => ⟨?_, ?_⟩, fun hreveal => ?_⟩
  · rw [hgoes.nCommitRounds]
    exact hcommitRounds.1
  · rw [hgoes.nRevealRounds]
    refine h.noReveals hpos ?_
    cases hs : t.state.phase with
    | COMMIT => rfl
    | REVEAL => exact absurd ⟨hs, hcommit⟩ hno
  · rw [hgoes.nCommitRounds]
    rcases hnoticed hlt with hrun | hchange | ⟨-, hfew⟩
    · have := hlater hrun
      omega
    · exact absurd hchange hno
    · rw [hcommit] at hfew
      exact hfew
  · have hslot' : 12 ≤ slotOf votingInterval validAfter := by
      by_contra hnot
      rw [hphase, if_pos (Int.not_le.mp hnot)] at hreveal
      cases hreveal
    rw [hgoes.nRevealRounds]
    rcases hnoticed hlt with hrun | hchange | ⟨-, hfew⟩
    · have := hlater hrun
      omega
    · exact absurd hchange hno
    · rw [hreveal] at hfew
      exact hfew

/-- The commits of the state that enters a round are those of before, or our own; and if they are not of the run of the
    round, it is because there were none. -/
theorem GoesOn.entered (hlt : t.state.validAfter < validAfter) (hgoes : GoesOn t.state e added)
    (hno : ¬ (t.state.phase = .REVEAL ∧ getSrProtocolPhase votingInterval validAfter = .COMMIT))
    (hnoticed : RunNoticed votingInterval t (.srStateUpdate env validAfter)) :
    ((e.commits = t.state.commits ∧ added = none) ∨ e.commits = added.toList) ∧
      (e.commits = added.toList ∨ runOf votingInterval validAfter = runOf votingInterval t.state.validAfter) := by
  refine ⟨hgoes.commits.imp id And.right, ?_⟩
  rcases hgoes.commits with ⟨hsame, hnone⟩ | ⟨-, hown⟩
  · rcases hnoticed hlt with hrun | hchange | ⟨hempty, -⟩
    · exact .inr hrun
    · exact absurd hchange hno
    · left
      rw [hsame, hempty, hnone]
      rfl
  · exact .inl hown

/-- The round that is prepared is counted, and the count still fits. -/
theorem CountersFit.counted {u : SrMemState} {bug : Bool} (hpos : 0 < votingInterval) (hva : 0 < validAfter)
    (hfit : CountersFit votingInterval validAfter e) (hphase : e.phase = getSrProtocolPhase votingInterval validAfter)
    (hcount : if e.phase = .COMMIT then
        if e.nRevealRounds ≠ 0 then bug = true
        else bug = false ∧ u.nCommitRounds = e.nCommitRounds + 1 ∧ u.nRevealRounds = 0
      else bug = false ∧ u.nCommitRounds = e.nCommitRounds ∧ u.nRevealRounds = e.nRevealRounds + 1) :
    bug = false ∧ u.nCommitRounds.toNat ≤ 12 ∧
      (u.nCommitRounds.toNat : Int) ≤ slotOf votingInterval validAfter + 1 ∧
      (u.nRevealRounds.toNat = 0 ∨ (u.nRevealRounds.toNat : Int) ≤ slotOf votingInterval validAfter - 11) := by
  have hslotphase := phase_eq_slot hpos (Int.le_of_lt hva)
  have hslot := slotOf_bounds votingInterval validAfter
  have hmost := hfit.most
  by_cases hlow : slotOf votingInterval validAfter < 12
  · rw [if_pos hlow] at hslotphase
    obtain ⟨hnone, hle⟩ := hfit.commit hslotphase
    rw [if_pos (hphase.trans hslotphase), if_neg (not_not.mpr hnone)] at hcount
    obtain ⟨hbug, hcommit, hreveal⟩ := hcount
    rw [hcommit, hreveal, toNat_count _ hmost]
    exact ⟨hbug, by omega, by omega, .inl rfl⟩
  · rw [if_neg hlow] at hslotphase
    have hle := hfit.reveal hslotphase
    rw [hphase, hslotphase, if_neg (by decide)] at hcount
    obtain ⟨hbug, hcommit, hreveal⟩ := hcount
    rw [hcommit, hreveal, toNat_count _ (by omega)]
    exact ⟨hbug, hmost, by omega, .inr (by omega)⟩

/-- One update. -/
theorem update_invariant (hpos : 0 < votingInterval) (h : RunInvariant votingInterval t)
    (hsched : 0 < validAfter ∧ votingInterval ∣ validAfter)
    (hnoticed : RunNoticed votingInterval t (.srStateUpdate env validAfter))
    (hstep : callStep votingInterval t (.srStateUpdate env validAfter) = some t') :
    RunInvariant votingInterval t' ∧ 0 < t'.state.validAfter := by
  obtain ⟨u, hu, rfl⟩ := Option.map_eq_some_iff.mp hstep
  by_cases hlt : t.state.validAfter < validAfter
  swap
  · rw [srStateUpdate, if_pos (Int.not_lt.mp hlt)] at hu
    cases hu
    refine ⟨⟨h.validAfter, h.commits, h.phase, h.counted, h.nCommitRounds, h.nRevealRounds, ?_⟩, ?_⟩
    · show (t.bug || false) = false
      rw [h.noBug]
      rfl
    · show 0 < t.state.validAfter
      omega
  obtain ⟨e, henter, hphase, hcommits, hva, hcount⟩ := srStateUpdate_later hlt hu
  obtain ⟨hephase, hcases⟩ := enterPhase_cases henter
  change e.phase = getSrProtocolPhase votingInterval validAfter at hephase
  change if t.state.phase = .REVEAL ∧ getSrProtocolPhase votingInterval validAfter = .COMMIT then StartsRun e u.added
    else GoesOn t.state e u.added at hcases
  obtain ⟨hfit, hfrom, hrun⟩ : CountersFit votingInterval validAfter e ∧
      ((e.commits = t.state.commits ∧ u.added = none) ∨ e.commits = u.added.toList) ∧
      (e.commits = u.added.toList ∨ runOf votingInterval validAfter = runOf votingInterval t.state.validAfter) := by
    split at hcases
    · next hchange => exact ⟨hcases.countersFit hchange.2, .inr hcases.commits, .inl hcases.commits⟩
    · next hno =>
      exact ⟨GoesOn.countersFit hpos h hsched hlt hcases hno hnoticed, GoesOn.entered hlt hcases hno hnoticed⟩
  obtain ⟨hbug, hmost, hcommit, hreveal⟩ := hfit.counted hpos hsched.1 hephase hcount
  refine ⟨⟨?_, ?_, ?_, .inr ?_, ?_, ?_, ?_⟩, ?_⟩
  · show 0 ≤ u.state.validAfter
    omega
  · show ∀ c ∈ u.state.commits, runOf votingInterval (if u.added.any (·.rsaIdentity = c.rsaIdentity) then validAfter
      else t.addedAt c.rsaIdentity) = runOf votingInterval u.state.validAfter
    rw [hcommits, hva]
    exact commits_belong h.commits hfrom hrun
  · show _ ∨ u.state.phase = getSrProtocolPhase votingInterval u.state.validAfter
    rw [hphase, hva]
    exact .inr hephase
  · show votingInterval ∣ u.state.validAfter
    rw [hva]
    exact hsched.2
  · show _ ∧ _ ≤ slotOf votingInterval u.state.validAfter + 1
    rw [hva]
    exact ⟨hmost, hcommit⟩
  · show _ ∨ _ ≤ slotOf votingInterval u.state.validAfter - 11
    rw [hva]
    exact hreveal
  · show (t.bug || u.bug) = false
    rw [h.noBug, hbug]
    rfl
  · show 0 < u.state.validAfter
    rw [hva]
    exact hsched.1

/-- A commit that is added belongs to the run of the time. -/
theorem addCommit_invariant {commit : SrCommit} (h : RunInvariant votingInterval t)
    (hstep : callStep votingInterval t (.srStateAddCommit commit) = some t') : RunInvariant votingInterval t' := by
  cases hstep
  refine ⟨h.validAfter, fun c hc => ?_, h.phase, h.counted, h.nCommitRounds, h.nRevealRounds, h.noBug⟩
  show runOf votingInterval (if commit.rsaIdentity = c.rsaIdentity then t.state.validAfter else t.addedAt c.rsaIdentity) =
    runOf votingInterval t.state.validAfter
  by_cases hid : commit.rsaIdentity = c.rsaIdentity
  · rw [if_pos hid]
  · rw [if_neg hid]
    rcases List.mem_cons.mp hc with rfl | hc
    · exact absurd rfl hid
    · exact h.commits c (List.mem_filter.mp hc).1

theorem call_invariant {call : Call} (hpos : 0 < votingInterval) (h : RunInvariant votingInterval t)
    (hcall : OnSchedule votingInterval t call ∧ RunNoticed votingInterval t call)
    (hstep : callStep votingInterval t call = some t') : RunInvariant votingInterval t' := by
  cases call with
  | srStateUpdate env validAfter => exact (update_invariant hpos h hcall.1 hcall.2 hstep).1
  | srStateAddCommit commit => exact addCommit_invariant h hstep

/-- In every run that goes over no boundary unnoticed, the state belongs to the protocol run of its valid-after time after
each call, once there was an update. -/
theorem state_belongs_to_run (votingInterval : Int) (hpos : 0 < votingInterval) (t : Tracked) (calls : List Call)
    (hstart : Restarted votingInterval t)
    (hsched : AllSteps (callStep votingInterval) (OnSchedule votingInterval) t calls)
    (hnoticed : AllSteps (callStep votingInterval) (RunNoticed votingInterval) t calls) :
    ∀ pre t', pre <+: calls → (∃ env validAfter, Call.srStateUpdate env validAfter ∈ pre) →
      run (callStep votingInterval) t pre = some t' → BelongsToRun votingInterval t' := by
  rintro pre t' hpre ⟨env, validAfter, hmem⟩ hrun
  have hsteps : AllSteps (callStep votingInterval)
      (fun t call => OnSchedule votingInterval t call ∧ RunNoticed votingInterval t call) t pre :=
    fun front call u hfront hu =>
      ⟨hsched front call u (hfront.trans hpre) hu, hnoticed front call u (hfront.trans hpre) hu⟩
  obtain ⟨front, back, rfl⟩ := List.append_of_mem hmem
  obtain ⟨u, hfront, hrest⟩ := (run_append_some _).mp hrun
  obtain ⟨hbefore, hafter⟩ := (allSteps_append hfront).mp hsteps
  obtain ⟨v, hupdate, hback⟩ := Option.bind_eq_some_iff.mp hrest
  obtain ⟨hcall, hafter⟩ := (allSteps_cons hupdate).mp hafter
  have hu : RunInvariant votingInterval u := run_inv_steps (fun s call s' hs hc hstep => call_invariant hpos hs hc hstep)
    hstart.invariant hbefore hfront
  have hv := update_invariant hpos hu hcall.1 hcall.2 hupdate
  -- from the update on, the valid-after time stays above 0
  have hend : RunInvariant votingInterval t' ∧ 0 < t'.state.validAfter := by
    refine run_inv_steps (I := fun s => RunInvariant votingInterval s ∧ 0 < s.state.validAfter)
      (fun s call s' hs hc hstep => ?_) hv hafter hback
    cases call with
    | srStateUpdate env validAfter => exact update_invariant hpos hs.1 hc.1 hc.2 hstep
    | srStateAddCommit commit =>
      refine ⟨addCommit_invariant hs.1 hstep, ?_⟩
      cases hstep
      exact hs.2
  exact hend.1.belongs hend.2

/-- Over a boundary that the phase does not show, the commits of the run before it stay. -/
theorem unnoticed_run_keeps_commits (htags : ∀ c ∈ t.state.commits,
      runOf votingInterval (t.addedAt c.rsaIdentity) = runOf votingInterval t.state.validAfter)
    (hlt : t.state.validAfter < validAfter)
    (hrun : runOf votingInterval validAfter ≠ runOf votingInterval t.state.validAfter)
    (hno : ¬ (t.state.phase = .REVEAL ∧ getSrProtocolPhase votingInterval validAfter = .COMMIT))
    (hsome : t.state.commits ≠ []) (hstep : callStep votingInterval t (.srStateUpdate env validAfter) = some t') :
    t'.state.commits = t.state.commits ∧ ¬ BelongsToRun votingInterval t' := by
  obtain ⟨u, hu, rfl⟩ := Option.map_eq_some_iff.mp hstep
  obtain ⟨e, henter, -, hcommits, hva, -⟩ := srStateUpdate_later hlt hu
  obtain ⟨-, hcases⟩ := enterPhase_cases henter
  rw [if_neg hno] at hcases
  obtain ⟨hsame, hnone⟩ := hcases.commits.resolve_right fun h => hsome h.1
  refine ⟨hcommits.trans hsame, fun hbelongs => ?_⟩
  obtain ⟨c, rest, hcons⟩ := List.exists_cons_of_ne_nil hsome
  have hc : c ∈ t.state.commits := hcons ▸ List.mem_cons_self
  have hstays : c ∈ u.state.commits := by
    rw [hcommits, hsame]
    exact hc
  have htag := hbelongs.commits c hstays
  change runOf votingInterval (if u.added.any (·.rsaIdentity = c.rsaIdentity) then validAfter
    else t.addedAt c.rsaIdentity) = runOf votingInterval u.state.validAfter at htag
  rw [hnone, Option.any_none, if_neg Bool.false_ne_true, hva, htags c hc] at htag
  exact hrun htag.symm

/-- In the commit phase without a commit, an update makes one of ours. -/
theorem update_adds_our_commit {s : SrMemState} {id : Identity} (hdigest : env.digest = some id)
    (hlt : s.validAfter < validAfter) (hphase : s.phase = .COMMIT)
    (hphase' : getSrProtocolPhase env.votingInterval validAfter = .COMMIT) (hempty : s.commits = [])
    (hnone : s.nRevealRounds = 0) : ∃ c u, srStateUpdate env s validAfter = some u ∧ u.state.validAfter = validAfter ∧
      u.state.phase = .COMMIT ∧ u.state.commits = [c] := by
  obtain ⟨c, hc, -, -⟩ := srGenerateOurCommit_spec env.sha3 (UInt64.ofInt validAfter) id env.random
  have hours : ourCommit env validAfter = some c := by
    rw [ourCommit, hdigest]
    exact hc
  have henter : enterPhase env s validAfter = some (s.addCommit c, some c) := by
    rw [enterPhase, hphase', if_neg (not_not.mpr hphase), if_pos ⟨hphase, hempty⟩, addOurCommit, hours]
  refine ⟨c, { state := { s.addCommit c with validAfter := validAfter, nCommitRounds := s.nCommitRounds + 1 }
               added := some c, bug := false }, ?_, rfl, hphase, ?_⟩
  · rw [srStateUpdate, if_neg (Int.not_le.mpr hlt), henter, Option.bind_eq_bind, Option.bind_some]
    simp only [SrMemState.addCommit, SrState.addCommit, hphase, hnone, if_true, ne_eq, not_true_eq_false, if_false]
  · show c :: s.commits.filter _ = [c]
    rw [hempty]
    rfl

/-! A day without an update. -/

def hourlyEnv : UpdateEnv where
  sha3 := fun _ => zeroBytes 32
  votingInterval := 3600
  curValidAfterTime := 82800
  digest := some (zeroBytes 20)
  random := zeroBytes 32
  sort := id
  trusteddirserver := fun _ => true

/-- Started in the first round of the second run. -/
def startedHourly : Tracked where
  state := stateNew hourlyEnv 86400
  addedAt := fun _ => 0
  bug := false

theorem startedHourly_restarted : Restarted 3600 startedHourly :=
  ⟨Int.le_refl 0, fun _ hc => absurd hc List.not_mem_nil, .inl rfl, rfl, rfl, rfl⟩

theorem startedHourly_update : ∃ c u, srStateUpdate hourlyEnv startedHourly.state 86400 = some u ∧
    u.state.validAfter = 86400 ∧ u.state.phase = .COMMIT ∧ u.state.commits = [c] := by
  have hphase : getSrProtocolPhase 3600 86400 = .COMMIT := by decide
  have hlt : startedHourly.state.validAfter < 86400 := by decide
  exact update_adds_our_commit (show hourlyEnv.digest = some (zeroBytes 20) from rfl) hlt hphase hphase rfl rfl

theorem startedHourly_calls (t : Tracked) : OnSchedule 3600 t (.srStateUpdate hourlyEnv 86400) ∧
    OnSchedule 3600 t (.srStateUpdate hourlyEnv 172800) ∧
    RunNoticed 3600 startedHourly (.srStateUpdate hourlyEnv 86400) := by
  refine ⟨⟨by decide, by decide⟩, ⟨by decide, by decide⟩, fun _ => .inr (.inr ⟨rfl, ?_⟩)⟩
  have hphase : getSrProtocolPhase 3600 86400 = .COMMIT := by decide
  rw [hphase]
  decide

theorem startedHourly_first_belongs : ∃ t', run (callStep 3600) startedHourly [.srStateUpdate hourlyEnv 86400] = some t' ∧
    BelongsToRun 3600 t' := by
  obtain ⟨c, u, hu, -⟩ := startedHourly_update
  have hfirst : callStep 3600 startedHourly (.srStateUpdate hourlyEnv 86400) = some (startedHourly.after 86400 u) :=
    Option.map_eq_some_iff.mpr ⟨u, hu, rfl⟩
  have hrun : run (callStep 3600) startedHourly [.srStateUpdate hourlyEnv 86400] = some (startedHourly.after 86400 u) := by
    rw [run_cons, hfirst]
    rfl
  exact ⟨_, hrun, state_belongs_to_run 3600 (by decide) startedHourly [.srStateUpdate hourlyEnv 86400]
    startedHourly_restarted ((allSteps_cons hfirst).mpr ⟨(startedHourly_calls _).1, allSteps_nil⟩)
    ((allSteps_cons hfirst).mpr ⟨(startedHourly_calls startedHourly).2.2, allSteps_nil⟩) _ _ (List.prefix_refl _)
    ⟨hourlyEnv, 86400, List.mem_singleton_self _⟩ hrun⟩

/-- The next update comes a day later, in the commit phase again: our commit is the one of the day before. -/
theorem a_day_missed_keeps_the_commits : ∃ t', Restarted 3600 startedHourly ∧
    AllSteps (callStep 3600) (OnSchedule 3600) startedHourly
      [.srStateUpdate hourlyEnv 86400, .srStateUpdate hourlyEnv 172800] ∧
    run (callStep 3600) startedHourly [.srStateUpdate hourlyEnv 86400, .srStateUpdate hourlyEnv 172800] = some t' ∧
    ¬ BelongsToRun 3600 t' := by
  obtain ⟨c, u, hu, hva, hcommit, hcommits⟩ := startedHourly_update
  have hfirst : callStep 3600 startedHourly (.srStateUpdate hourlyEnv 86400) = some (startedHourly.after 86400 u) :=
    Option.map_eq_some_iff.mpr ⟨u, hu, rfl⟩
  have hinv := call_invariant (by decide) startedHourly_restarted.invariant
    ⟨(startedHourly_calls _).1, (startedHourly_calls startedHourly).2.2⟩ hfirst
  have hno : ¬ (u.state.phase = .REVEAL ∧ getSrProtocolPhase 3600 172800 = .COMMIT) := by
    rw [hcommit]
    simp
  obtain ⟨u', hu'⟩ : ∃ u', srStateUpdate hourlyEnv u.state 172800 = some u' := srStateUpdate_some hno
  have hsecond : callStep 3600 (startedHourly.after 86400 u) (.srStateUpdate hourlyEnv 172800) =
      some ((startedHourly.after 86400 u).after 172800 u') := Option.map_eq_some_iff.mpr ⟨u', hu', rfl⟩
  refine ⟨_, startedHourly_restarted, ?_, ?_, (unnoticed_run_keeps_commits hinv.commits ?_ ?_ hno ?_ hsecond).2⟩
  · exact (allSteps_cons hfirst).mpr ⟨(startedHourly_calls _).1,
      (allSteps_cons hsecond).mpr ⟨(startedHourly_calls _).2.1, allSteps_nil⟩⟩
  · rw [run_cons, hfirst, Option.bind_some, run_cons, hsecond]
    rfl
  · show u.state.validAfter < 172800
    rw [hva]
    decide
  · show runOf 3600 172800 ≠ runOf 3600 u.state.validAfter
    rw [hva]
    decide
  · show u.state.commits ≠ []
    rw [hcommits]
    exact List.cons_ne_nil c []

end Badnet.SharedRandom

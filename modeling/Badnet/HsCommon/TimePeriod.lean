/-
  Badnet.HsCommon.TimePeriod — the time periods of onion services (`feature/hs/hs_common.c`), which take the time and
  the voting interval from the consensus in use (`networkstatus.c`, `shared_random_client.c`).

  The parser fills in no times of a consensus and every consensus counts as live, so the voting interval of a parsed one
  is zero and `getVotingInterval` fails its assertion (`parsed_interval`). Only where another flavor than microdesc is
  in use do the functions fall back on the clock (`next_start`, `time_periods_iff`).
-/

import Badnet.Nodelist.NetParams
import Badnet.Nodelist.Networkstatus

namespace Badnet.HsCommon

open Encoding Dirparse Nodelist

/-! ## The consensus in use -/

/-- The options that are asked for. `useMicrodescriptors` is whether UseMicrodescriptors is not 0;
    `directoryCachesDirInfo` is what `directory_caches_dir_info` says. -/
structure Options where
  useMicrodescriptors : Bool
  authoritativeDir : Bool
  v3AuthoritativeDir : Bool
  directoryCachesDirInfo : Bool
  fetchUselessDescriptors : Bool
  testingTorNetwork : Bool
  v3AuthVotingInterval : Int

variable (o : Options)

def Options.usableConsensusFlavor : Flavor := if o.useMicrodescriptors then .MICRODESC else .NS

def Options.authdirMode : Bool := o.authoritativeDir

def Options.authdirModeV3 : Bool := o.authdirMode && o.v3AuthoritativeDir

def Options.weWantToFetchFlavor (flavor : Flavor) : Bool :=
  if o.authdirModeV3 || o.directoryCachesDirInfo then true
  else if o.fetchUselessDescriptors then true
  else flavor == o.usableConsensusFlavor

/-- A `networkstatus_t` in memory: what the parser reads, and the times. -/
structure Held where
  doc : NetworkStatus
  validAfter : Int
  freshUntil : Int

variable (rsa : Rsa)

/-- `networkstatus_parse_vote_from_string`, with the times as `tor_malloc_zero` leaves them. -/
def parseHeld (s : Text) : Except String Held :=
  (networkstatusParseVoteFromString rsa s .CONSENSUS).map fun doc => { doc, validAfter := 0, freshUntil := 0 }

/-- `current_ns_consensus` and `current_md_consensus`. -/
structure Current where
  ns : Option Held
  md : Option Held

/-- `networkstatus_set_current_consensus`, with what it returns. -/
def networkstatusSetCurrentConsensus (o : Options) (cur : Current) (s : Text) (flav : Flavor) (requireFlavor : Bool) :
    Current × Int :=
  match parseHeld rsa s with
  | .error _ => (cur, -2)
  | .ok c =>
    if c.doc.flavor ≠ flav ∧ requireFlavor then (cur, -1)
    else if c.doc.flavor ≠ o.usableConsensusFlavor ∧ ¬o.weWantToFetchFlavor c.doc.flavor then (cur, -1)
    else
      match c.doc.flavor with
      | .NS => ({ cur with ns := some c }, 0)
      | .MICRODESC => ({ cur with md := some c }, 0)

variable (cur : Current)

def networkstatusGetLatestConsensusByFlavor : Flavor → Option Held
  | .NS => cur.ns
  | .MICRODESC => cur.md

def networkstatusGetLatestConsensus : Option Held :=
  if o.useMicrodescriptors then cur.md else cur.ns

def networkstatusConsensusReasonablyLive (_ : Held) (_ : Int) : Bool := true

def networkstatusGetReasonablyLiveConsensus (now : Int) (flavor : Flavor) : Option Held :=
  (networkstatusGetLatestConsensusByFlavor cur flavor).filter fun c => networkstatusConsensusReasonablyLive c now

/-! ## The voting interval and the time periods -/

def SHARED_RANDOM_N_ROUNDS : Int := 12
def SHARED_RANDOM_N_PHASES : Int := 2
def DEFAULT_NETWORK_VOTING_INTERVAL : Int := 3600
def TESTING_DEFAULT_NETWORK_VOTING_INTERVAL : Int := 20
def HS_TIME_PERIOD_LENGTH_DEFAULT : Int := 1440
def HS_TIME_PERIOD_LENGTH_MIN : Int := 30
def HS_TIME_PERIOD_LENGTH_MAX : Int := 14400

/-- What a process reads its time from. `hsdirInterval` is that consensus parameter; a parsed consensus has no list
of parameters, so there it is the default. -/
structure View where
  options : Options
  current : Current
  approxTime : Int
  hsdirInterval : Int

namespace View

variable (v : View)

def liveConsensus : Option Held :=
  networkstatusGetReasonablyLiveConsensus v.current v.approxTime v.options.usableConsensusFlavor

/-- The interval without a consensus to take it from. -/
def ownInterval : Int :=
  if v.options.authdirMode then v.options.v3AuthVotingInterval
  else if v.options.testingTorNetwork then TESTING_DEFAULT_NETWORK_VOTING_INTERVAL
  else DEFAULT_NETWORK_VOTING_INTERVAL

/-- `none` is a failed assertion, here and below. -/
def getVotingInterval : Option Int :=
  let interval :=
    match v.liveConsensus with
    | some c => c.freshUntil - c.validAfter
    | none =>
      if v.options.authdirMode then v.options.v3AuthVotingInterval
      else
        match networkstatusGetLatestConsensus v.options v.current with
        | some c => c.freshUntil - c.validAfter
        | none =>
          if v.options.testingTorNetwork then TESTING_DEFAULT_NETWORK_VOTING_INTERVAL
          else DEFAULT_NETWORK_VOTING_INTERVAL
  if interval > 0 then some interval else none

/-- The product of two `int`s, where it is one. -/
def intMul (a b : Int) : Option Int := if a * b ≤ MAX_INT32 then some (a * b) else none

def srStateGetPhaseDuration : Option Int := do
  let interval ← v.getVotingInterval
  intMul SHARED_RANDOM_N_ROUNDS interval

def srStateGetProtocolRunDuration : Option Int := do
  let interval ← v.getVotingInterval
  intMul (SHARED_RANDOM_N_ROUNDS * SHARED_RANDOM_N_PHASES) interval

/-- In minutes. A run of a minute or less is only reported. -/
def getTimePeriodLength : Option Int :=
  if v.options.testingTorNetwork then do
    let runDuration ← v.srStateGetProtocolRunDuration
    some (runDuration / 60)
  else if v.hsdirInterval > 0 then some v.hsdirInterval
  else none

/-- The time that `now = 0` stands for. -/
def consensusTime : Int :=
  match v.liveConsensus with
  | some c => c.validAfter
  | none => v.approxTime

/-- Times are not negative; a division by zero is `none` as well. -/
def hsGetTimePeriodNum (now : Int) : Option Int := do
  let currentTime := if now ≠ 0 then now else v.consensusTime
  let timePeriodLength ← v.getTimePeriodLength
  let minutesSinceEpoch := currentTime / 60
  let phaseDuration ← v.srStateGetPhaseDuration
  let timePeriodRotationOffset := phaseDuration / 60
  if minutesSinceEpoch > timePeriodRotationOffset ∧ timePeriodLength ≠ 0 then
    some ((minutesSinceEpoch - timePeriodRotationOffset) / timePeriodLength)
  else none

def hsGetNextTimePeriodNum (now : Int) : Option Int := do
  let timePeriodNum ← v.hsGetTimePeriodNum now
  some (timePeriodNum + 1)

def hsGetStartTimeOfNextTimePeriod (now : Int) : Option Int := do
  let timePeriodLength ← v.getTimePeriodLength
  let nextTimePeriodNum ← v.hsGetNextTimePeriodNum now
  let startOfNextTpInMins := nextTimePeriodNum * timePeriodLength
  let timePeriodRotationOffset ← v.srStateGetPhaseDuration
  some (startOfNextTpInMins * 60 + timePeriodRotationOffset)

end View

/-! ## What is installed -/

/-- A call of `networkstatus_set_current_consensus`, with the options at the time. -/
structure Install where
  options : Options
  s : Text
  flav : Flavor
  requireFlavor : Bool

def Install.apply (call : Install) : Current × Int :=
  networkstatusSetCurrentConsensus rsa call.options cur call.s call.flav call.requireFlavor

/-- The consensuses after calls since the start of the process. -/
def installAll (calls : List Install) : Current :=
  calls.foldl (fun cur call => (call.apply rsa cur).1) { ns := none, md := none }

/-- Nothing of the other flavor, and no times. -/
structure Parsed (cur : Current) : Prop where
  ns : cur.ns = none
  md : ∀ c, cur.md = some c → c.validAfter = 0 ∧ c.freshUntil = 0

theorem parseHeld_ok {rsa : Rsa} {s : Text} {c : Held} (h : parseHeld rsa s = .ok c) :
    c.doc.flavor = .MICRODESC ∧ c.validAfter = 0 ∧ c.freshUntil = 0 := by
  unfold parseHeld at h
  rw [networkstatusParse_eq] at h
  cases hloop : routerstatusLoop rsa 29 .MICRODESC s with
  | error e =>
    rw [hloop] at h
    cases h
  | ok list =>
    rw [hloop] at h
    obtain rfl := Except.ok.inj h
    exact ⟨rfl, rfl, rfl⟩

/-- A call leaves the consensuses alone, or sets the one of the microdesc flavor. -/
theorem install_cases (call : Install) :
    (∃ c, parseHeld rsa call.s = .ok c ∧ call.apply rsa cur = ({ cur with md := some c }, 0)) ∨
      ((call.apply rsa cur).1 = cur ∧ (call.apply rsa cur).2 ≠ 0) := by
  unfold Install.apply networkstatusSetCurrentConsensus
  cases hparse : parseHeld rsa call.s with
  | error e => exact .inr ⟨rfl, show (-2 : Int) ≠ 0 by decide⟩
  | ok c =>
    dsimp only
    by_cases hwrong : c.doc.flavor ≠ call.flav ∧ call.requireFlavor
    · rw [if_pos hwrong]
      exact .inr ⟨rfl, show (-1 : Int) ≠ 0 by decide⟩
    · rw [if_neg hwrong]
      by_cases hboring : c.doc.flavor ≠ call.options.usableConsensusFlavor ∧
          ¬call.options.weWantToFetchFlavor c.doc.flavor
      · rw [if_pos hboring]
        exact .inr ⟨rfl, show (-1 : Int) ≠ 0 by decide⟩
      · rw [if_neg hboring, (parseHeld_ok hparse).1]
        exact .inl ⟨c, rfl, rfl⟩

theorem Parsed.apply {rsa : Rsa} {cur : Current} (h : Parsed cur) (call : Install) : Parsed (call.apply rsa cur).1 := by
  rcases install_cases rsa cur call with ⟨c, hc, heq⟩ | ⟨heq, -⟩
  · rw [heq]
    refine ⟨h.ns, fun c' hc' => ?_⟩
    obtain rfl := Option.some.inj hc'
    exact (parseHeld_ok hc).2
  · rw [heq]
    exact h

theorem parsed_installAll (calls : List Install) : Parsed (installAll rsa calls) := by
  unfold installAll
  have hempty : Parsed { ns := none, md := none } := ⟨rfl, fun c hc => by cases hc⟩
  generalize { ns := none, md := none : Current } = cur at hempty ⊢
  induction calls generalizing cur with
  | nil => exact hempty
  | cons call calls ih => exact ih _ (hempty.apply call)

theorem installed {rsa : Rsa} {before : List Install} {call : Install} {cur : Current}
    (h : call.apply rsa (installAll rsa before) = (cur, 0)) : Parsed cur ∧ cur.md ≠ none := by
  have hparsed := @Parsed.apply rsa _ (parsed_installAll rsa before) call
  rcases install_cases rsa (installAll rsa before) call with ⟨c, -, heq⟩ | ⟨-, hne⟩
  · rw [h] at hparsed heq
    refine ⟨hparsed, ?_⟩
    rw [(Prod.mk.inj heq).1]
    exact Option.some_ne_none c
  · rw [h] at hne
    exact absurd rfl hne

namespace View

variable {v : View}

/-! ## Without times -/

theorem liveConsensus_eq : v.liveConsensus = if v.options.useMicrodescriptors then v.current.md else v.current.ns := by
  unfold liveConsensus networkstatusGetReasonablyLiveConsensus Options.usableConsensusFlavor
  have hall : ∀ o : Option Held, o.filter (fun c => networkstatusConsensusReasonablyLive c v.approxTime) = o := by
    intro o
    cases o <;> rfl
  rw [hall]
  split <;> rfl

/-- The assertion on the interval fails on a parsed consensus that is in use. -/
theorem parsed_interval (hparsed : Parsed v.current) (hmd : v.current.md ≠ none)
    (huse : v.options.useMicrodescriptors = true) : v.getVotingInterval = none := by
  obtain ⟨c, hc⟩ := Option.ne_none_iff_exists'.mp hmd
  obtain ⟨hafter, huntil⟩ := hparsed.md c hc
  unfold getVotingInterval
  rw [liveConsensus_eq, if_pos huse, hc]
  dsimp only
  rw [hafter, huntil]
  rfl

theorem phaseDuration_none (h : v.getVotingInterval = none) : v.srStateGetPhaseDuration = none := by
  rw [srStateGetPhaseDuration, h]
  rfl

theorem timePeriodNum_none (h : v.getVotingInterval = none) (now : Int) : v.hsGetTimePeriodNum now = none := by
  unfold hsGetTimePeriodNum
  rw [phaseDuration_none h]
  cases v.getTimePeriodLength <;> rfl

/-! ## On the clock -/

theorem liveConsensus_none (hparsed : Parsed v.current) (huse : v.options.useMicrodescriptors = false) :
    v.liveConsensus = none := by
  rw [liveConsensus_eq, huse, hparsed.ns]
  rfl

theorem own_interval (hparsed : Parsed v.current) (huse : v.options.useMicrodescriptors = false) :
    v.getVotingInterval = if v.ownInterval > 0 then some v.ownInterval else none := by
  have hlatest : networkstatusGetLatestConsensus v.options v.current = none := by
    rw [networkstatusGetLatestConsensus, huse, hparsed.ns]
    rfl
  unfold getVotingInterval ownInterval
  rw [liveConsensus_none hparsed huse, hlatest]

/-- The minutes of a period where the interval is the process's own. -/
def periodMinutes (v : View) : Int :=
  if v.options.testingTorNetwork then 24 * v.ownInterval / 60 else v.hsdirInterval

/-- Both functions meet their assertions, and the start of the next period lies after the time that stands for now,
at most one length later. -/
def PeriodsHold (v : View) : Prop :=
  (∃ num, v.hsGetTimePeriodNum 0 = some num) ∧
    ∃ len start, v.getTimePeriodLength = some len ∧ v.hsGetStartTimeOfNextTimePeriod 0 = some start ∧
      v.consensusTime < start ∧ start ≤ v.consensusTime + len * 60

/-- The process's own interval gives `int`s and periods of a minute at least, the clock is past the rotation offset;
    and the seconds of the offset, if it is no whole number of minutes, are over in a minute that starts a period. -/
structure IntervalFits (v : View) : Prop where
  interval : 0 < v.ownInterval ∧ 12 * v.ownInterval ≤ MAX_INT32
  testing : v.options.testingTorNetwork → 24 * v.ownInterval ≤ MAX_INT32 ∧ 60 ≤ 24 * v.ownInterval
  offset : 12 * v.ownInterval / 60 < v.approxTime / 60
  seconds : 12 * v.ownInterval % 60 ≤ v.approxTime % 60 ∨
    ¬v.periodMinutes ∣ v.approxTime / 60 - 12 * v.ownInterval / 60

theorem timePeriodLength_own (hparsed : Parsed v.current) (huse : v.options.useMicrodescriptors = false)
    (hpos : 0 < v.ownInterval) (hhsdir : 0 < v.hsdirInterval) : v.getTimePeriodLength =
      if v.options.testingTorNetwork ∧ MAX_INT32 < 24 * v.ownInterval then none else some v.periodMinutes := by
  unfold getTimePeriodLength srStateGetProtocolRunDuration periodMinutes
  rw [own_interval hparsed huse, if_pos hpos]
  by_cases htest : v.options.testingTorNetwork
  · rw [if_pos htest, if_pos htest]
    dsimp only [bind, Option.bind]
    unfold intMul SHARED_RANDOM_N_ROUNDS SHARED_RANDOM_N_PHASES
    by_cases hfit : 24 * v.ownInterval ≤ MAX_INT32
    · rw [if_pos (by omega), if_neg (by omega)]
      congr 1
    · rw [if_neg (by omega), if_pos ⟨htest, by omega⟩]
  · rw [if_neg htest, if_neg htest, if_pos hhsdir, if_neg fun h => htest h.1]

theorem phaseDuration_own (hparsed : Parsed v.current) (huse : v.options.useMicrodescriptors = false)
    (hpos : 0 < v.ownInterval) : v.srStateGetPhaseDuration =
      if 12 * v.ownInterval ≤ MAX_INT32 then some (12 * v.ownInterval) else none := by
  rw [srStateGetPhaseDuration, own_interval hparsed huse, if_pos hpos]
  rfl

/-- The start of the next period for a clock `t`, an offset of `q` seconds and periods of `len` minutes. -/
theorem next_start {t q len : Int} (hlen : 0 < len) :
    t < (((t / 60 - q / 60) / len + 1) * len) * 60 + q ∧
      ((((t / 60 - q / 60) / len + 1) * len) * 60 + q ≤ t + len * 60 ↔
        q % 60 ≤ t % 60 ∨ ¬len ∣ t / 60 - q / 60) := by
  have hsplit := Int.emod_add_mul_ediv (t / 60 - q / 60) len
  have hmod0 := Int.emod_nonneg (t / 60 - q / 60) (show len ≠ 0 by omega)
  have hmod := Int.emod_lt_of_pos (t / 60 - q / 60) hlen
  have hdvd := @Int.dvd_iff_emod_eq_zero len (t / 60 - q / 60)
  rw [Int.add_mul, Int.one_mul, Int.mul_comm _ len, hdvd]
  generalize len * ((t / 60 - q / 60) / len) = whole at hsplit ⊢
  generalize (t / 60 - q / 60) % len = part at hsplit hmod0 hmod ⊢
  constructor
  · omega
  · constructor <;> intro h <;> omega

/-- What the two functions ask for where the interval is the process's own. -/
structure Ready (v : View) : Prop where
  phase : 12 * v.ownInterval ≤ MAX_INT32
  run : ¬(v.options.testingTorNetwork ∧ MAX_INT32 < 24 * v.ownInterval)
  offset : 12 * v.ownInterval / 60 < v.approxTime / 60
  minutes : v.periodMinutes ≠ 0

def ownPeriodNum (v : View) : Int := (v.approxTime / 60 - 12 * v.ownInterval / 60) / v.periodMinutes

section

variable (hparsed : Parsed v.current) (huse : v.options.useMicrodescriptors = false)
include hparsed huse

theorem consensusTime_own : v.consensusTime = v.approxTime := by
  rw [consensusTime, liveConsensus_none hparsed huse]

theorem timePeriodNum_ready (hpos : 0 < v.ownInterval) (hhsdir : 0 < v.hsdirInterval) (h : v.Ready) :
    v.hsGetTimePeriodNum 0 = some v.ownPeriodNum := by
  unfold hsGetTimePeriodNum
  rw [timePeriodLength_own hparsed huse hpos hhsdir, if_neg h.run, phaseDuration_own hparsed huse hpos, if_pos h.phase,
    consensusTime_own hparsed huse]
  exact if_pos ⟨h.offset, h.minutes⟩

theorem ready_of_timePeriodNum (hpos : 0 < v.ownInterval) (hhsdir : 0 < v.hsdirInterval) {num : Int}
    (h : v.hsGetTimePeriodNum 0 = some num) : v.Ready := by
  unfold hsGetTimePeriodNum at h
  rw [timePeriodLength_own hparsed huse hpos hhsdir, phaseDuration_own hparsed huse hpos,
    consensusTime_own hparsed huse] at h
  obtain ⟨len, hlen, h⟩ := Option.bind_eq_some_iff.mp h
  obtain ⟨phase, hphase, h⟩ := Option.bind_eq_some_iff.mp h
  obtain ⟨hrun, hlen⟩ := Option.ite_none_left_eq_some.mp hlen
  obtain ⟨hfit, hphase⟩ := Option.ite_none_right_eq_some.mp hphase
  obtain rfl := Option.some.inj hlen
  obtain rfl := Option.some.inj hphase
  obtain ⟨⟨hoff, hmin⟩, -⟩ := Option.ite_none_right_eq_some.mp h
  exact ⟨hfit, hrun, hoff, hmin⟩

theorem startTime_ready (hpos : 0 < v.ownInterval) (hhsdir : 0 < v.hsdirInterval) (h : v.Ready) :
    v.hsGetStartTimeOfNextTimePeriod 0 =
      some ((v.ownPeriodNum + 1) * v.periodMinutes * 60 + 12 * v.ownInterval) := by
  unfold hsGetStartTimeOfNextTimePeriod hsGetNextTimePeriodNum
  rw [timePeriodNum_ready hparsed huse hpos hhsdir h, timePeriodLength_own hparsed huse hpos hhsdir, if_neg h.run,
    phaseDuration_own hparsed huse hpos, if_pos h.phase]
  rfl

theorem intervalFits_iff (hhsdir : 0 < v.hsdirInterval) : v.PeriodsHold ↔ v.IntervalFits := by
  by_cases hpos : 0 < v.ownInterval
  swap
  · refine iff_of_false (fun h => ?_) fun h => hpos h.interval.1
    obtain ⟨⟨num, hnum⟩, -⟩ := h
    rw [timePeriodNum_none (by rw [own_interval hparsed huse, if_neg hpos])] at hnum
    cases hnum
  have hminutes : v.options.testingTorNetwork ∨ v.periodMinutes = v.hsdirInterval := by
    rw [periodMinutes]
    by_cases htest : v.options.testingTorNetwork
    · exact .inl htest
    · exact .inr (if_neg htest)
  have htesting : v.options.testingTorNetwork → v.periodMinutes = 24 * v.ownInterval / 60 := fun htest => if_pos htest
  constructor
  · rintro ⟨⟨num, hnum⟩, len, start, hlen, hstart, -, hle⟩
    have hready := ready_of_timePeriodNum hparsed huse hpos hhsdir hnum
    rw [startTime_ready hparsed huse hpos hhsdir hready] at hstart
    rw [timePeriodLength_own hparsed huse hpos hhsdir, if_neg hready.run] at hlen
    rw [consensusTime_own hparsed huse] at hle
    obtain rfl := Option.some.inj hstart
    obtain rfl := Option.some.inj hlen
    obtain ⟨hphase, hrun, hoff, hmin⟩ := hready
    have hfit : v.options.testingTorNetwork → 24 * v.ownInterval ≤ MAX_INT32 := fun htest =>
      Int.not_lt.mp fun hlt => hrun ⟨htest, hlt⟩
    have hmin0 : 0 < v.periodMinutes := by
      rcases hminutes with htest | heq
      · have := htesting htest
        omega
      · omega
    refine ⟨⟨hpos, hphase⟩, fun htest => ⟨hfit htest, ?_⟩, hoff, (next_start hmin0).2.mp hle⟩
    have := htesting htest
    omega
  · rintro ⟨⟨-, hphase⟩, htest, hoff, hsec⟩
    have hmin0 : 0 < v.periodMinutes := by
      rcases hminutes with ht | heq
      · have := htesting ht
        have := (htest ht).2
        omega
      · omega
    have hready : v.Ready :=
      ⟨hphase, fun h => absurd (htest h.1).1 (Int.not_le.mpr h.2), hoff, by omega⟩
    refine ⟨⟨_, timePeriodNum_ready hparsed huse hpos hhsdir hready⟩, v.periodMinutes, _, ?_,
      startTime_ready hparsed huse hpos hhsdir hready, ?_⟩
    · rw [timePeriodLength_own hparsed huse hpos hhsdir, if_neg hready.run]
    · rw [consensusTime_own hparsed huse]
      exact ⟨(next_start hmin0).1, (next_start hmin0).2.mpr hsec⟩

end

end View

/-! ## Every accepted document -/

/-- 1970-01-03. -/
def THIRD_DAY : Int := 2 * 24 * 60 * 60

/-- The intervals that are no option fit from the third day on. -/
theorem View.intervalFits_default {v : View} (hauth : ¬v.options.authdirMode) (htime : THIRD_DAY < v.approxTime) :
    v.IntervalFits := by
  have hown : v.ownInterval = 20 ∨ v.ownInterval = 3600 := by
    unfold View.ownInterval
    rw [if_neg hauth]
    split
    · exact .inl rfl
    · exact .inr rfl
  unfold THIRD_DAY at htime
  rcases hown with hown | hown
  all_goals refine ⟨?_, fun _ => ?_, ?_, .inl ?_⟩ <;> rw [hown] <;> unfold MAX_INT32 at * <;> omega

/-- After any calls of which the last one installed its document, under any options and at any time since the third day
    of the epoch. -/
theorem time_periods_iff (rsa : Rsa) (before : List Install) (call : Install) (v : View)
    (hcur : call.apply rsa (installAll rsa before) = (v.current, 0)) (htime : THIRD_DAY < v.approxTime)
    (hhsdir : HS_TIME_PERIOD_LENGTH_MIN ≤ v.hsdirInterval ∧ v.hsdirInterval ≤ HS_TIME_PERIOD_LENGTH_MAX) :
    v.PeriodsHold ↔ v.options.useMicrodescriptors = false ∧ (v.options.authdirMode → v.IntervalFits) := by
  obtain ⟨hparsed, hmd⟩ := installed hcur
  cases huse : v.options.useMicrodescriptors with
  | false =>
    have hpos : 0 < v.hsdirInterval := by
      unfold HS_TIME_PERIOD_LENGTH_MIN at hhsdir
      omega
    rw [View.intervalFits_iff hparsed huse hpos]
    constructor
    · intro h
      exact ⟨rfl, fun _ => h⟩
    · intro h
      by_cases hauth : v.options.authdirMode
      · exact h.2 hauth
      · exact View.intervalFits_default hauth htime
  | true =>
    refine iff_of_false (fun h => ?_) fun h => absurd h.1 (by decide)
    obtain ⟨⟨num, hnum⟩, -⟩ := h
    rw [View.timePeriodNum_none (View.parsed_interval hparsed hmd huse)] at hnum
    cases hnum

/-- A client with default options, and a directory cache that builds circuits with the other flavor. -/
def clientOptions : Options := ⟨true, false, false, false, false, false, 3600⟩
def cacheOptions : Options := ⟨false, false, false, true, false, false, 3600⟩

theorem uploaded_installs (hwant : o.weWantToFetchFlavor .MICRODESC = true) (bs : List UInt8) :
    ∃ cur, Install.apply rsa1024 (installAll rsa1024 []) ⟨o, uploaded bs, .MICRODESC, false⟩ = (cur, 0) := by
  obtain ⟨ns, hns, -⟩ := uploaded_accepted bs
  have hheld : parseHeld rsa1024 (uploaded bs) = .ok ⟨ns, 0, 0⟩ := by
    rw [parseHeld, hns]
    rfl
  have hmd := (parseHeld_ok hheld).1
  refine ⟨{ ns := none, md := some ⟨ns, 0, 0⟩ }, ?_⟩
  unfold Install.apply networkstatusSetCurrentConsensus
  dsimp only at hmd ⊢
  rw [hheld]
  dsimp only
  rw [hmd, if_neg (by simp), if_neg (by simp [hwant])]
  rfl

theorem a_cache_keeps_time : ∃ cur, View.PeriodsHold ⟨cacheOptions, cur, 1700000000, 1440⟩ := by
  obtain ⟨cur, hcur⟩ := uploaded_installs cacheOptions rfl [1]
  refine ⟨cur, (time_periods_iff rsa1024 [] _ ⟨cacheOptions, cur, 1700000000, 1440⟩ hcur
    (show THIRD_DAY < 1700000000 by decide)
    (show HS_TIME_PERIOD_LENGTH_MIN ≤ 1440 ∧ 1440 ≤ HS_TIME_PERIOD_LENGTH_MAX by decide)).mpr ⟨rfl, ?_⟩⟩
  exact fun h => absurd h (show ¬cacheOptions.authdirMode by decide)

/-- With the first document a client installs, both functions fail an assertion. -/
theorem a_client_has_no_time_period :
    ∃ cur, Install.apply rsa1024 (installAll rsa1024 []) ⟨clientOptions, uploaded [1], .MICRODESC, false⟩ = (cur, 0) ∧
      View.hsGetTimePeriodNum ⟨clientOptions, cur, 1700000000, 1440⟩ 0 = none ∧
      View.hsGetStartTimeOfNextTimePeriod ⟨clientOptions, cur, 1700000000, 1440⟩ 0 = none ∧
      ¬View.PeriodsHold ⟨clientOptions, cur, 1700000000, 1440⟩ := by
  obtain ⟨cur, hcur⟩ := uploaded_installs clientOptions rfl [1]
  obtain ⟨hparsed, hmd⟩ := installed hcur
  have hnum := View.timePeriodNum_none
    (@View.parsed_interval ⟨clientOptions, cur, 1700000000, 1440⟩ hparsed hmd rfl) 0
  refine ⟨cur, hcur, hnum, ?_, fun h => ?_⟩
  · unfold View.hsGetStartTimeOfNextTimePeriod View.hsGetNextTimePeriodNum
    rw [hnum]
    rfl
  · obtain ⟨⟨num, h⟩, -⟩ := h
    rw [hnum] at h
    cases h

end Badnet.HsCommon

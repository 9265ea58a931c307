/-
  Badnet.Channel.Channelpadding — when an idle channel is padded (`channelpadding.c`).

  The inactive timeout of a channel comes from two numbers of the consensus, which have a maximum, and two that the peer
  sent in a PADDING_NEGOTIATE cell, which have none. The test for a clock jump then fires on an honest clock
  (`a_peer_asks_for_a_jump`), but not in the runs where no step puts higher numbers of the peer to use
  (`jump_free_iff`). A consensus with a low number above the default of the high one fails an assertion
  (`new_consensus_params_fail_iff`).
-/

import Badnet.Lib.Run
import Badnet.Nodelist.NetParams
import Mathlib.Algebra.Order.Ring.Int

namespace Badnet.Channel

open Lib Encoding Nodelist

/-! ## The monotonic clock -/

/-- `monotime_t` where it is a `struct timespec`. -/
structure Monotime where
  sec : Int
  nsec : Int
deriving DecidableEq

namespace Monotime

def ONE_MILLION : Int := 1000000
def ONE_BILLION : Int := 1000000000

def zero : Monotime := ⟨0, 0⟩

def isZero (val : Monotime) : Bool := val.sec == 0 && val.nsec == 0

def addMsec (val : Monotime) (msec : Nat) : Monotime :=
  let sec := val.sec + (msec / 1000 : Nat)
  let nsec := val.nsec + (msec % 1000 : Nat) * ONE_MILLION
  if nsec > ONE_BILLION then ⟨sec + 1, nsec - ONE_BILLION⟩ else ⟨sec, nsec⟩

def diffNsec (start stop : Monotime) : Int := (stop.sec - start.sec) * ONE_BILLION + (stop.nsec - start.nsec)

/-- `CEIL_DIV` of the nanoseconds. -/
def diffMsec (start stop : Monotime) : Int := (diffNsec start stop + (ONE_MILLION - 1)).tdiv ONE_MILLION

theorem diffNsec_addMsec (start val : Monotime) (msec : Nat) :
    diffNsec start (val.addMsec msec) = diffNsec start val + msec * ONE_MILLION := by
  unfold addMsec diffNsec ONE_BILLION ONE_MILLION
  dsimp only
  split <;> dsimp only <;> omega

theorem diffNsec_trans (a b c : Monotime) : diffNsec a c = diffNsec a b + diffNsec b c := by
  unfold diffNsec ONE_BILLION
  omega

theorem diffMsec_le {start stop : Monotime} {msec : Nat} (h : diffNsec start stop ≤ msec * ONE_MILLION) :
    diffMsec start stop ≤ msec := by
  unfold diffMsec
  refine Int.le_trans (Int.tdiv_le_tdiv (by decide) (Int.add_le_add_right h _)) ?_
  unfold ONE_MILLION
  rw [Int.tdiv_eq_ediv_of_nonneg (by omega)]
  omega

end Monotime

/-! ## The parameters of the consensus -/

def DFLT_NETFLOW_INACTIVE_KEEPALIVE_LOW : Int := 1500
def DFLT_NETFLOW_INACTIVE_KEEPALIVE_HIGH : Int := 9500
def DFLT_NETFLOW_INACTIVE_KEEPALIVE_MIN : Int := 0
def DFLT_NETFLOW_INACTIVE_KEEPALIVE_MAX : Int := 60000
def DFLT_NETFLOW_REDUCED_KEEPALIVE_LOW : Int := 9000
def DFLT_NETFLOW_REDUCED_KEEPALIVE_HIGH : Int := 14000
def DFLT_NETFLOW_REDUCED_KEEPALIVE_MIN : Int := 0
def DFLT_NETFLOW_REDUCED_KEEPALIVE_MAX : Int := 60000

/-- The four timeouts kept from the consensus, `consensus_nf_ito_*`. -/
structure Ito where
  low : Int
  high : Int
  lowReduced : Int
  highReduced : Int

/-- The ranges the parameters are asked for with. -/
structure Ito.InRange (c : Ito) : Prop where
  low_nonneg : 0 ≤ c.low
  low_le_high : c.low ≤ c.high
  high_le : c.high ≤ DFLT_NETFLOW_INACTIVE_KEEPALIVE_MAX
  lowReduced_nonneg : 0 ≤ c.lowReduced
  lowReduced_le_highReduced : c.lowReduced ≤ c.highReduced
  highReduced_le : c.highReduced ≤ DFLT_NETFLOW_REDUCED_KEEPALIVE_MAX

/-- `channelpadding_new_consensus_params`, as far as the timeouts go. -/
def newConsensusParams (ns : Option (List Text)) : Option Ito := do
  let low ← networkstatusGetParam ns "nf_ito_low".toList DFLT_NETFLOW_INACTIVE_KEEPALIVE_LOW
    DFLT_NETFLOW_INACTIVE_KEEPALIVE_MIN DFLT_NETFLOW_INACTIVE_KEEPALIVE_MAX
  let high ← networkstatusGetParam ns "nf_ito_high".toList DFLT_NETFLOW_INACTIVE_KEEPALIVE_HIGH
    low DFLT_NETFLOW_INACTIVE_KEEPALIVE_MAX
  let lowReduced ← networkstatusGetParam ns "nf_ito_low_reduced".toList DFLT_NETFLOW_REDUCED_KEEPALIVE_LOW
    DFLT_NETFLOW_REDUCED_KEEPALIVE_MIN DFLT_NETFLOW_REDUCED_KEEPALIVE_MAX
  let highReduced ← networkstatusGetParam ns "nf_ito_high_reduced".toList DFLT_NETFLOW_REDUCED_KEEPALIVE_HIGH
    lowReduced DFLT_NETFLOW_REDUCED_KEEPALIVE_MAX
  pure { low, high, lowReduced, highReduced }

theorem newConsensusParams_inRange {ns : Option (List Text)} {c : Ito} (h : newConsensusParams ns = some c) :
    c.InRange := by
  unfold newConsensusParams at h
  obtain ⟨low, hlow, h⟩ := Option.bind_eq_some_iff.mp h
  obtain ⟨high, hhigh, h⟩ := Option.bind_eq_some_iff.mp h
  obtain ⟨lowReduced, hlowR, h⟩ := Option.bind_eq_some_iff.mp h
  obtain ⟨highReduced, hhighR, h⟩ := Option.bind_eq_some_iff.mp h
  obtain rfl := Option.some.inj h
  -- without a list the values are the defaults, which are in order
  have hnone : ns = none → low = DFLT_NETFLOW_INACTIVE_KEEPALIVE_LOW ∧
      lowReduced = DFLT_NETFLOW_REDUCED_KEEPALIVE_LOW := by
    rintro rfl
    exact ⟨(Option.some.inj hlow).symm, (Option.some.inj hlowR).symm⟩
  obtain ⟨low0, low1⟩ := networkstatusGetParam_range (fun _ => by decide) hlow
  obtain ⟨lowR0, lowR1⟩ := networkstatusGetParam_range (fun _ => by decide) hlowR
  obtain ⟨high0, high1⟩ := networkstatusGetParam_range (fun e => by rw [(hnone e).1]; decide) hhigh
  obtain ⟨highR0, highR1⟩ := networkstatusGetParam_range (fun e => by rw [(hnone e).2]; decide) hhighR
  exact ⟨low0, high0, high1, lowR0, highR0, highR1⟩

/-- The lower numbers are the minimum of the higher ones: where a consensus gives one above the default of its partner,
    an assertion fails, and nowhere else. -/
theorem new_consensus_params_fail_iff (ns : Option (List Text)) :
    (newConsensusParams ns = none ↔ ∃ list, ns = some list ∧
      (FirstAbove list "nf_ito_low".toList DFLT_NETFLOW_INACTIVE_KEEPALIVE_HIGH ∨
        FirstAbove list "nf_ito_low_reduced".toList DFLT_NETFLOW_REDUCED_KEEPALIVE_HIGH)) ∧
      ∀ c, newConsensusParams ns = some c → c.InRange := by
  refine ⟨?_, fun c => newConsensusParams_inRange⟩
  cases ns with
  | none => exact iff_of_false (fun h => by cases h) (by rintro ⟨_, h, -⟩; cases h)
  | some list =>
    obtain ⟨low, hlow, hiff⟩ := @getNetParamFromList_pair list "nf_ito_low".toList "nf_ito_high".toList
      DFLT_NETFLOW_INACTIVE_KEEPALIVE_LOW DFLT_NETFLOW_INACTIVE_KEEPALIVE_HIGH DFLT_NETFLOW_INACTIVE_KEEPALIVE_MAX
      (by decide) (by decide) (by decide)
    obtain ⟨lowR, hlowR, hiffR⟩ := @getNetParamFromList_pair list "nf_ito_low_reduced".toList
      "nf_ito_high_reduced".toList DFLT_NETFLOW_REDUCED_KEEPALIVE_LOW DFLT_NETFLOW_REDUCED_KEEPALIVE_HIGH
      DFLT_NETFLOW_REDUCED_KEEPALIVE_MAX (by decide) (by decide) (by decide)
    simp only [Option.some.injEq, exists_eq_left', ← hiff, ← hiffR]
    simp only [newConsensusParams, networkstatusGetParam, Option.bind_eq_bind, Option.pure_def]
    rw [DFLT_NETFLOW_INACTIVE_KEEPALIVE_MIN, DFLT_NETFLOW_REDUCED_KEEPALIVE_MIN, hlow, hlowR, Option.bind_some]
    generalize getNetParamFromList list _ _ low _ = high
    cases high with
    | none => exact iff_of_true rfl (.inl rfl)
    | some high =>
      rw [Option.bind_some, Option.bind_some]
      generalize getNetParamFromList list _ _ lowR _ = highR
      cases highR with
      | none => exact iff_of_true rfl (.inr rfl)
      | some highR => exact iff_of_false (fun h => by cases h) (by rintro (h | h) <;> cases h)

/-- Timeouts of a consensus. -/
abbrev Consensus := {c : Ito // c.InRange}

/-! ## The timeout of a channel -/

/-- The fields of `channel_t` that padding times depend on. -/
structure Chan where
  paddingEnabled : Bool
  paddingTimeoutLowMs : UInt16
  paddingTimeoutHighMs : UInt16
  timestampXfer : Monotime
  nextPaddingTime : Monotime
deriving DecidableEq

/-- `crypto_rand_int` with the random number it draws; `none` is a failed assertion on the bound. -/
def cryptoRandInt (draw : Nat) (max : Int) : Option Int :=
  if 0 < max ∧ max ≤ MAX_INT32 + 1 then some (draw % max) else none

variable (c : Ito) (chan : Chan)

/-- The two timeouts after what the peer asked for. -/
def timeoutRange : Int × Int :=
  if chan.paddingTimeoutLowMs ≠ 0 ∧ chan.paddingTimeoutHighMs ≠ 0 then
    (max c.low chan.paddingTimeoutLowMs.toNat, max c.high chan.paddingTimeoutHighMs.toNat)
  else (c.low, c.high)

def getNetflowInactiveTimeoutMs (draw₁ draw₂ : Nat) : Option Int :=
  if c.low = 0 ∧ c.low = c.high then some 0
  else
    let (lowTimeout, highTimeout) := timeoutRange c chan
    if lowTimeout = highTimeout then some lowTimeout
    else do
      let x1 ← cryptoRandInt draw₁ (highTimeout - lowTimeout)
      let x2 ← cryptoRandInt draw₂ (highTimeout - lowTimeout)
      some (lowTimeout + max x1 x2)

/-- `channelpadding_negotiate_t`; `start` is whether the command is CHANNELPADDING_COMMAND_START. -/
structure PaddingNegotiate where
  version : UInt8
  start : Bool
  itoLowMs : UInt16
  itoHighMs : UInt16

/-- What `channelpadding_update_padding_for_channel` asks of the options and the peer. -/
structure Role where
  bridgeRelay : Bool
  orPortSet : Bool
  peerIsKnownRelay : Bool

def Role.Refuses (r : Role) (v : PaddingNegotiate) : Prop :=
  v.version ≠ 0 ∨ (r.bridgeRelay ∧ r.peerIsKnownRelay) ∨ ¬r.orPortSet

instance (r : Role) (v : PaddingNegotiate) : Decidable (r.Refuses v) :=
  inferInstanceAs (Decidable (_ ∨ _))

def updatePaddingForChannel (r : Role) (v : PaddingNegotiate) (chan : Chan) : Chan :=
  if r.Refuses v then chan
  else
    let low := UInt16.ofInt (max c.low v.itoLowMs.toNat)
    { chan with
      paddingEnabled := v.start
      paddingTimeoutLowMs := low
      paddingTimeoutHighMs := UInt16.ofInt (max low.toNat v.itoHighMs.toNat) }

/-- `channelpadding_reduce_padding_on_channel`; the cell it sends is not modelled. -/
def reducePaddingOnChannel : Chan :=
  { chan with
    paddingTimeoutLowMs := UInt16.ofInt c.lowReduced
    paddingTimeoutHighMs := UInt16.ofInt c.highReduced }

/-! ## The time until the padding -/

def CHANNELPADDING_TIME_LATER : Int := -1
def CHANNELPADDING_TIME_DISABLED : Int := -2
def TOR_HOUSEKEEPING_CALLBACK_MSEC : Int := 1000
def TOR_HOUSEKEEPING_CALLBACK_SLACK_MSEC : Int := 100

/-- The number returned, and whether the BUG branch for a clock jump was taken. -/
structure TimeUntilPad where
  ms : Int
  jumped : Bool
deriving DecidableEq

/-- The part of `channelpadding_compute_time_until_pad_for_netflow` after the padding time is set. -/
def timeUntil (now next : Monotime) : TimeUntilPad :=
  let msTillPad := Monotime.diffMsec now next
  if msTillPad > DFLT_NETFLOW_INACTIVE_KEEPALIVE_MAX then ⟨0, true⟩
  else if msTillPad < TOR_HOUSEKEEPING_CALLBACK_MSEC + TOR_HOUSEKEEPING_CALLBACK_SLACK_MSEC then
    if msTillPad < 0 then ⟨0, false⟩ else ⟨msTillPad, false⟩
  else ⟨CHANNELPADDING_TIME_LATER, false⟩

def computeTimeUntilPadForNetflow (now : Monotime) (chan : Chan) (draw₁ draw₂ : Nat) : Option (TimeUntilPad × Chan) :=
  if chan.nextPaddingTime.isZero then do
    let paddingTimeout ← getNetflowInactiveTimeoutMs c chan draw₁ draw₂
    if paddingTimeout = 0 then pure (⟨CHANNELPADDING_TIME_DISABLED, false⟩, chan)
    else
      let next := chan.timestampXfer.addMsec paddingTimeout.toNat
      pure (timeUntil now next, { chan with nextPaddingTime := next })
  else pure (timeUntil now chan.nextPaddingTime, chan)

/-! ## Timeouts within the limit -/

theorem cryptoRandInt_some {max : Int} (hpos : 0 < max) (hmax : max ≤ MAX_INT32 + 1) (draw : Nat) :
    ∃ x, cryptoRandInt draw max = some x ∧ 0 ≤ x ∧ x < max :=
  ⟨_, if_pos ⟨hpos, hmax⟩, Int.emod_nonneg _ (by omega), Int.emod_lt_of_pos _ hpos⟩

theorem cryptoRandInt_greatest {max : Int} (hpos : 0 < max) (hmax : max ≤ MAX_INT32 + 1) :
    cryptoRandInt (max - 1).toNat max = some (max - 1) := by
  rw [cryptoRandInt, if_pos ⟨hpos, hmax⟩, Int.toNat_of_nonneg (by omega), Int.emod_eq_of_lt (by omega) (by omega)]

theorem toNat_ofInt {x : Int} (h0 : 0 ≤ x) (h : x < 65536) : ((UInt16.ofInt x).toNat : Int) = x := by
  rw [UInt16.ofInt, UInt16.toNat_ofNat']
  omega

theorem reduced_toNat {c : Ito} (h : c.InRange) : 0 ≤ c.lowReduced ∧ c.lowReduced ≤ c.highReduced ∧
    c.highReduced ≤ 60000 ∧ ((UInt16.ofInt c.lowReduced).toNat : Int) = c.lowReduced ∧
    ((UInt16.ofInt c.highReduced).toNat : Int) = c.highReduced := by
  obtain ⟨-, -, -, h0, hle, hmax⟩ := h
  unfold DFLT_NETFLOW_REDUCED_KEEPALIVE_MAX at hmax
  exact ⟨h0, hle, hmax, toNat_ofInt h0 (by omega), toNat_ofInt (by omega) (by omega)⟩

/-- Numbers of the peer that are in use for nothing, or at most the limit. The random part of the
    timeout never reaches the upper one. -/
def Bounded (low high : Int) : Prop :=
  (c.low = 0 ∧ c.high = 0) ∨ low = 0 ∨
    (low ≤ DFLT_NETFLOW_INACTIVE_KEEPALIVE_MAX ∧ high ≤ DFLT_NETFLOW_INACTIVE_KEEPALIVE_MAX + 1)

instance (c : Ito) (low high : Int) : Decidable (Bounded c low high) :=
  inferInstanceAs (Decidable (_ ∨ _))

/-- The timeout is drawn without a failed assertion, and from the range that the clock test assumes. -/
def TimeoutWithinLimit : Prop :=
  ∀ draw₁ draw₂, ∃ timeout, getNetflowInactiveTimeoutMs c chan draw₁ draw₂ = some timeout ∧
    c.low ≤ timeout ∧ timeout ≤ DFLT_NETFLOW_INACTIVE_KEEPALIVE_MAX

section
variable {c : Ito} {chan : Chan} (hc : c.InRange) (hchan : chan.paddingTimeoutLowMs ≤ chan.paddingTimeoutHighMs)
include hc hchan

theorem timeoutRange_le : c.low ≤ (timeoutRange c chan).1 ∧ (timeoutRange c chan).1 ≤ (timeoutRange c chan).2 ∧
    (timeoutRange c chan).2 - (timeoutRange c chan).1 ≤ MAX_INT32 + 1 := by
  have hle := UInt16.le_iff_toNat_le.mp hchan
  have hlt := chan.paddingTimeoutHighMs.toNat_lt
  obtain ⟨h0, hlow, hhigh, -, -, -⟩ := hc
  unfold DFLT_NETFLOW_INACTIVE_KEEPALIVE_MAX at hhigh
  unfold timeoutRange MAX_INT32
  split <;> dsimp only <;> omega

/-- A timeout is somewhere from the lower end of its range to below the upper one. -/
theorem timeout_range (hon : ¬(c.low = 0 ∧ c.low = c.high)) (draw₁ draw₂ : Nat) :
    ∃ timeout, getNetflowInactiveTimeoutMs c chan draw₁ draw₂ = some timeout ∧
      (timeoutRange c chan).1 ≤ timeout ∧
      (timeout < (timeoutRange c chan).2 ∨ (timeoutRange c chan).1 = (timeoutRange c chan).2 ∧
        timeout = (timeoutRange c chan).1) := by
  obtain ⟨-, hle, hsub⟩ := timeoutRange_le hc hchan
  unfold getNetflowInactiveTimeoutMs
  rw [if_neg hon]
  dsimp only
  by_cases heq : (timeoutRange c chan).1 = (timeoutRange c chan).2
  · rw [if_pos heq]
    exact ⟨_, rfl, le_rfl, .inr ⟨heq, rfl⟩⟩
  · rw [if_neg heq]
    obtain ⟨x1, h1, h10, h11⟩ := cryptoRandInt_some (by omega) hsub draw₁
    obtain ⟨x2, h2, h20, h21⟩ := cryptoRandInt_some (by omega) hsub draw₂
    rw [h1, h2]
    exact ⟨_, rfl, by omega, .inl (by omega)⟩

/-- The greatest timeout of the range is drawn. -/
theorem timeout_greatest (hon : ¬(c.low = 0 ∧ c.low = c.high)) (hlt : (timeoutRange c chan).1 < (timeoutRange c chan).2) :
    ∃ draw, getNetflowInactiveTimeoutMs c chan draw draw = some ((timeoutRange c chan).2 - 1) := by
  obtain ⟨-, -, hsub⟩ := timeoutRange_le hc hchan
  refine ⟨((timeoutRange c chan).2 - (timeoutRange c chan).1 - 1).toNat, ?_⟩
  unfold getNetflowInactiveTimeoutMs
  rw [if_neg hon]
  dsimp only
  rw [if_neg (by omega), cryptoRandInt_greatest (by omega) hsub]
  dsimp only [bind, Option.bind]
  rw [max_self]
  congr 1
  omega

theorem timeoutRange_iff (hon : ¬(c.low = 0 ∧ c.low = c.high)) :
    ((timeoutRange c chan).1 ≤ DFLT_NETFLOW_INACTIVE_KEEPALIVE_MAX ∧
      (timeoutRange c chan).2 ≤ DFLT_NETFLOW_INACTIVE_KEEPALIVE_MAX + 1) ↔
    Bounded c chan.paddingTimeoutLowMs.toNat chan.paddingTimeoutHighMs.toNat := by
  have hle := UInt16.le_iff_toNat_le.mp hchan
  obtain ⟨h0, hlow, hhigh, -, -, -⟩ := hc
  unfold Bounded timeoutRange
  have hlow0 : chan.paddingTimeoutLowMs ≠ 0 ↔ chan.paddingTimeoutLowMs.toNat ≠ 0 := by
    rw [ne_eq, ← UInt16.toNat_inj]; rfl
  have hhigh0 : chan.paddingTimeoutHighMs ≠ 0 ↔ chan.paddingTimeoutHighMs.toNat ≠ 0 := by
    rw [ne_eq, ← UInt16.toNat_inj]; rfl
  split
  · next h =>
    rw [hlow0, hhigh0] at h
    dsimp only
    omega
  · next h =>
    rw [hlow0, hhigh0] at h
    dsimp only
    omega

/-- The timeouts that stay within the limit. -/
theorem timeout_iff : TimeoutWithinLimit c chan ↔
    Bounded c chan.paddingTimeoutLowMs.toNat chan.paddingTimeoutHighMs.toNat := by
  by_cases hoff : c.low = 0 ∧ c.low = c.high
  · refine iff_of_true (fun _ _ => ⟨0, if_pos hoff, by omega, by decide⟩) (.inl ⟨hoff.1, by omega⟩)
  · obtain ⟨hfirst, hle, -⟩ := timeoutRange_le hc hchan
    rw [← timeoutRange_iff hc hchan hoff]
    constructor
    · intro h
      obtain ⟨timeout, ht, -, hmax⟩ := h 0 0
      obtain ⟨t, ht', hlow, -⟩ := timeout_range hc hchan hoff 0 0
      obtain rfl := Option.some.inj (ht.symm.trans ht')
      refine ⟨by omega, ?_⟩
      by_cases hlt : (timeoutRange c chan).1 < (timeoutRange c chan).2
      · obtain ⟨draw, hdraw⟩ := timeout_greatest hc hchan hoff hlt
        obtain ⟨t, ht, -, hmax⟩ := h draw draw
        obtain rfl := Option.some.inj (hdraw.symm.trans ht)
        omega
      · omega
    · rintro ⟨h1, h2⟩ draw₁ draw₂
      obtain ⟨timeout, ht, hlow, hhigh⟩ := timeout_range hc hchan hoff draw₁ draw₂
      exact ⟨timeout, ht, by omega, by omega⟩

end

/-! ## A channel over time -/

structure State where
  consensus : Consensus
  now : Monotime
  chan : Chan

inductive Event
  /-- The clock moves. -/
  | clock (now : Monotime)
  /-- A cell moved at `t` (`channel_timestamp_active` and its siblings). -/
  | transfer (t : Monotime)
  /-- `channelpadding_send_padding_cell_for_callback` clears the padding time. -/
  | callback
  | newConsensus (c : Consensus)
  | negotiate (r : Role) (v : PaddingNegotiate)
  | reduce
  | compute (draw₁ draw₂ : Nat)

/-- `none` is a clock that goes back, a cell of the future, or a failed assertion. -/
def step (s : State) : Event → Option State
  | .clock now => if 0 ≤ Monotime.diffNsec s.now now then some { s with now } else none
  | .transfer t =>
    if 0 ≤ Monotime.diffNsec t s.now then
      some { s with chan := { s.chan with timestampXfer := t, nextPaddingTime := .zero } }
    else none
  | .callback => some { s with chan := { s.chan with nextPaddingTime := .zero } }
  | .newConsensus c => some { s with consensus := c }
  | .negotiate r v => some { s with chan := updatePaddingForChannel s.consensus.1 r v s.chan }
  | .reduce => some { s with chan := reducePaddingOnChannel s.consensus.1 s.chan }
  | .compute draw₁ draw₂ =>
    (computeTimeUntilPadForNetflow s.consensus.1 s.now s.chan draw₁ draw₂).map fun r => { s with chan := r.2 }

/-- A channel as `channel_init` leaves it, that has seen its first cells. -/
def opened (c : Consensus) (now xfer : Monotime) (paddingEnabled : Bool) : State where
  consensus := c
  now
  chan :=
    { paddingEnabled
      paddingTimeoutLowMs := 0
      paddingTimeoutHighMs := 0
      timestampXfer := xfer
      nextPaddingTime := .zero }

/-- No draw fails or leaves the range, and no computation of the padding time sees a clock jump. -/
structure JumpFree (s : State) : Prop where
  timeout : TimeoutWithinLimit s.consensus.1 s.chan
  compute : ∀ draw₁ draw₂, ∃ r, computeTimeUntilPadForNetflow s.consensus.1 s.now s.chan draw₁ draw₂ = some r ∧
    r.1.jumped = false

/-- The step puts no numbers of the peer to use that are above the limit: neither by accepting them from it,
    nor by a consensus that has padding on when they are set. -/
def KeepsLimit (s : State) : Event → Prop
  | .negotiate r v => r.Refuses v ∨ (s.consensus.1.low = 0 ∧ s.consensus.1.high = 0) ∨
      (s.consensus.1.low = 0 ∧ v.itoLowMs.toNat = 0) ∨
      (v.itoLowMs.toNat ≤ DFLT_NETFLOW_INACTIVE_KEEPALIVE_MAX ∧
        v.itoHighMs.toNat ≤ DFLT_NETFLOW_INACTIVE_KEEPALIVE_MAX + 1)
  | .newConsensus c => Bounded c.1 s.chan.paddingTimeoutLowMs.toNat s.chan.paddingTimeoutHighMs.toNat
  | _ => True

instance (s : State) (e : Event) : Decidable (KeepsLimit s e) := by
  cases e <;> unfold KeepsLimit <;> infer_instance

/-- The timeouts of the channel are in order, its last cell is not of the future, and the padding time is not further
    ahead than the limit. -/
structure Inv (s : State) : Prop where
  ordered : s.chan.paddingTimeoutLowMs ≤ s.chan.paddingTimeoutHighMs
  xfer : 0 ≤ Monotime.diffNsec s.chan.timestampXfer s.now
  next : s.chan.nextPaddingTime.isZero = true ∨
    Monotime.diffNsec s.now s.chan.nextPaddingTime ≤ (60000 : Nat) * Monotime.ONE_MILLION

variable {now : Monotime} {s t : State} {e : Event}

theorem Inv.opened {c : Consensus} {xfer : Monotime} {enabled : Bool} (h : 0 ≤ Monotime.diffNsec xfer now) :
    Inv (opened c now xfer enabled) :=
  ⟨UInt16.le_refl 0, h, .inl rfl⟩

theorem timeUntil_jumpFree {next : Monotime}
    (h : Monotime.diffNsec now next ≤ (60000 : Nat) * Monotime.ONE_MILLION) : (timeUntil now next).jumped = false := by
  have hle : ¬Monotime.diffMsec now next > DFLT_NETFLOW_INACTIVE_KEEPALIVE_MAX :=
    Int.not_lt.mpr (Monotime.diffMsec_le h)
  unfold timeUntil
  dsimp only
  rw [if_neg hle]
  split
  · split <;> rfl
  · rfl

/-- A padding time that is set from a timeout within the limit. -/
theorem Inv.addMsec (hI : Inv s) {timeout : Int} (h : timeout ≤ DFLT_NETFLOW_INACTIVE_KEEPALIVE_MAX) :
    Monotime.diffNsec s.now (s.chan.timestampXfer.addMsec timeout.toNat) ≤ (60000 : Nat) * Monotime.ONE_MILLION := by
  have hxfer := hI.xfer
  have hself := Monotime.diffNsec_trans s.chan.timestampXfer s.now s.chan.timestampXfer
  have hzero : Monotime.diffNsec s.chan.timestampXfer s.chan.timestampXfer = 0 := by
    unfold Monotime.diffNsec
    omega
  rw [Monotime.diffNsec_addMsec]
  unfold DFLT_NETFLOW_INACTIVE_KEEPALIVE_MAX at h
  unfold Monotime.ONE_MILLION
  omega

/-- What the computation returns and sets when the timeout is within the limit. -/
theorem compute_spec (hI : Inv s) (ht : TimeoutWithinLimit s.consensus.1 s.chan) (draw₁ draw₂ : Nat) :
    ∃ r, computeTimeUntilPadForNetflow s.consensus.1 s.now s.chan draw₁ draw₂ = some r ∧ r.1.jumped = false ∧
      Inv { s with chan := r.2 } ∧ r.2.paddingTimeoutLowMs = s.chan.paddingTimeoutLowMs ∧
      r.2.paddingTimeoutHighMs = s.chan.paddingTimeoutHighMs := by
  unfold computeTimeUntilPadForNetflow
  by_cases hz : s.chan.nextPaddingTime.isZero
  · obtain ⟨timeout, htimeout, -, hmax⟩ := ht draw₁ draw₂
    rw [if_pos hz, htimeout]
    dsimp only [bind, Option.bind]
    by_cases h0 : timeout = 0
    · rw [if_pos h0]
      exact ⟨_, rfl, rfl, hI, rfl, rfl⟩
    · rw [if_neg h0]
      have hnext := hI.addMsec hmax
      exact ⟨_, rfl, timeUntil_jumpFree hnext, ⟨hI.ordered, hI.xfer, .inr hnext⟩, rfl, rfl⟩
  · rw [if_neg hz]
    exact ⟨_, rfl, timeUntil_jumpFree (hI.next.resolve_left hz), hI, rfl, rfl⟩

theorem jumpFree_iff (hI : Inv s) : JumpFree s ↔
    Bounded s.consensus.1 s.chan.paddingTimeoutLowMs.toNat s.chan.paddingTimeoutHighMs.toNat := by
  rw [← timeout_iff s.consensus.2 hI.ordered]
  refine ⟨fun h => h.timeout, fun ht => ⟨ht, fun draw₁ draw₂ => ?_⟩⟩
  obtain ⟨r, hr, hjump, -⟩ := compute_spec hI ht draw₁ draw₂
  exact ⟨r, hr, hjump⟩

/-- What a PADDING_NEGOTIATE cell sets. -/
theorem negotiated {c : Ito} (hc : c.InRange) {r : Role} {v : PaddingNegotiate} (hr : ¬r.Refuses v) (chan : Chan) :
    ((updatePaddingForChannel c r v chan).paddingTimeoutLowMs.toNat : Int) = max c.low v.itoLowMs.toNat ∧
    ((updatePaddingForChannel c r v chan).paddingTimeoutHighMs.toNat : Int) =
      max (max c.low v.itoLowMs.toNat) v.itoHighMs.toNat := by
  obtain ⟨h0, hlow, hhigh, -, -, -⟩ := hc
  have h1 := v.itoLowMs.toNat_lt
  have h2 := v.itoHighMs.toNat_lt
  unfold DFLT_NETFLOW_INACTIVE_KEEPALIVE_MAX at hhigh
  have hl : ((UInt16.ofInt (max c.low v.itoLowMs.toNat)).toNat : Int) = max c.low v.itoLowMs.toNat :=
    toNat_ofInt (by omega) (by omega)
  unfold updatePaddingForChannel
  rw [if_neg hr]
  refine ⟨hl, ?_⟩
  dsimp only
  rw [toNat_ofInt (by omega) (by omega), hl]

theorem updatePadding_times (r : Role) (v : PaddingNegotiate) (chan : Chan) :
    (updatePaddingForChannel c r v chan).timestampXfer = chan.timestampXfer ∧
    (updatePaddingForChannel c r v chan).nextPaddingTime = chan.nextPaddingTime := by
  unfold updatePaddingForChannel
  split <;> exact ⟨rfl, rfl⟩

/-! ## One step -/

theorem Inv.step (hI : Inv s) (hfree : JumpFree s) (h : step s e = some t) : Inv t := by
  cases e with
  | clock now =>
    obtain ⟨hle, h⟩ := Option.ite_none_right_eq_some.mp h
    obtain rfl := Option.some.inj h
    have hx := Monotime.diffNsec_trans s.chan.timestampXfer s.now now
    have hn := Monotime.diffNsec_trans s.now now s.chan.nextPaddingTime
    exact ⟨hI.ordered, by have := hI.xfer; dsimp only; omega, hI.next.imp_right fun hnext => by dsimp only; omega⟩
  | transfer x =>
    obtain ⟨hle, h⟩ := Option.ite_none_right_eq_some.mp h
    obtain rfl := Option.some.inj h
    exact ⟨hI.ordered, hle, .inl rfl⟩
  | callback =>
    obtain rfl := Option.some.inj h
    exact ⟨hI.ordered, hI.xfer, .inl rfl⟩
  | newConsensus c =>
    obtain rfl := Option.some.inj h
    exact ⟨hI.ordered, hI.xfer, hI.next⟩
  | negotiate r v =>
    obtain rfl := Option.some.inj h
    obtain ⟨hx, hn⟩ := updatePadding_times s.consensus.1 r v s.chan
    refine ⟨?_, by dsimp only; rw [hx]; exact hI.xfer, by dsimp only; rw [hn]; exact hI.next⟩
    by_cases hr : r.Refuses v
    · dsimp only
      rw [updatePaddingForChannel, if_pos hr]
      exact hI.ordered
    · obtain ⟨hl, hh⟩ := negotiated s.consensus.2 hr s.chan
      refine UInt16.le_iff_toNat_le.mpr ?_
      dsimp only
      omega
  | reduce =>
    obtain rfl := Option.some.inj h
    refine ⟨UInt16.le_iff_toNat_le.mpr ?_, hI.xfer, hI.next⟩
    obtain ⟨h0, hle, hmax, hl, hh⟩ := reduced_toNat s.consensus.2
    unfold reducePaddingOnChannel
    dsimp only
    omega
  | compute draw₁ draw₂ =>
    obtain ⟨r, hr, rfl⟩ := Option.map_eq_some_iff.mp h
    obtain ⟨r', hr', -, hI', -⟩ := compute_spec hI hfree.timeout draw₁ draw₂
    obtain rfl := Option.some.inj (hr.symm.trans hr')
    exact hI'

theorem step_bounded (hI : Inv s) (hfree : JumpFree s) (h : step s e = some t) :
    Bounded t.consensus.1 t.chan.paddingTimeoutLowMs.toNat t.chan.paddingTimeoutHighMs.toNat ↔ KeepsLimit s e := by
  have hb := (jumpFree_iff hI).mp hfree
  cases e with
  | clock _ | transfer _ =>
    obtain ⟨-, h⟩ := Option.ite_none_right_eq_some.mp h
    obtain rfl := Option.some.inj h
    exact iff_of_true hb trivial
  | callback =>
    obtain rfl := Option.some.inj h
    exact iff_of_true hb trivial
  | newConsensus c =>
    obtain rfl := Option.some.inj h
    exact Iff.rfl
  | negotiate r v =>
    obtain rfl := Option.some.inj h
    unfold KeepsLimit
    by_cases hr : r.Refuses v
    · dsimp only
      rw [updatePaddingForChannel, if_pos hr]
      exact iff_of_true hb (.inl hr)
    · obtain ⟨hl, hh⟩ := negotiated s.consensus.2 hr s.chan
      obtain ⟨h0, hlow, hhigh, -, -, -⟩ := s.consensus.2
      dsimp only
      rw [hl, hh, or_iff_right hr, Bounded]
      omega
  | reduce =>
    obtain rfl := Option.some.inj h
    obtain ⟨h0, hle, hmax, hl, hh⟩ := reduced_toNat s.consensus.2
    refine iff_of_true (.inr (.inr ?_)) trivial
    unfold reducePaddingOnChannel DFLT_NETFLOW_INACTIVE_KEEPALIVE_MAX
    dsimp only
    omega
  | compute draw₁ draw₂ =>
    obtain ⟨r, hr, rfl⟩ := Option.map_eq_some_iff.mp h
    obtain ⟨r', hr', -, -, hl, hh⟩ := compute_spec hI hfree.timeout draw₁ draw₂
    obtain rfl := Option.some.inj (hr.symm.trans hr')
    refine iff_of_true ?_ trivial
    dsimp only
    rw [hl, hh]
    exact hb

theorem jumpFree_step (hI : Inv s) (hfree : JumpFree s) (h : step s e = some t) : JumpFree t ↔ KeepsLimit s e := by
  rw [jumpFree_iff (hI.step hfree h), step_bounded hI hfree h]

/-! ## Every run -/

theorem jumpFree_opened {c : Consensus} {xfer : Monotime} {enabled : Bool} (h : 0 ≤ Monotime.diffNsec xfer now) :
    JumpFree (opened c now xfer enabled) :=
  (jumpFree_iff (Inv.opened h)).mpr (.inr (.inl rfl))

/-- A run sees no clock jump in any state exactly if none of its steps puts numbers of the peer to use that are above the
    limit. -/
theorem jump_free_iff (c : Consensus) (now xfer : Monotime) (enabled : Bool) (hxfer : 0 ≤ Monotime.diffNsec xfer now)
    (events : List Event) (t : State) (hrun : run step (opened c now xfer enabled) events = some t) :
    AllStates step JumpFree (opened c now xfer enabled) events ↔
      AllSteps step KeepsLimit (opened c now xfer enabled) events := by
  refine allStates_iff_allSteps_inv (Inv.opened hxfer) (jumpFree_opened hxfer) ?_ hrun
  intro u e v hI hfree h
  exact ⟨jumpFree_step hI hfree h, fun _ => hI.step hfree h⟩

theorem defaults_inRange : Ito.InRange ⟨1500, 9500, 9000, 14000⟩ := by constructor <;> decide

def dfltConsensus : Consensus := ⟨⟨1500, 9500, 9000, 14000⟩, defaults_inRange⟩

def relayRole : Role := ⟨false, true, false⟩

/-- A relay with the default consensus whose peer asks for timeouts of `low` and `high`. -/
def asked (low high : UInt16) : List Event :=
  [.clock ⟨100, 5⟩, .transfer ⟨100, 5⟩, .negotiate relayRole ⟨0, true, low, high⟩]

theorem asked_in_range_is_jump_free :
    AllStates step JumpFree (opened dfltConsensus ⟨99, 0⟩ ⟨98, 0⟩ true) (asked 2000 60001 ++ [.compute 7 9]) :=
  (jump_free_iff dfltConsensus ⟨99, 0⟩ ⟨98, 0⟩ true (by decide) (asked 2000 60001 ++ [.compute 7 9]) _ rfl).mpr
    (allSteps_of_check (by decide))

/-- The longest timeouts a cell can ask for are taken, and the clock is said to have jumped right after the transfer. -/
theorem a_peer_asks_for_a_jump :
    ∃ s, run step (opened dfltConsensus ⟨99, 0⟩ ⟨98, 0⟩ true) (asked 65535 65535) = some s ∧
      getNetflowInactiveTimeoutMs s.consensus.1 s.chan 7 9 = some 65535 ∧
      (computeTimeUntilPadForNetflow s.consensus.1 s.now s.chan 7 9).map (·.1) = some ⟨0, true⟩ ∧
      ¬JumpFree s := by
  refine ⟨_, rfl, by decide, by decide, fun hfree => ?_⟩
  obtain ⟨timeout, ht, -, hmax⟩ := hfree.timeout 7 9
  obtain rfl := Option.some.inj ht
  exact absurd hmax (by decide)

end Badnet.Channel

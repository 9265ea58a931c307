/-
  Badnet.Circpad.Machine — the padding machines of a circuit at work (`core/or/circuitpadding.c`).

  A cell is an event for every machine of its circuit; a transition schedules padding, and a delay of zero sends a cell
  at once, which is an event again. So the functions call each other in a circle; they take the transition function as
  an argument (`again`), and `specTransition` closes the circle with a bound on the depth.

  Time, random numbers and whether a cell can be sent are read off a tape. A computation ends with a result and the
  world after it, or it stops (`Stop`).
-/

import Badnet.Circpad.TokenRemoval
import Badnet.Nodelist.NetParams

namespace Badnet.Circpad.PadMachine

open Encoding Nodelist

/-! ## Machines -/

/-- `circpad_event_t`. -/
inductive Event
  | nonpaddingRecv | nonpaddingSent | paddingSent | paddingRecv | infinity | binsEmpty | lengthCount
deriving DecidableEq

/-- `circpad_statenum_t`. -/
abbrev StateNum := UInt16

def CIRCPAD_STATE_START : StateNum := 0
def CIRCPAD_STATE_END : StateNum := 65535
def CIRCPAD_STATE_IGNORE : StateNum := 65534
def CIRCPAD_STATE_CANCEL : StateNum := 65533
def CIRCPAD_STATE_LENGTH_INFINITE : UInt64 := 18446744073709551615
def UINT16_MAX : UInt16 := 65535
def INT32_MAX : UInt64 := 2147483647

/-- `circpad_state_t`; the parameters of its distributions are left to the tape. -/
structure PadState where
  delay : DelayState
  nextState : Event → StateNum
  lengthDist : DistributionType
  lengthIncludesNonpadding : Bool

/-- A `circpad_machine_spec_t` that `circpad_register_padding_machine` accepts. -/
structure MachineSpec where
  machineIndex : Fin 2
  shouldNegotiateEnd : Bool
  allowedPaddingCount : UInt16
  maxPaddingPercent : UInt8
  states : List PadState
  valid : ∀ s ∈ states, paddingMachineStateIsValid s.delay = true

/-- `circpad_machine_runtime_t`, with the specification that `CIRCPAD_GET_MACHINE` finds for it. -/
structure Machine where
  spec : MachineSpec
  runtime : Runtime
  stateLength : UInt64
  paddingSent : UInt16
  nonpaddingSent : UInt16
  lastReceivedTimeUsec : UInt64
  paddingScheduledAtUsec : UInt64
  currentState : StateNum
  isPaddingTimerScheduled : Bool
  stopRttUpdate : Bool

/-- `circpad_circuit_machineinfo_new`: all zero, in the start state. -/
def machineinfoNew (spec : MachineSpec) : Machine where
  spec
  runtime := ⟨none, 0, 0⟩
  stateLength := 0
  paddingSent := 0
  nonpaddingSent := 0
  lastReceivedTimeUsec := 0
  paddingScheduledAtUsec := 0
  currentState := CIRCPAD_STATE_START
  isPaddingTimerScheduled := false
  stopRttUpdate := false

namespace Machine

variable (mi : Machine)

/-- `circpad_machine_current_state`; a number past the states is a reported bug. -/
def state : Option PadState :=
  if mi.currentState = CIRCPAD_STATE_END then none else mi.spec.states[mi.currentState.toNat]?

def isTokenRemovalSupported : Bool := mi.runtime.histogram.isSome

def setHistogram (histogram : Option (Nat → UInt32)) : Machine :=
  { mi with runtime := { mi.runtime with histogram } }

/-- `circpad_machine_setup_tokens`. -/
def setupTokens : Machine :=
  match mi.state with
  | none => mi.setHistogram none
  | some st => mi.setHistogram (if st.delay.tokenRemoval = .none then none else some st.delay.histogram)

/-- `circpad_choose_state_length`, where `sample` is the clamped sample of the length's distribution. -/
def chooseStateLength (sample : UInt64) : Machine :=
  match mi.state with
  | none => { mi with stateLength := CIRCPAD_STATE_LENGTH_INFINITE }
  | some st =>
    { mi with stateLength := if st.lengthDist = .none then CIRCPAD_STATE_LENGTH_INFINITE else sample }

/-- What every cancel does to the timer. -/
def cancelPadding : Machine :=
  { mi with paddingScheduledAtUsec := 0, isPaddingTimerScheduled := false }

def updateStateLengthForNonpadding : Machine :=
  if mi.stateLength = CIRCPAD_STATE_LENGTH_INFINITE then mi
  else
    match mi.state with
    | none => mi
    | some st =>
      if st.lengthIncludesNonpadding ∧ mi.stateLength > 0 then { mi with stateLength := mi.stateLength - 1 } else mi

/-- The two counters after one more of either kind; both are halved when that one reaches the bound. -/
def countSent (padding : Bool) : Machine :=
  let p := if padding then mi.paddingSent + 1 else mi.paddingSent
  let n := if padding then mi.nonpaddingSent else mi.nonpaddingSent + 1
  if (if padding then p else n) = UINT16_MAX then { mi with paddingSent := p / 2, nonpaddingSent := n / 2 }
  else { mi with paddingSent := p, nonpaddingSent := n }

/-- `circpad_machine_count_padding_sent`, but for the global count. -/
def countPaddingSent : Machine :=
  let mi :=
    if mi.stateLength ≠ CIRCPAD_STATE_LENGTH_INFINITE ∧ mi.stateLength > 0 then
      { mi with stateLength := mi.stateLength - 1 }
    else mi
  let mi := mi.countSent true
  let len := mi.state.elim 0 fun st => st.delay.histogramLen
  mi.setHistogram
    (mi.runtime.histogram.map fun own =>
      if mi.runtime.chosenBin < len ∧ own mi.runtime.chosenBin ≠ 0 then takeToken own mi.runtime.chosenBin else own)

/-- `circpad_estimate_circ_rtt_on_received`. -/
def estimateRttOnReceived (isOrigin circOpen : Bool) (now : UInt64) : Machine :=
  if isOrigin ∨ mi.stopRttUpdate then mi
  else if mi.lastReceivedTimeUsec ≠ 0 then
    if circOpen then { mi with stopRttUpdate := true } else mi
  else
    match mi.state with
    | none => mi
    | some st =>
      if st.delay.useRttEstimate then { mi with lastReceivedTimeUsec := now } else { mi with stopRttUpdate := true }

/-- `circpad_estimate_circ_rtt_on_send`. -/
def estimateRttOnSend (isOrigin circOpen : Bool) (now : UInt64) : Machine :=
  if isOrigin then mi
  else if mi.lastReceivedTimeUsec ≠ 0 then
    let rttTime := now - mi.lastReceivedTimeUsec
    let mi := { mi with lastReceivedTimeUsec := 0 }
    if rttTime ≥ INT32_MAX then mi
    else
      let old := mi.runtime.rttEstimateUsec
      let estimate := if old < rttTime.toUInt32 then rttTime.toUInt32 else (old + rttTime.toUInt32) / 2
      { mi with runtime := { mi.runtime with rttEstimateUsec := estimate } }
  else if circOpen then { mi with stopRttUpdate := true }
  else mi

/-- The tokens of the bins below the infinity bin, as `check_machine_token_supply` sums them. -/
def tokensLeft (own : Nat → UInt32) : UInt32 :=
  let len := mi.state.elim 0 fun st => st.delay.histogramLen
  (List.range (len - 1)).foldl (fun total b => total + own b) 0

end Machine

/-! ## The world -/

/-- The consensus parameters, with the ranges they are asked for with. -/
structure PadParams where
  paddingDisabled : Bool
  globalAllowedCells : Nat
  globalMaxPaddingPercent : Nat
  allowed_le : globalAllowedCells ≤ 65534
  percent_le : globalMaxPaddingPercent ≤ 100

variable (ns : Option (List Text))

theorem allowed_param_le (v : Int)
    (h : networkstatusGetParam ns "circpad_global_allowed_cells".toList 0 0 65534 = some v) : v.toNat ≤ 65534 := by
  have := networkstatusGetParam_range (fun _ => by decide) h
  omega

theorem percent_param_le (v : Int)
    (h : networkstatusGetParam ns "circpad_global_max_padding_pct".toList 0 0 100 = some v) : v.toNat ≤ 100 := by
  have := networkstatusGetParam_range (fun _ => by decide) h
  omega

/-- `circpad_new_consensus_params`, as far as the limits go. -/
def circpadNewConsensusParams : Option PadParams := do
  let disabled ← networkstatusGetParam ns "circpad_padding_disabled".toList 0 0 1
  let allowed ← (networkstatusGetParam ns "circpad_global_allowed_cells".toList 0 0 65534).attach
  let percent ← (networkstatusGetParam ns "circpad_global_max_padding_pct".toList 0 0 100).attach
  pure {
    paddingDisabled := decide (disabled ≠ 0)
    globalAllowedCells := allowed.1.toNat
    globalMaxPaddingPercent := percent.1.toNat
    allowed_le := allowed_param_le ns allowed.1 allowed.2
    percent_le := percent_param_le ns percent.1 percent.2 }

/-- What a cell event finds decided: the consensus, the options, whether the process participates, and the circuit. -/
structure Surroundings where
  params : PadParams
  circuitPadding : Bool
  participating : Bool
  circOpen : Bool
  markedForClose : Bool

/-- What is read off the tape at once; each use takes the part it needs. -/
structure Draw where
  sample : Draws
  stateLength : UInt64
  nowUsec : UInt64
  cellSent : Bool

/-- A circuit with its machines, and the counters of the process. -/
structure World where
  paddingInfo : Fin 2 → Option Machine
  isOrigin : Bool
  around : Surroundings
  globalPaddingSent : Nat
  globalNonpaddingSent : Nat
  tape : Nat → Draw
  pos : Nat

/-- Why a computation ends early. -/
inductive Stop | divisionByZero | assertion | nullHistogram | freedMachine | outOfFuel
deriving DecidableEq

/-- `circpad_machine_remove_token`. The histogram is null in a start state that nothing was entered from. -/
def Machine.removeToken (mi : Machine) (now : UInt64) : Except Stop Machine :=
  if mi.paddingScheduledAtUsec = 0 then .ok mi
  else
    match mi.state with
    | none => .ok mi
    | some st =>
      if st.delay.tokenRemoval = .none then .ok mi
      else
        let target := (min (now - mi.paddingScheduledAtUsec) (CIRCPAD_DELAY_INFINITE - 1).toUInt64).toUInt32
        match mi.runtime.histogram with
        | none => .error .nullHistogram
        | some own =>
          let removed := removeByStrategy st.delay.tokenRemoval st.delay mi.runtime own target
          .ok (mi.cancelPadding.setHistogram (some removed.own))

abbrev M := StateT World (Except Stop)

/-- `circpad_decision_t`. -/
inductive Decision | unchanged | changed
deriving DecidableEq

def draw : M Draw := do
  let w ← get
  set { w with pos := w.pos + 1 }
  pure (w.tape w.pos)

variable (i : Fin 2)

def getMachine : M Machine := do
  let w ← get
  match w.paddingInfo i with
  | some mi => pure mi
  | none => throw .freedMachine

def setMachine (mi : Option Machine) : M Unit :=
  modify fun w => { w with paddingInfo := Function.update w.paddingInfo i mi }

def modifyMachine (f : Machine → Machine) : M Unit := do
  let mi ← getMachine i
  setMachine i (some (f mi))

/-- `circpad_machine_count_nonpadding_sent`. -/
def machineCountNonpaddingSent (now : UInt64) : M Unit := do
  modifyMachine i fun mi => (mi.countSent false).updateStateLengthForNonpadding
  let mi ← getMachine i
  let mi ← mi.removeToken now
  setMachine i (some mi)

variable (body : Fin 2 → M Unit)

/-- `FOR_EACH_ACTIVE_CIRCUIT_MACHINE_BEGIN`. -/
def ifActive : M Unit := do
  let w ← get
  if (w.paddingInfo i).isSome then body i else pure ()

section

local instance machines_neZero : NeZero 2 := ⟨Nat.succ_ne_zero 1⟩

def forEachActive : M Unit := do
  ifActive 0 body
  ifActive 1 body

end

/-! ## The limits -/

/-- One of the two limits: whether there is one and the padding sent is above it. -/
def limitReached (percent allowed padding nonpadding : Nat) : Except Stop Bool :=
  if percent ≠ 0 ∧ padding ≥ allowed then
    if padding + nonpadding = 0 then .error .divisionByZero
    else .ok (decide (100 * padding / (padding + nonpadding) > percent))
  else .ok false

def circpadMachineReachedPaddingLimit : M Bool := do
  let mi ← getMachine i
  let w ← get
  let reached ← limitReached mi.spec.maxPaddingPercent.toNat mi.spec.allowedPaddingCount.toNat
    mi.paddingSent.toNat mi.nonpaddingSent.toNat
  if reached then pure true
  else
    limitReached w.around.params.globalMaxPaddingPercent w.around.params.globalAllowedCells
      w.globalPaddingSent w.globalNonpaddingSent

def isPaddingAllowed (w : World) : Bool := !w.around.params.paddingDisabled && w.around.circuitPadding

/-! ## The circle of events -/

section

variable (again : Fin 2 → Event → M Decision) (i : Fin 2)

/-- `circpad_internal_event_bins_empty`. -/
def internalEventBinsEmpty : M Decision := do
  let decision ← again i .binsEmpty
  if decision = .changed then pure .changed
  else
    modifyMachine i Machine.setupTokens
    pure .unchanged

/-- The part of `check_machine_token_supply` about the tokens. -/
def checkBinsEmpty : M Decision := do
  let mi ← getMachine i
  if mi.runtime.histogram.any fun own => mi.tokensLeft own == 0 then internalEventBinsEmpty again i
  else pure .unchanged

def checkMachineTokenSupply : M Decision := do
  let decision ← checkBinsEmpty again i
  if decision = .changed then pure .changed
  else
    let mi ← getMachine i
    if mi.stateLength = 0 then again i .lengthCount else pure .unchanged

def cellEventPaddingSent : M Unit :=
  forEachActive fun i => do
    let decision ← checkMachineTokenSupply again i
    if decision = .unchanged then discard (again i .paddingSent) else pure ()

/-- The body of the loop of `circpad_cell_event_nonpadding_sent`. -/
def nonpaddingSentBody : M Unit := do
  let w ← get
  let now ← draw
  modifyMachine i fun mi => mi.estimateRttOnSend w.isOrigin w.around.circOpen now.nowUsec
  machineCountNonpaddingSent i now.nowUsec
  let decision ← checkMachineTokenSupply again i
  if decision = .unchanged then discard (again i .nonpaddingSent) else pure ()

def cellEventNonpaddingSent : M Unit := do
  modify fun w => { w with globalNonpaddingSent := w.globalNonpaddingSent + 1 }
  forEachActive (nonpaddingSentBody again)

/-- The body of the loop of `circpad_cell_event_nonpadding_received`. -/
def nonpaddingReceivedBody : M Unit := do
  let w ← get
  let now ← draw
  modifyMachine i fun mi => mi.estimateRttOnReceived w.isOrigin w.around.circOpen now.nowUsec
  discard (again i .nonpaddingRecv)

def cellEventNonpaddingReceived : M Unit := forEachActive (nonpaddingReceivedBody again)

def cellEventPaddingReceived : M Unit :=
  forEachActive fun i => discard (again i .paddingRecv)

/-- `circpad_send_padding_cell_for_callback`; the DROP cell it sends is the event. -/
def sendPaddingCellForCallback : M Decision := do
  modifyMachine i Machine.cancelPadding
  let mi ← getMachine i
  let w ← get
  if w.around.markedForClose then pure .changed
  else
    modifyMachine i Machine.countPaddingSent
    modify fun w => { w with globalPaddingSent := w.globalPaddingSent + 1 }
    cellEventPaddingSent again
    let w ← get
    match w.paddingInfo i with
    | some mi' => if mi.currentState ≠ mi'.currentState then pure .changed else checkMachineTokenSupply again i
    | none => pure .changed

/-- `circpad_machine_sample_delay`. -/
def sampleDelay : M UInt32 := do
  let mi ← getMachine i
  let d ← draw
  match mi.state with
  | none => throw .assertion
  | some st =>
    match circpadMachineSampleDelay st.delay mi.runtime d.sample with
    | none => throw .nullHistogram
    | some sampled =>
      modifyMachine i fun mi => { mi with runtime := sampled.mi }
      pure sampled.delay

/-- `circpad_machine_schedule_padding` after the limits. -/
def schedule : M Decision := do
  modifyMachine i fun mi => { mi with isPaddingTimerScheduled := false }
  let delay ← sampleDelay i
  let now ← draw
  modifyMachine i fun mi =>
    { mi with paddingScheduledAtUsec := if mi.isTokenRemovalSupported then now.nowUsec else 1 }
  if delay = CIRCPAD_DELAY_INFINITE then again i .infinity
  else
    let mi ← getMachine i
    if mi.stateLength = 0 then pure .unchanged
    else if delay = 0 then sendPaddingCellForCallback again i
    else
      modifyMachine i fun mi => { mi with isPaddingTimerScheduled := true }
      pure .unchanged

def circpadMachineSchedulePadding : M Decision := do
  let mi ← getMachine i
  let w ← get
  if ¬isPaddingAllowed w then pure .unchanged
  else if ¬w.around.participating then pure .unchanged
  else if mi.currentState = CIRCPAD_STATE_END then pure .unchanged
  else
    let reached ← circpadMachineReachedPaddingLimit i
    if reached then pure .unchanged else schedule again i

/-- `circpad_machine_spec_transitioned_to_end`. Both sides free the machine and send a cell that is not padding. -/
def transitionedToEnd : M Unit := do
  let mi ← getMachine i
  if mi.spec.shouldNegotiateEnd then
    setMachine i none
    let d ← draw
    if d.cellSent then cellEventNonpaddingSent again else pure ()
  else pure ()

/-- The change to a state other than the current one. -/
def enterState (s : StateNum) : M Decision := do
  let d ← draw
  modifyMachine i fun mi => ({ mi with currentState := s }.setupTokens).chooseStateLength d.stateLength
  if s = CIRCPAD_STATE_END then
    transitionedToEnd again i
    pure .changed
  else
    discard (circpadMachineSchedulePadding again i)
    pure .changed

/-- `circpad_machine_spec_transition`. -/
def transition (event : Event) : M Decision := do
  let mi ← getMachine i
  match mi.state with
  | none => pure .unchanged
  | some st =>
    let s := st.nextState event
    if s = CIRCPAD_STATE_IGNORE then pure .unchanged
    else if s = CIRCPAD_STATE_CANCEL then
      modifyMachine i Machine.cancelPadding
      pure .unchanged
    else if mi.currentState ≠ s then enterState again i s
    else circpadMachineSchedulePadding again i

end

def specTransition : (fuel : Nat) → Fin 2 → Event → M Decision
  | 0 => fun _ _ => throw .outOfFuel
  | fuel + 1 => transition (specTransition fuel)

/-! ## What happens to a circuit -/

inductive CellEvent
  | nonpaddingSent
  | nonpaddingReceived
  | paddingReceived
  /-- The padding timer of a machine runs out. -/
  | timer (i : Fin 2)
  | surroundings (s : Surroundings)

/-- At the outermost level the depth is one at least. -/
def handle (fuel : Nat) : CellEvent → M Unit
  | .nonpaddingSent => cellEventNonpaddingSent (specTransition (fuel + 1))
  | .nonpaddingReceived => cellEventNonpaddingReceived (specTransition (fuel + 1))
  | .paddingReceived => cellEventPaddingReceived (specTransition (fuel + 1))
  | .timer i => do
    let w ← get
    if (w.paddingInfo i).any Machine.isPaddingTimerScheduled then
      discard (sendPaddingCellForCallback (specTransition (fuel + 1)) i)
    else pure ()
  | .surroundings s => modify fun w => { w with around := s }

def step (fuel : Nat) (w : World) (e : CellEvent) : Except Stop World := ((handle fuel e).run w).map (·.2)

/-- A circuit whose only machine was just set up, in a process that has sent nothing. -/
def freshWorld (spec : MachineSpec) (isOrigin : Bool) (around : Surroundings) (tape : Nat → Draw) : World where
  paddingInfo := Function.update (fun _ => none) spec.machineIndex (some (machineinfoNew spec))
  isOrigin
  around
  globalPaddingSent := 0
  globalNonpaddingSent := 0
  tape
  pos := 0

end Badnet.Circpad.PadMachine

/-
  Badnet.Circpad.Histogram — the histograms of padding delays (`core/or/circuitpadding.c`).

  A state of a padding machine gives each bin a number of tokens and a lower edge in microseconds; the last bin is the
  infinity bin. A machine that removes tokens has a copy of its own. `circpadHistogramBinToUsec` adds the RTT estimate
  to the edge where the state uses it; the bounds of an accepted state increase, as long as edge and estimate fit the 32
  bits (`binToUsec_lt`).
-/

import Mathlib.Algebra.BigOperators.Intervals
import Mathlib.Algebra.Order.BigOperators.Group.Finset

namespace Badnet.Circpad

def CIRCPAD_DELAY_INFINITE : UInt32 := 4294967295
def CIRCPAD_MAX_HISTOGRAM_LEN : Nat := 100

inductive Removal | none | higher | lower | closest | closestUsec | exact
  deriving DecidableEq, Repr

inductive DistributionType | none | uniform | logistic | logLogistic | geometric | weibull | pareto
  deriving DecidableEq, Repr

/-- The part of `circpad_state_t` that says how delays are drawn. The arrays are functions of the bin. -/
structure DelayState where
  histogramLen : Nat
  histogram : Nat → UInt32
  histogramEdges : Nat → UInt32
  histogramTotalTokens : UInt32
  iatDist : DistributionType
  useRttEstimate : Bool
  tokenRemoval : Removal
  len_le : histogramLen ≤ CIRCPAD_MAX_HISTOGRAM_LEN

theorem three_bins_fit : 3 ≤ CIRCPAD_MAX_HISTOGRAM_LEN := by decide

variable (state : DelayState)

/-- `CIRCPAD_INFINITY_BIN`; without a histogram it is negative. -/
def DelayState.infinityBin : Int := state.histogramLen - 1

/-- The loop over the bins: it ends at the first edge that is not above the one before. -/
def checkBins (state : DelayState) : (todo b : Nat) → (prevBinEdge tokensCount : UInt32) → Option UInt32
  | 0, _, _, tokensCount => some tokensCount
  | todo + 1, b, prevBinEdge, tokensCount =>
    if prevBinEdge ≥ state.histogramEdges b ∧ b > 0 then none
    else checkBins state todo (b + 1) (state.histogramEdges b) (tokensCount + state.histogram b)

def paddingMachineStateIsValid : Bool :=
  if state.histogramLen = 0 then true
  else if state.histogramLen < 2 then false
  else match checkBins state state.histogramLen 0 0 0 with
    | none => false
    | some tokensCount => tokensCount = state.histogramTotalTokens

/-! ## What validity gives -/

theorem checkBins_edges {state : DelayState} {todo b : Nat} {prev count total : UInt32}
    (h : checkBins state todo b prev count = some total) {i : Nat} (hi : b < i) (hlt : i < b + todo) :
    state.histogramEdges (i - 1) < state.histogramEdges i := by
  induction todo generalizing b prev count with
  | zero => omega
  | succ todo ih =>
    rw [checkBins] at h
    split at h
    · cases h
    · by_cases hnext : i = b + 1
      · subst hnext
        rcases todo with _ | todo
        · omega
        · rw [checkBins] at h
          split at h
          · cases h
          next hedge => simpa [UInt32.not_le] using hedge
      · exact ih h (by omega) (by omega)

theorem valid_len {state : DelayState} (h : paddingMachineStateIsValid state = true) (hlen : state.histogramLen ≠ 0) :
    2 ≤ state.histogramLen := by
  unfold paddingMachineStateIsValid at h
  split at h
  · contradiction
  · split at h
    · cases h
    · omega

theorem valid_edges {state : DelayState} (h : paddingMachineStateIsValid state = true) {b : Nat}
    (hb : b + 1 < state.histogramLen) : state.histogramEdges b < state.histogramEdges (b + 1) := by
  unfold paddingMachineStateIsValid at h
  split at h
  · omega
  · split at h
    · cases h
    · split at h
      · cases h
      next hcheck => exact checkBins_edges hcheck (show 0 < b + 1 by omega) (by omega)

/-- The edges of an accepted state increase over any distance. -/
theorem valid_edges_lt {state : DelayState} (h : paddingMachineStateIsValid state = true) {b c' : Nat}
    (hlt : b < c') (hc : c' < state.histogramLen) : state.histogramEdges b < state.histogramEdges c' := by
  induction c' with
  | zero => omega
  | succ c' ih =>
    have hstep := valid_edges h hc
    by_cases heq : b = c'
    · subst heq
      exact hstep
    · exact UInt32.lt_trans (ih (by omega) (by omega)) hstep

/-! ## The bounds of a bin -/

/-- The part of `circpad_machine_runtime_t` that the histogram functions use; `none` is a null pointer, and a copy of
the histogram is as long as the state's. -/
structure Runtime where
  histogram : Option (Nat → UInt32)
  chosenBin : Nat
  rttEstimateUsec : UInt32

variable (mi : Runtime)

def rttAddUsec : UInt32 :=
  if state.useRttEstimate then mi.rttEstimateUsec else 0

def circpadHistogramBinToUsec (bin : Int) : UInt32 :=
  if bin > state.infinityBin then CIRCPAD_DELAY_INFINITE
  else state.histogramEdges bin.toNat + rttAddUsec state mi

def histogramGetBinUpperBound (bin : Int) : UInt32 :=
  circpadHistogramBinToUsec state mi (bin + 1) - 1

theorem binToUsec_of_lt {state : DelayState} {mi : Runtime} {b : Nat} (hb : b < state.histogramLen) :
    circpadHistogramBinToUsec state mi b = state.histogramEdges b + rttAddUsec state mi := by
  have : ¬(b : Int) > state.infinityBin := by
    unfold DelayState.infinityBin
    omega
  rw [circpadHistogramBinToUsec, if_neg this, Int.toNat_natCast]

/-- Every edge and the estimate together fit the 32 bits. -/
def EstimateFits : Prop :=
  ∀ b < state.histogramLen, (state.histogramEdges b).toNat + (rttAddUsec state mi).toNat < 2 ^ 32

theorem binToUsec_toNat {state : DelayState} {mi : Runtime} (hfit : EstimateFits state mi) {b : Nat}
    (hb : b < state.histogramLen) :
    (circpadHistogramBinToUsec state mi b).toNat =
      (state.histogramEdges b).toNat + (rttAddUsec state mi).toNat := by
  rw [binToUsec_of_lt hb, UInt32.toNat_add, Nat.mod_eq_of_lt (hfit b hb)]

end Badnet.Circpad

/-
  Badnet.Circpad.TokenRemoval — which token a cell without padding takes (`circpad_machine_remove_token`).

  A delay is looked up among the bins, and each strategy takes a token from a bin that it finds from there. The lookup
  adds the RTT estimate to upper bounds that have it already; where that does not matter (`Unshifted`) each strategy
  takes the token that it should (`tokens_taken_as_named`). A third bin may have a nearer midpoint than the two that are
  compared (`some_tokens_are_taken_elsewhere`).
-/

import Badnet.Circpad.SampleDelay

namespace Badnet.Circpad

/-! ## The searches -/

/-- The loop of the lookup; after the last bin but the infinity bin it answers that one. -/
def usecToBinFrom (state : DelayState) (mi : Runtime) (usec : UInt32) : (todo bin : Nat) → Int
  | 0, _ => state.infinityBin - 1
  | todo + 1, bin =>
    if usec ≤ histogramGetBinUpperBound state mi bin + rttAddUsec state mi then bin
    else usecToBinFrom state mi usec todo (bin + 1)

variable (state : DelayState) (mi : Runtime)

def circpadHistogramUsecToBin (usec : UInt32) : Int :=
  usecToBinFrom state mi usec (state.histogramLen - 1) 0

def higherFrom (state : DelayState) (mi : Runtime) (own : Nat → UInt32) (target : UInt32) : (todo bin : Nat) → Int
  | 0, _ => state.histogramLen
  | todo + 1, bin =>
    if own bin ≠ 0 ∧ histogramGetBinUpperBound state mi bin ≥ target then bin
    else higherFrom state mi own target todo (bin + 1)

variable (own : Nat → UInt32) (target : UInt32)

def circpadMachineFirstHigherIndex : Int :=
  let bin := (circpadHistogramUsecToBin state mi target).toNat
  higherFrom state mi own target (state.histogramLen - 1 - bin) bin

def lowerFrom (state : DelayState) (mi : Runtime) (own : Nat → UInt32) (target : UInt32) : (bin : Nat) → Int
  | 0 => if own 0 ≠ 0 ∧ circpadHistogramBinToUsec state mi 0 ≤ target then 0 else -1
  | bin + 1 =>
    if own (bin + 1) ≠ 0 ∧ circpadHistogramBinToUsec state mi (bin + 1 : Nat) ≤ target then (bin + 1 : Nat)
    else lowerFrom state mi own target bin

def circpadMachineFirstLowerIndex : Int :=
  lowerFrom state mi own target (circpadHistogramUsecToBin state mi target).toNat

def circpadGetHistogramBinMidpoint (bin : Int) : UInt32 :=
  let leftBound := circpadHistogramBinToUsec state mi bin
  let rightBound := histogramGetBinUpperBound state mi bin
  leftBound + (rightBound - leftBound) / 2

/-! ## The strategies -/

/-- The histogram after a removal, and whether a `BUG` is reported. -/
structure Removed where
  own : Nat → UInt32
  bug : Bool

/-- `ENSURE_BIN_CAPACITY` and the decrement. -/
def removeFrom (bin : Int) : Removed :=
  if own bin.toNat = 0 then ⟨own, true⟩ else ⟨takeToken own bin.toNat, false⟩

/-- The bin of a search, where it is one of the histogram but not the infinity bin. -/
def removeFound (bin : Int) : Removed :=
  if bin ≥ 0 ∧ bin < state.infinityBin then removeFrom own bin else ⟨own, false⟩

def circpadMachineRemoveHigherToken :
    Removed := removeFound state own (circpadMachineFirstHigherIndex state mi own target)

def circpadMachineRemoveLowerToken :
    Removed := removeFound state own (circpadMachineFirstLowerIndex state mi own target)

/-- The nearer of two bins by their midpoints; the lower one on a tie. -/
def nearerMidpoint (lower higher : Int) : Int :=
  let lowerUsec := circpadGetHistogramBinMidpoint state mi lower
  let higherUsec := circpadGetHistogramBinMidpoint state mi higher
  if target < lowerUsec then lower
  else if target > higherUsec then higher
  else if target - lowerUsec > higherUsec - target then higher
  else lower

def circpadMachineRemoveClosestToken (useUsec : Bool) : Removed :=
  let lower := circpadMachineFirstLowerIndex state mi own target
  let higher := circpadMachineFirstHigherIndex state mi own target
  let current := circpadHistogramUsecToBin state mi target
  if lower > current ∨ higher < current then ⟨own, true⟩
  else if higher = state.histogramLen ∧ lower = -1 then ⟨own, false⟩
  else if higher = state.histogramLen then removeFrom own lower
  else if lower = -1 then removeFrom own higher
  else if useUsec then removeFrom own (nearerMidpoint state mi target lower higher)
  else removeFrom own (if current - lower > higher - current then higher else lower)

def circpadMachineRemoveExact : Removed :=
  let bin := (circpadHistogramUsecToBin state mi target).toNat
  ⟨if own bin > 0 then takeToken own bin else own, false⟩

/-- The `switch` over the state's strategy. -/
def removeByStrategy (strategy : Removal) (state : DelayState) (mi : Runtime) (own : Nat → UInt32)
    (target : UInt32) : Removed :=
  match strategy with
  | .closestUsec => circpadMachineRemoveClosestToken state mi own target true
  | .closest => circpadMachineRemoveClosestToken state mi own target false
  | .lower => circpadMachineRemoveLowerToken state mi own target
  | .higher => circpadMachineRemoveHigherToken state mi own target
  | .exact => circpadMachineRemoveExact state mi own target
  | .none => ⟨own, true⟩

/-! ## What the searches answer -/

section

variable {state : DelayState} {mi : Runtime} {own : Nat → UInt32} {target : UInt32}

/-- A bin that is not the infinity bin. -/
def FiniteBin (state : DelayState) (b : Nat) : Prop := b + 1 < state.histogramLen

theorem usecToBinFrom_spec {todo b : Nat} (htodo : b + todo + 1 = state.histogramLen)
    (hpos : 0 < todo) :
    ∃ n : Nat, usecToBinFrom state mi target todo b = (n : Int) ∧ FiniteBin state n ∧
      (∀ i : Nat, b ≤ i → i < n → ¬target ≤ histogramGetBinUpperBound state mi i + rttAddUsec state mi) ∧
      (target ≤ histogramGetBinUpperBound state mi n + rttAddUsec state mi ∨ n + 2 = state.histogramLen) := by
  induction todo generalizing b with
  | zero => omega
  | succ todo ih =>
    rw [usecToBinFrom]
    split
    next hle => exact ⟨b, rfl, by unfold FiniteBin; omega, fun i hi hlt => by omega, .inl hle⟩
    next hnot =>
      rcases Nat.eq_zero_or_pos todo with rfl | hmore
      · refine ⟨b, ?_, by unfold FiniteBin; omega, fun i hi hlt => by omega, .inr (by omega)⟩
        rw [usecToBinFrom, DelayState.infinityBin]
        omega
      · obtain ⟨n, heq, hfin, hall, hor⟩ := ih (b := b + 1) (by omega) hmore
        refine ⟨n, heq, hfin, fun i hi hlt => ?_, hor⟩
        by_cases hib : i = b
        · subst hib
          exact hnot
        · exact hall i (by omega) hlt

theorem usecToBin_spec (hlen : 2 ≤ state.histogramLen) :
    ∃ n : Nat, circpadHistogramUsecToBin state mi target = (n : Int) ∧ FiniteBin state n ∧
      (∀ i : Nat, i < n → ¬target ≤ histogramGetBinUpperBound state mi i + rttAddUsec state mi) ∧
      (target ≤ histogramGetBinUpperBound state mi n + rttAddUsec state mi ∨ n + 2 = state.histogramLen) := by
  obtain ⟨n, heq, hfin, hall, hor⟩ :=
    @usecToBinFrom_spec state mi target (state.histogramLen - 1) 0 (by omega) (by omega)
  exact ⟨n, heq, hfin, fun i hi => hall i (Nat.zero_le i) hi, hor⟩

/-- A bin with tokens whose upper bound is not below the time. -/
def Reaches (state : DelayState) (mi : Runtime) (own : Nat → UInt32) (target : UInt32) (b : Nat) : Prop :=
  own b ≠ 0 ∧ histogramGetBinUpperBound state mi b ≥ target

/-- A bin with tokens whose lower bound is not above the time. -/
def Starts (state : DelayState) (mi : Runtime) (own : Nat → UInt32) (target : UInt32) (b : Nat) : Prop :=
  own b ≠ 0 ∧ circpadHistogramBinToUsec state mi b ≤ target

/-- The first bin from `b` on that reaches the time. -/
structure HigherAt (state : DelayState) (mi : Runtime) (own : Nat → UInt32) (target : UInt32) (b h : Nat) : Prop where
  ge : b ≤ h
  finite : FiniteBin state h
  reaches : Reaches state mi own target h
  first : ∀ i : Nat, b ≤ i → i < h → ¬Reaches state mi own target i

/-- The last bin up to `b` that starts at the time or before it. -/
structure LowerAt (state : DelayState) (mi : Runtime) (own : Nat → UInt32) (target : UInt32) (b l : Nat) : Prop where
  le : l ≤ b
  starts : Starts state mi own target l
  last : ∀ i : Nat, l < i → i ≤ b → ¬Starts state mi own target i

theorem LowerAt.finite {b l : Nat} (hl : LowerAt state mi own target b l) (hfin : FiniteBin state b) :
    FiniteBin state l := Nat.lt_of_le_of_lt (Nat.succ_le_succ hl.le) hfin

theorem higherFrom_spec {todo b : Nat} (htodo : b + todo + 1 = state.histogramLen) :
    (∃ h : Nat, higherFrom state mi own target todo b = (h : Int) ∧ HigherAt state mi own target b h) ∨
    (higherFrom state mi own target todo b = state.histogramLen ∧
      ∀ i : Nat, b ≤ i → FiniteBin state i → ¬Reaches state mi own target i) := by
  induction todo generalizing b with
  | zero => exact .inr ⟨rfl, fun i hi hfin => by unfold FiniteBin at hfin; omega⟩
  | succ todo ih =>
    rw [higherFrom]
    split
    next hreach => exact .inl ⟨b, rfl, Nat.le_refl b, by unfold FiniteBin; omega, hreach, fun i hi hlt => by omega⟩
    next hnot =>
      have hstep : ∀ i : Nat, b ≤ i → (b + 1 ≤ i → ¬Reaches state mi own target i) → ¬Reaches state mi own target i := by
        intro i hi hlater
        by_cases hib : i = b
        · subst hib
          exact hnot
        · exact hlater (by omega)
      rcases ih (b := b + 1) (by omega) with ⟨n, heq, hle, hfin, hreach, hall⟩ | ⟨heq, hall⟩
      · exact .inl ⟨n, heq, by omega, hfin, hreach, fun i hi hlt => hstep i hi fun hi' => hall i hi' hlt⟩
      · exact .inr ⟨heq, fun i hi hfin => hstep i hi fun hi' => hall i hi' hfin⟩

theorem lowerFrom_spec {b : Nat} :
    (∃ l : Nat, lowerFrom state mi own target b = (l : Int) ∧ LowerAt state mi own target b l) ∨
    (lowerFrom state mi own target b = -1 ∧ ∀ i : Nat, i ≤ b → ¬Starts state mi own target i) := by
  induction b with
  | zero =>
    rw [lowerFrom]
    split
    next hstart => exact .inl ⟨0, rfl, Nat.le_refl 0, hstart, fun i hi hle => by omega⟩
    next hnot =>
      refine .inr ⟨rfl, fun i hi => ?_⟩
      obtain rfl := Nat.le_zero.mp hi
      exact hnot
  | succ b ih =>
    rw [lowerFrom]
    split
    next hstart => exact .inl ⟨b + 1, rfl, Nat.le_refl _, hstart, fun i hi hle => by omega⟩
    next hnot =>
      have hstep : ∀ i : Nat, i ≤ b + 1 → (i ≤ b → ¬Starts state mi own target i) → ¬Starts state mi own target i := by
        intro i hi hlater
        by_cases hib : i = b + 1
        · subst hib
          exact hnot
        · exact hlater (by omega)
      rcases ih with ⟨n, heq, hle, hstart, hall⟩ | ⟨heq, hall⟩
      · exact .inl ⟨n, heq, by omega, hstart, fun i hi hle' => hstep i hle' fun hi' => hall i hi hi'⟩
      · exact .inr ⟨heq, fun i hi => hstep i hi fun hi' => hall i hi'⟩

/-! ## No report, and no token of the infinity bin -/

/-- What a removal may do: nothing, or take a token that a bin other than the infinity bin has. -/
def TakesAtMostOne (state : DelayState) (own : Nat → UInt32) (r : Removed) : Prop :=
  r.bug = false ∧ (r.own = own ∨ ∃ b, FiniteBin state b ∧ own b ≠ 0 ∧ r.own = takeToken own b)

theorem removeFrom_nat {b : Nat} (hne : own b ≠ 0) : removeFrom own (b : Int) = ⟨takeToken own b, false⟩ := by
  rw [removeFrom, Int.toNat_natCast, if_neg hne]

theorem removeFound_nat {b : Nat} (hfin : FiniteBin state b) (hne : own b ≠ 0) :
    removeFound state own (b : Int) = ⟨takeToken own b, false⟩ := by
  unfold FiniteBin at hfin
  rw [removeFound, if_pos ⟨by omega, by unfold DelayState.infinityBin; omega⟩, removeFrom_nat hne]

theorem removeFound_out {bin : Int} (hout : bin < 0 ∨ bin = state.histogramLen) :
    removeFound state own bin = ⟨own, false⟩ := by
  rw [removeFound, if_neg]
  unfold DelayState.infinityBin
  omega

theorem takesAtMostOne_take {b : Nat} (hfin : FiniteBin state b) (hne : own b ≠ 0) :
    TakesAtMostOne state own ⟨takeToken own b, false⟩ := ⟨rfl, .inr ⟨b, hfin, hne, rfl⟩⟩

theorem takesAtMostOne_nothing : TakesAtMostOne state own ⟨own, false⟩ := ⟨rfl, .inl rfl⟩

/-- The midpoints decide between the two bins. -/
theorem nearerMidpoint_or (l h : Int) :
    nearerMidpoint state mi target l h = l ∨ nearerMidpoint state mi target l h = h := by
  unfold nearerMidpoint
  dsimp only
  split
  · exact .inl rfl
  · split
    · exact .inr rfl
    · split
      · exact .inr rfl
      · exact .inl rfl

section found

variable {b : Nat} (hfound : circpadHistogramUsecToBin state mi target = (b : Int)) (hfin : FiniteBin state b)
include hfound

theorem firstLower_spec :
    (∃ l : Nat, circpadMachineFirstLowerIndex state mi own target = (l : Int) ∧ LowerAt state mi own target b l) ∨
    (circpadMachineFirstLowerIndex state mi own target = -1 ∧ ∀ i : Nat, i ≤ b → ¬Starts state mi own target i) := by
  rw [circpadMachineFirstLowerIndex, hfound, Int.toNat_natCast]
  exact lowerFrom_spec

include hfin

theorem firstHigher_spec :
    (∃ h : Nat, circpadMachineFirstHigherIndex state mi own target = (h : Int) ∧ HigherAt state mi own target b h) ∨
    (circpadMachineFirstHigherIndex state mi own target = state.histogramLen ∧
      ∀ i : Nat, b ≤ i → FiniteBin state i → ¬Reaches state mi own target i) := by
  rw [circpadMachineFirstHigherIndex, hfound, Int.toNat_natCast]
  unfold FiniteBin at hfin
  exact higherFrom_spec (by omega)

theorem removeHigher_cases :
    (∃ h, HigherAt state mi own target b h ∧
      circpadMachineRemoveHigherToken state mi own target = ⟨takeToken own h, false⟩) ∨
    ((∀ i, b ≤ i → FiniteBin state i → ¬Reaches state mi own target i) ∧
      circpadMachineRemoveHigherToken state mi own target = ⟨own, false⟩) := by
  rw [circpadMachineRemoveHigherToken]
  rcases @firstHigher_spec state mi own target b hfound hfin with ⟨h, heq, hh⟩ | ⟨heq, hno⟩
  · rw [heq, removeFound_nat hh.finite hh.reaches.1]
    exact .inl ⟨h, hh, rfl⟩
  · rw [removeFound_out (.inr heq)]
    exact .inr ⟨hno, rfl⟩

theorem removeLower_cases :
    (∃ l, LowerAt state mi own target b l ∧
      circpadMachineRemoveLowerToken state mi own target = ⟨takeToken own l, false⟩) ∨
    ((∀ i : Nat, i ≤ b → ¬Starts state mi own target i) ∧
      circpadMachineRemoveLowerToken state mi own target = ⟨own, false⟩) := by
  rw [circpadMachineRemoveLowerToken]
  rcases @firstLower_spec state mi own target b hfound with ⟨l, heq, hl⟩ | ⟨heq, hno⟩
  · rw [heq, removeFound_nat (hl.finite hfin) hl.starts.1]
    exact .inl ⟨l, hl, rfl⟩
  · rw [removeFound_out (.inl (by omega))]
    exact .inr ⟨hno, rfl⟩

/-- With a bin on each side one of them is taken, and with a bin on one side that one. -/
theorem removeClosest_cases (useUsec : Bool) :
    (∃ l h, LowerAt state mi own target b l ∧ HigherAt state mi own target b h ∧ ∃ n : Nat, (n = l ∨ n = h) ∧
      (n : Int) = (if useUsec then nearerMidpoint state mi target l h else if b - l > h - b then (h : Int) else (l : Int)) ∧
      circpadMachineRemoveClosestToken state mi own target useUsec = ⟨takeToken own n, false⟩) ∨
    (∃ l, LowerAt state mi own target b l ∧ (∀ i, b ≤ i → FiniteBin state i → ¬Reaches state mi own target i) ∧
      circpadMachineRemoveClosestToken state mi own target useUsec = ⟨takeToken own l, false⟩) ∨
    (∃ h, HigherAt state mi own target b h ∧ (∀ i, i ≤ b → ¬Starts state mi own target i) ∧
      circpadMachineRemoveClosestToken state mi own target useUsec = ⟨takeToken own h, false⟩) ∨
    ((∀ i, i ≤ b → ¬Starts state mi own target i) ∧ (∀ i, b ≤ i → FiniteBin state i → ¬Reaches state mi own target i) ∧
      circpadMachineRemoveClosestToken state mi own target useUsec = ⟨own, false⟩) := by
  have hbin := hfin
  unfold FiniteBin at hbin
  rcases @firstLower_spec state mi own target b hfound with ⟨l, hleq, hl⟩ | ⟨hleq, hnolow⟩ <;>
    rcases @firstHigher_spec state mi own target b hfound hfin with ⟨h, hheq, hh⟩ | ⟨hheq, hnohigh⟩ <;>
    simp only [circpadMachineRemoveClosestToken, hfound, hleq, hheq]
  · have hle := hl.le
    have hge := hh.ge
    have hhbin := hh.finite
    unfold FiniteBin at hhbin
    rw [if_neg (by omega), if_neg (by omega), if_neg (by omega), if_neg (by omega)]
    have hlower := removeFrom_nat hl.starts.1
    have hhigher := removeFrom_nat hh.reaches.1
    refine .inl ⟨l, h, hl, hh, ?_⟩
    cases useUsec
    · simp only [Bool.false_eq_true, if_false]
      by_cases hcloser : b - l > h - b
      · rw [if_pos hcloser, if_pos (by omega)]
        exact ⟨h, .inr rfl, rfl, hhigher⟩
      · rw [if_neg hcloser, if_neg (by omega)]
        exact ⟨l, .inl rfl, rfl, hlower⟩
    · simp only [if_true]
      rcases @nearerMidpoint_or state mi target l h with heq | heq <;> rw [heq]
      · exact ⟨l, .inl rfl, rfl, hlower⟩
      · exact ⟨h, .inr rfl, rfl, hhigher⟩
  · have hle := hl.le
    rw [if_neg (by omega), if_neg (by omega), if_pos trivial, removeFrom_nat hl.starts.1]
    exact .inr (.inl ⟨l, hl, hnohigh, rfl⟩)
  · have hge := hh.ge
    have hhbin := hh.finite
    unfold FiniteBin at hhbin
    rw [if_neg (by omega), if_neg (by omega), if_neg (by omega), if_pos trivial, removeFrom_nat hh.reaches.1]
    exact .inr (.inr (.inl ⟨h, hh, hnolow, rfl⟩))
  · rw [if_neg (by omega), if_pos ⟨trivial, trivial⟩]
    exact .inr (.inr (.inr ⟨hnolow, hnohigh, rfl⟩))

theorem removeClosest_takesAtMostOne (useUsec : Bool) :
    TakesAtMostOne state own (circpadMachineRemoveClosestToken state mi own target useUsec) := by
  rcases @removeClosest_cases state mi own target b hfound hfin useUsec with
    ⟨l, h, hl, hh, n, rfl | rfl, -, heq⟩ | ⟨l, hl, -, heq⟩ | ⟨h, hh, -, heq⟩ | ⟨-, -, heq⟩ <;> rw [heq]
  · exact takesAtMostOne_take (hl.finite hfin) hl.starts.1
  · exact takesAtMostOne_take hh.finite hh.reaches.1
  · exact takesAtMostOne_take (hl.finite hfin) hl.starts.1
  · exact takesAtMostOne_take hh.finite hh.reaches.1
  · exact takesAtMostOne_nothing

end found

theorem remove_takesAtMostOne (hlen : 2 ≤ state.histogramLen) {strategy : Removal} (hstrategy : strategy ≠ .none) :
    TakesAtMostOne state own (removeByStrategy strategy state mi own target) := by
  obtain ⟨b, hfound, hfin, -, -⟩ := @usecToBin_spec state mi target hlen
  cases strategy with
  | none => exact absurd rfl hstrategy
  | higher =>
    rcases @removeHigher_cases state mi own target b hfound hfin with ⟨h, hh, heq⟩ | ⟨-, heq⟩ <;>
      rw [removeByStrategy, heq]
    · exact takesAtMostOne_take hh.finite hh.reaches.1
    · exact takesAtMostOne_nothing
  | lower =>
    rcases @removeLower_cases state mi own target b hfound hfin with ⟨l, hl, heq⟩ | ⟨-, heq⟩ <;>
      rw [removeByStrategy, heq]
    · exact takesAtMostOne_take (hl.finite hfin) hl.starts.1
    · exact takesAtMostOne_nothing
  | closest => exact removeClosest_takesAtMostOne hfound hfin false
  | closestUsec => exact removeClosest_takesAtMostOne hfound hfin true
  | exact =>
    rw [removeByStrategy, circpadMachineRemoveExact, hfound, Int.toNat_natCast]
    split
    next hpos => exact takesAtMostOne_take hfin fun hz => by rw [hz] at hpos; exact absurd hpos (by decide)
    · exact takesAtMostOne_nothing

/-! ## The bins on the line of times -/

section

variable (hvalid : paddingMachineStateIsValid state = true) (hfit : EstimateFits state mi)
include hvalid hfit

theorem upper_succ {b : Nat} (hb : FiniteBin state b) :
    (histogramGetBinUpperBound state mi b).toNat + 1 = (circpadHistogramBinToUsec state mi (b + 1 : Nat)).toNat := by
  have hedge := UInt32.lt_iff_toNat_lt.mp (valid_edges hvalid hb)
  have hlow := binToUsec_toNat hfit hb
  have hpos : 1 ≤ circpadHistogramBinToUsec state mi (b + 1 : Nat) := by
    rw [UInt32.le_iff_toNat_le, hlow, UInt32.toNat_one]
    omega
  have hupper : histogramGetBinUpperBound state mi b = circpadHistogramBinToUsec state mi (b + 1 : Nat) - 1 := by
    rw [histogramGetBinUpperBound]
    norm_cast
  rw [hupper, UInt32.toNat_sub_of_le _ _ hpos, UInt32.toNat_one]
  rw [UInt32.le_iff_toNat_le, UInt32.toNat_one] at hpos
  omega

theorem lower_lt {b i : Nat} (hlt : b < i) (hi : i < state.histogramLen) :
    (circpadHistogramBinToUsec state mi b).toNat < (circpadHistogramBinToUsec state mi i).toNat := by
  rw [binToUsec_toNat hfit hi, binToUsec_toNat hfit (by omega)]
  exact Nat.add_lt_add_right (UInt32.lt_iff_toNat_lt.mp (valid_edges_lt hvalid hlt hi)) _

/-- The upper bound of a bin is below the lower bounds of the bins after it. -/
theorem upper_lt_lower {b i : Nat} (hlt : b < i) (hi : i < state.histogramLen) :
    (histogramGetBinUpperBound state mi b).toNat < (circpadHistogramBinToUsec state mi i).toNat := by
  have hsucc := upper_succ hvalid hfit (show FiniteBin state b by unfold FiniteBin; omega)
  by_cases heq : i = b + 1
  · subst heq
    omega
  · have := lower_lt hvalid hfit (show b + 1 < i by omega) hi
    omega

theorem lower_le_upper {b : Nat} (hb : FiniteBin state b) :
    (circpadHistogramBinToUsec state mi b).toNat ≤ (histogramGetBinUpperBound state mi b).toNat := by
  have := upper_succ hvalid hfit hb
  have := lower_lt hvalid hfit (show b < b + 1 by omega) hb
  omega

theorem midpoint_between {b : Nat} (hb : FiniteBin state b) :
    (circpadHistogramBinToUsec state mi b).toNat ≤ (circpadGetHistogramBinMidpoint state mi b).toNat ∧
      (circpadGetHistogramBinMidpoint state mi b).toNat ≤ (histogramGetBinUpperBound state mi b).toNat := by
  have hle := lower_le_upper hvalid hfit hb
  have hlt := (histogramGetBinUpperBound state mi b).toNat_lt
  have hmid : (circpadGetHistogramBinMidpoint state mi b).toNat =
      (circpadHistogramBinToUsec state mi b).toNat +
        ((histogramGetBinUpperBound state mi b).toNat - (circpadHistogramBinToUsec state mi b).toNat) / 2 := by
    rw [circpadGetHistogramBinMidpoint, UInt32.toNat_add, UInt32.toNat_div,
      UInt32.toNat_sub_of_le _ _ (UInt32.le_iff_toNat_le.mpr hle)]
    exact Nat.mod_eq_of_lt (by simp only [UInt32.reduceToNat]; omega)
  omega

end

/-! ## The bin that a time belongs to -/

/-- The bin holds the time, or it is the first one and the time before it, or the last one and the time after it. -/
structure FindsBin (state : DelayState) (mi : Runtime) (target : UInt32) (b : Nat) : Prop where
  finite : FiniteBin state b
  holds : (circpadHistogramBinToUsec state mi b ≤ target ∧ target ≤ histogramGetBinUpperBound state mi b) ∨
    (b = 0 ∧ target < circpadHistogramBinToUsec state mi 0) ∨
    (b + 2 = state.histogramLen ∧ histogramGetBinUpperBound state mi b < target)

/-- The estimate, added once more to an upper bound, does not change whether the time is past it. -/
def Unshifted (state : DelayState) (mi : Runtime) (target : UInt32) : Prop :=
  ∀ b : Nat, b + 2 < state.histogramLen →
    (target ≤ histogramGetBinUpperBound state mi b + rttAddUsec state mi ↔ target ≤ histogramGetBinUpperBound state mi b)

/-- All bins before the found one end before the time, and all bins after it start after the time. -/
structure Around (state : DelayState) (mi : Runtime) (target : UInt32) (b : Nat) : Prop where
  before : ∀ i : Nat, i < b → histogramGetBinUpperBound state mi i < target
  after : ∀ i : Nat, b < i → FiniteBin state i → target < circpadHistogramBinToUsec state mi i

theorem usecToBin_finds (hvalid : paddingMachineStateIsValid state = true) (hlen : 2 ≤ state.histogramLen)
    (hfit : EstimateFits state mi) (hun : Unshifted state mi target) :
    ∃ n : Nat, circpadHistogramUsecToBin state mi target = (n : Int) ∧ FindsBin state mi target n ∧
      Around state mi target n := by
  obtain ⟨n, heq, hfin, hbefore, hreached⟩ := @usecToBin_spec state mi target hlen
  have hn := hfin
  unfold FiniteBin at hn
  have hprev : ∀ i : Nat, i < n → histogramGetBinUpperBound state mi i < target := fun i hi =>
    UInt32.not_le.mp fun hle => hbefore i hi ((hun i (by omega)).mpr hle)
  have hreach : target ≤ histogramGetBinUpperBound state mi n ∨ n + 2 = state.histogramLen := by
    rcases hreached with hle | hlast
    · by_cases hlast : n + 2 = state.histogramLen
      · exact .inr hlast
      · exact .inl ((hun n (by omega)).mp hle)
    · exact .inr hlast
  refine ⟨n, heq, ⟨hfin, ?_⟩, hprev, fun i hi hifin => ?_⟩
  · by_cases hlow : circpadHistogramBinToUsec state mi n ≤ target
    · by_cases hup : target ≤ histogramGetBinUpperBound state mi n
      · exact .inl ⟨hlow, hup⟩
      · exact .inr (.inr ⟨hreach.resolve_left hup, UInt32.not_le.mp hup⟩)
    · rcases n with _ | n
      · exact .inr (.inl ⟨rfl, UInt32.not_le.mp hlow⟩)
      · have hup := UInt32.lt_iff_toNat_lt.mp (hprev n (Nat.lt_succ_self n))
        have hsucc := upper_succ hvalid hfit (show FiniteBin state n by unfold FiniteBin; omega)
        rw [UInt32.le_iff_toNat_le] at hlow
        omega
  · unfold FiniteBin at hifin
    have hup := UInt32.le_iff_toNat_le.mp (hreach.resolve_right (by omega))
    have := upper_lt_lower hvalid hfit hi (by omega)
    exact UInt32.lt_iff_toNat_lt.mpr (by omega)

/-! ## What each strategy is for -/

/-- The first bin with tokens that ends at the time or after it. -/
def IsFirstHigher (state : DelayState) (mi : Runtime) (own : Nat → UInt32) (target : UInt32) (b : Nat) : Prop :=
  FiniteBin state b ∧ Reaches state mi own target b ∧ ∀ i : Nat, i < b → ¬Reaches state mi own target i

/-- The last bin with tokens that starts at the time or before it. -/
def IsFirstLower (state : DelayState) (mi : Runtime) (own : Nat → UInt32) (target : UInt32) (b : Nat) : Prop :=
  FiniteBin state b ∧ Starts state mi own target b ∧
    ∀ i : Nat, b < i → FiniteBin state i → ¬Starts state mi own target i

def indexDistance (b i : Nat) : Nat := (b - i) + (i - b)

def midpointDistance (state : DelayState) (mi : Runtime) (target : UInt32) (b : Nat) : Nat :=
  indexDistance (circpadGetHistogramBinMidpoint state mi b).toNat target.toNat

/-- The bin that a strategy names for a time. -/
def Named (strategy : Removal) (state : DelayState) (mi : Runtime) (own : Nat → UInt32) (target : UInt32) (b : Nat) :
    Prop :=
  match strategy with
  | .higher => IsFirstHigher state mi own target b
  | .lower => IsFirstLower state mi own target b
  | .closest => FiniteBin state b ∧ own b ≠ 0 ∧ ∃ i, FindsBin state mi target i ∧
      ∀ j, FiniteBin state j → own j ≠ 0 → indexDistance b i < indexDistance j i ∨
        (indexDistance b i = indexDistance j i ∧ b ≤ j)
  | .closestUsec =>
    (IsFirstLower state mi own target b ∧ ∀ h, IsFirstHigher state mi own target h →
      midpointDistance state mi target b ≤ midpointDistance state mi target h) ∨
    (IsFirstHigher state mi own target b ∧ ∀ l, IsFirstLower state mi own target l →
      midpointDistance state mi target b < midpointDistance state mi target l)
  | .exact => FindsBin state mi target b ∧ own b ≠ 0
  | .none => False

/-- A token is taken from a bin with the property, or nothing where no bin has it. -/
def Takes (own own' : Nat → UInt32) (P : Nat → Prop) : Prop :=
  (∃ b, P b ∧ own' = takeToken own b) ∨ ((∀ b, ¬P b) ∧ own' = own)

theorem IsFirstHigher.unique {b b' : Nat} (h : IsFirstHigher state mi own target b)
    (h' : IsFirstHigher state mi own target b') : b = b' := by
  obtain ⟨-, hreach, hall⟩ := h
  obtain ⟨-, hreach', hall'⟩ := h'
  have hnot : ¬b < b' := fun hlt => hall' b hlt hreach
  have hnot' : ¬b' < b := fun hlt => hall b' hlt hreach'
  omega

theorem IsFirstLower.unique {b b' : Nat} (h : IsFirstLower state mi own target b)
    (h' : IsFirstLower state mi own target b') : b = b' := by
  obtain ⟨hfin, hstart, hall⟩ := h
  obtain ⟨hfin', hstart', hall'⟩ := h'
  have hnot : ¬b < b' := fun hlt => hall b' hlt hfin' hstart'
  have hnot' : ¬b' < b := fun hlt => hall' b hlt hfin hstart
  omega

/-! ## What the searches find around the found bin -/

section around

variable {b : Nat}

section

variable (ha : Around state mi target b)
include ha

theorem Around.not_reaches (hno : ∀ i, b ≤ i → FiniteBin state i → ¬Reaches state mi own target i) (i : Nat)
    (hi : FiniteBin state i) : ¬Reaches state mi own target i := by
  by_cases hib : i < b
  · exact fun hreach => UInt32.not_le.mpr (ha.before i hib) hreach.2
  · exact hno i (by omega) hi

theorem Around.not_starts (hno : ∀ i, i ≤ b → ¬Starts state mi own target i) (i : Nat) (hi : FiniteBin state i) :
    ¬Starts state mi own target i := by
  by_cases hib : b < i
  · exact fun hstart => UInt32.not_le.mpr (ha.after i hib hi) hstart.2
  · exact hno i (by omega)

theorem Around.isFirstHigher {h : Nat} (hh : HigherAt state mi own target b h) :
    IsFirstHigher state mi own target h := by
  refine ⟨hh.finite, hh.reaches, fun i hi => ?_⟩
  by_cases hib : i < b
  · exact fun hreach => UInt32.not_le.mpr (ha.before i hib) hreach.2
  · exact hh.first i (by omega) hi

theorem Around.isFirstLower (hfin : FiniteBin state b) {l : Nat} (hl : LowerAt state mi own target b l) :
    IsFirstLower state mi own target l := by
  refine ⟨hl.finite hfin, hl.starts, fun i hi hifin => ?_⟩
  by_cases hib : b < i
  · exact fun hstart => UInt32.not_le.mpr (ha.after i hib hifin) hstart.2
  · exact hl.last i hi (by omega)

end

section

variable (ha : Around state mi target b) (hfinds : FindsBin state mi target b)
  (hvalid : paddingMachineStateIsValid state = true) (hfit : EstimateFits state mi)
include ha hfinds hvalid hfit

/-- A bin with tokens is met by the search downward or by the one upward. -/
theorem Around.met {j : Nat} (hj : FiniteBin state j) (hne : own j ≠ 0) :
    (j ≤ b ∧ Starts state mi own target j) ∨ (b ≤ j ∧ Reaches state mi own target j) := by
  have hwidth := lower_le_upper hvalid hfit hj
  rcases Nat.lt_trichotomy j b with hlt | heq | hgt
  · have := UInt32.lt_iff_toNat_lt.mp (ha.before j hlt)
    exact .inl ⟨by omega, hne, UInt32.le_iff_toNat_le.mpr (by omega)⟩
  · subst heq
    rcases hfinds.holds with ⟨hlow, -⟩ | ⟨rfl, hlt⟩ | ⟨-, hlt⟩
    · exact .inl ⟨Nat.le_refl j, hne, hlow⟩
    · have := UInt32.lt_iff_toNat_lt.mp hlt
      exact .inr ⟨Nat.le_refl 0, hne, UInt32.le_iff_toNat_le.mpr (Nat.le_of_lt (Nat.lt_of_lt_of_le this hwidth))⟩
    · have := UInt32.lt_iff_toNat_lt.mp hlt
      exact .inl ⟨Nat.le_refl j, hne, UInt32.le_iff_toNat_le.mpr (by omega)⟩
  · have := UInt32.lt_iff_toNat_lt.mp (ha.after j hgt hj)
    exact .inr ⟨by omega, hne, UInt32.le_iff_toNat_le.mpr (by omega)⟩

theorem Around.finds_unique {j : Nat} (hj : FindsBin state mi target j) : j = b := by
  have hb := hfinds.finite
  have hjfin := hj.finite
  have hwidth := lower_le_upper hvalid hfit hjfin
  have hholds := hj.holds
  simp only [UInt32.lt_iff_toNat_lt, UInt32.le_iff_toNat_le] at hholds
  unfold FiniteBin at hb hjfin
  rcases Nat.lt_trichotomy j b with hlt | heq | hgt
  · have := UInt32.lt_iff_toNat_lt.mp (ha.before j hlt)
    rcases hholds with ⟨-, hle⟩ | ⟨rfl, hless⟩ | ⟨hlast, -⟩
    · omega
    · exact absurd (Nat.lt_of_le_of_lt hwidth this) (Nat.lt_asymm hless)
    · omega
  · exact heq
  · have := UInt32.lt_iff_toNat_lt.mp (ha.after j hgt hj.finite)
    rcases hholds with ⟨hle, -⟩ | ⟨rfl, -⟩ | ⟨-, hless⟩ <;> omega

end

end around

theorem nearerMidpoint_eq (hvalid : paddingMachineStateIsValid state = true) (hfit : EstimateFits state mi) {l h : Nat}
    (hlh : l ≤ h) (hfin : FiniteBin state h) :
    nearerMidpoint state mi target l h =
      if midpointDistance state mi target h < midpointDistance state mi target l then (h : Int) else (l : Int) := by
  rcases Nat.eq_or_lt_of_le hlh with rfl | hlt
  · rw [if_neg (Nat.lt_irrefl _)]
    exact (nearerMidpoint_or _ _).elim id id
  · have hlfin : FiniteBin state l := by
      unfold FiniteBin at hfin ⊢
      omega
    obtain ⟨-, hl⟩ := midpoint_between hvalid hfit hlfin
    obtain ⟨hh, -⟩ := midpoint_between hvalid hfit hfin
    have hbetween := upper_lt_lower hvalid hfit hlt (show h < state.histogramLen by unfold FiniteBin at hfin; omega)
    unfold nearerMidpoint midpointDistance indexDistance
    simp only [UInt32.lt_iff_toNat_lt, gt_iff_lt]
    split
    · rw [if_neg (by omega)]
    next hlow =>
      split
      · rw [if_pos (by omega)]
      next hhigh =>
        rw [UInt32.toNat_sub_of_le _ _ (UInt32.le_iff_toNat_le.mpr (by omega)),
          UInt32.toNat_sub_of_le _ _ (UInt32.le_iff_toNat_le.mpr (by omega))]
        exact if_congr (by omega) rfl rfl

/-! ## Each strategy takes the token of the bin that it names -/

section named

variable {b : Nat}

theorem takes_exact (hvalid : paddingMachineStateIsValid state = true) (hfit : EstimateFits state mi)
    (hfound : circpadHistogramUsecToBin state mi target = (b : Int)) (hfinds : FindsBin state mi target b)
    (ha : Around state mi target b) :
    Takes own (circpadMachineRemoveExact state mi own target).own (Named .exact state mi own target) := by
  rw [circpadMachineRemoveExact, hfound, Int.toNat_natCast]
  by_cases hne : own b = 0
  · refine .inr ⟨fun j hj => ?_, if_neg (by rw [hne]; decide)⟩
    obtain rfl := ha.finds_unique hfinds hvalid hfit hj.1
    exact hj.2 hne
  · exact .inl ⟨b, ⟨hfinds, hne⟩, if_pos (UInt32.pos_iff_ne_zero.mpr hne)⟩

section

variable (hfound : circpadHistogramUsecToBin state mi target = (b : Int)) (hfinds : FindsBin state mi target b)
  (ha : Around state mi target b)
include hfound hfinds ha

theorem takes_higher :
    Takes own (circpadMachineRemoveHigherToken state mi own target).own (Named .higher state mi own target) := by
  rcases @removeHigher_cases state mi own target b hfound hfinds.finite with ⟨h, hh, heq⟩ | ⟨hno, heq⟩ <;> rw [heq]
  · exact .inl ⟨h, ha.isFirstHigher hh, rfl⟩
  · exact .inr ⟨fun i hi => ha.not_reaches hno i hi.1 hi.2.1, rfl⟩

theorem takes_lower :
    Takes own (circpadMachineRemoveLowerToken state mi own target).own (Named .lower state mi own target) := by
  rcases @removeLower_cases state mi own target b hfound hfinds.finite with ⟨l, hl, heq⟩ | ⟨hno, heq⟩ <;> rw [heq]
  · exact .inl ⟨l, ha.isFirstLower hfinds.finite hl, rfl⟩
  · exact .inr ⟨fun i hi => ha.not_starts hno i hi.1 hi.2.1, rfl⟩

end

section

variable (hvalid : paddingMachineStateIsValid state = true) (hfit : EstimateFits state mi)
  (hfound : circpadHistogramUsecToBin state mi target = (b : Int)) (hfinds : FindsBin state mi target b)
  (ha : Around state mi target b)
include hvalid hfit hfound hfinds ha

theorem takes_closest :
    Takes own (circpadMachineRemoveClosestToken state mi own target false).own
      (Named .closest state mi own target) := by
  have hmet : ∀ j, FiniteBin state j → own j ≠ 0 →
      (j ≤ b ∧ Starts state mi own target j) ∨ (b ≤ j ∧ Reaches state mi own target j) :=
    fun j hj hne => ha.met hfinds hvalid hfit hj hne
  unfold Named indexDistance
  rcases @removeClosest_cases state mi own target b hfound hfinds.finite false with
    ⟨l, h, hl, hh, n, hor, hn, heq⟩ | ⟨l, hl, hno, heq⟩ | ⟨h, hh, hno, heq⟩ | ⟨hnolow, hnohigh, heq⟩ <;> rw [heq]
  · have hside : ∀ j, FiniteBin state j → own j ≠ 0 → j ≤ l ∨ h ≤ j := by
      intro j hj hne
      by_contra hnot
      rcases hmet j hj hne with ⟨hjb, hstart⟩ | ⟨hjb, hreach⟩
      · exact hl.last j (by omega) hjb hstart
      · exact hh.first j hjb (by omega) hreach
    have hle := hl.le
    have hge := hh.ge
    simp only [Bool.false_eq_true, if_false] at hn
    have hfinite : FiniteBin state n ∧ own n ≠ 0 := by
      rcases hor with rfl | rfl
      · exact ⟨hl.finite hfinds.finite, hl.starts.1⟩
      · exact ⟨hh.finite, hh.reaches.1⟩
    refine .inl ⟨n, ⟨hfinite.1, hfinite.2, b, hfinds, fun j hj hne => ?_⟩, rfl⟩
    have := hside j hj hne
    split at hn <;> omega
  · refine .inl ⟨l, ⟨hl.finite hfinds.finite, hl.starts.1, b, hfinds, fun j hj hne => ?_⟩, rfl⟩
    have hle := hl.le
    rcases hmet j hj hne with ⟨hjb, hstart⟩ | ⟨hjb, hreach⟩
    · have : ¬l < j := fun hlt => hl.last j hlt hjb hstart
      omega
    · exact absurd hreach (hno j hjb hj)
  · refine .inl ⟨h, ⟨hh.finite, hh.reaches.1, b, hfinds, fun j hj hne => ?_⟩, rfl⟩
    have hge := hh.ge
    rcases hmet j hj hne with ⟨hjb, hstart⟩ | ⟨hjb, hreach⟩
    · exact absurd hstart (hno j hjb)
    · have : ¬j < h := fun hlt => hh.first j hjb hlt hreach
      omega
  · refine .inr ⟨fun j hj => ?_, rfl⟩
    rcases hmet j hj.1 hj.2.1 with ⟨hjb, hstart⟩ | ⟨hjb, hreach⟩
    · exact hnolow j hjb hstart
    · exact hnohigh j hjb hj.1 hreach

theorem takes_closestUsec :
    Takes own (circpadMachineRemoveClosestToken state mi own target true).own
      (Named .closestUsec state mi own target) := by
  rcases @removeClosest_cases state mi own target b hfound hfinds.finite true with
    ⟨l, h, hl, hh, n, -, hn, heq⟩ | ⟨l, hl, hno, heq⟩ | ⟨h, hh, hno, heq⟩ | ⟨hnolow, hnohigh, heq⟩ <;> rw [heq]
  · have hlow := ha.isFirstLower hfinds.finite hl
    have hhigh := ha.isFirstHigher hh
    rw [if_pos rfl, nearerMidpoint_eq hvalid hfit (Nat.le_trans hl.le hh.ge) hh.finite] at hn
    by_cases hcloser : midpointDistance state mi target h < midpointDistance state mi target l
    · obtain rfl : n = h := Int.ofNat_inj.mp (hn.trans (if_pos hcloser))
      exact .inl ⟨n, .inr ⟨hhigh, fun i hi => hi.unique hlow ▸ hcloser⟩, rfl⟩
    · obtain rfl : n = l := Int.ofNat_inj.mp (hn.trans (if_neg hcloser))
      exact .inl ⟨n, .inl ⟨hlow, fun i hi => hi.unique hhigh ▸ Nat.not_lt.mp hcloser⟩, rfl⟩
  · exact .inl ⟨l, .inl ⟨ha.isFirstLower hfinds.finite hl, fun i hi => absurd hi.2.1 (ha.not_reaches hno i hi.1)⟩, rfl⟩
  · exact .inl ⟨h, .inr ⟨ha.isFirstHigher hh, fun i hi => absurd hi.2.1 (ha.not_starts hno i hi.1)⟩, rfl⟩
  · refine .inr ⟨fun i hi => ?_, rfl⟩
    rcases hi with ⟨hi, -⟩ | ⟨hi, -⟩
    · exact ha.not_starts hnolow i hi.1 hi.2.1
    · exact ha.not_reaches hnohigh i hi.1 hi.2.1

end

end named

end

/-! ## Two bins around a time -/

/-- Two bins from 0 and from `edge` up to `last`, with a token each, and the infinity bin without one. -/
def twoBinsTo (edge last : UInt32) (useRttEstimate : Bool) : DelayState where
  histogramLen := 3
  histogram b := if b < 2 then 1 else 0
  histogramEdges b := if b = 0 then 0 else if b = 1 then edge else last
  histogramTotalTokens := 2
  iatDist := .none
  useRttEstimate := useRttEstimate
  tokenRemoval := .exact
  len_le := three_bins_fit

def evenBins : DelayState := twoBinsTo 100 200 false

/-- With the estimate the bins are from 50 to 149 and from 150 to 249. -/
def estimatedBins : DelayState := twoBinsTo 100 200 true

def estimated : Runtime := ⟨some estimatedBins.histogram, 0, 50⟩

/-- From 0 to 9 and from 10 to 999. -/
def unevenBins : DelayState := twoBinsTo 10 1000 false

def noBins : DelayState := { evenBins with histogramLen := 0, len_le := by decide }

theorem evenBins_fit : EstimateFits evenBins (fresh evenBins) := by
  unfold EstimateFits
  decide

end Badnet.Circpad

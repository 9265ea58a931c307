/-
  Badnet.Circpad.SampleDelay — which bin a padding delay is drawn from (`circpad_machine_sample_delay`).

  A value below the number of tokens is drawn, and the bins are scanned until the tokens so far are not below it. The
  value starts at zero, so the first bin that has tokens gets one value too many, and the last one a value too few
  (`chooseBin_spec`). The draw is in proportion to the tokens only where one bin has them all
  (`sample_in_proportion_iff`).
-/

import Badnet.Circpad.Histogram

namespace Badnet.Circpad

/-! ## The draw -/

/-- `while (!histogram[curr_bin]) curr_bin++`, as far as the histogram goes. -/
def skipZeroBins (histogram : Nat → UInt32) : (todo currBin : Nat) → Nat
  | 0, currBin => currBin
  | todo + 1, currBin => if histogram currBin = 0 then skipZeroBins histogram todo (currBin + 1) else currBin

/-- The scan; `none` is the report that it runs past the histogram. -/
def scanBins (histogram : Nat → UInt32) (len : Nat) (binChoice : UInt64) :
    (todo currBin : Nat) → (currWeight : UInt64) → Option Nat
  | 0, _, _ => none
  | todo + 1, currBin, currWeight =>
    if currWeight < binChoice then
      if currBin + 1 ≥ len then none
      else scanBins histogram len binChoice todo (currBin + 1) (currWeight + (histogram (currBin + 1)).toUInt64)
    else some currBin

def chooseBin (histogram : Nat → UInt32) (len : Nat) (binChoice : UInt64) : Option Nat :=
  let first := skipZeroBins histogram len 0
  scanBins histogram len binChoice len first (histogram first).toUInt64

def tokenSum (histogram : Nat → UInt32) : Nat → UInt64
  | 0 => 0
  | b + 1 => tokenSum histogram b + (histogram b).toUInt64

/-- What the generators answer: a value below a bound, one of a range, and one of the state's distribution. -/
structure Draws where
  binChoice : UInt64 → UInt64
  usec : UInt32 → UInt32 → UInt32
  iatDelay : UInt32

/-- What is drawn: the delay, the machine after it, the bin that the scan settles on, and whether a `BUG` is
reported. -/
structure Sampled where
  delay : UInt32
  mi : Runtime
  bin : Option Nat
  bug : Bool

def takeToken (histogram : Nat → UInt32) (b : Nat) : Nat → UInt32 :=
  Function.update histogram b (histogram b - 1)

variable (state : DelayState) (mi : Runtime)

/-- The answer is `none` where the null histogram of the machine is read. -/
def circpadMachineSampleDelay (draw : Draws) : Option Sampled :=
  if state.iatDist ≠ .none then some ⟨draw.iatDelay, mi, none, false⟩
  else
    let histogram := mi.histogram.getD state.histogram
    let total := match mi.histogram with
      | some own => tokenSum own state.histogramLen
      | none => state.histogramTotalTokens.toUInt64
    if total = 0 then some ⟨CIRCPAD_DELAY_INFINITE, mi, none, false⟩
    else match chooseBin histogram state.histogramLen (draw.binChoice total) with
      | none => some ⟨CIRCPAD_DELAY_INFINITE, mi, none, true⟩
      | some b =>
        if b ≥ state.histogramLen ∨ histogram b = 0 then some ⟨CIRCPAD_DELAY_INFINITE, mi, none, true⟩
        else
          -- The index is kept, to take the token when the padding is sent.
          let mi := if state.tokenRemoval ≠ .none then { mi with chosenBin := b } else mi
          if (b : Int) ≥ state.infinityBin then
            if state.tokenRemoval ≠ .none then
              mi.histogram.map fun own =>
                ⟨CIRCPAD_DELAY_INFINITE, { mi with histogram := some (if own b > 0 then takeToken own b else own) },
                  some b, false⟩
            else some ⟨CIRCPAD_DELAY_INFINITE, mi, some b, false⟩
          else
            let binStart := circpadHistogramBinToUsec state mi b
            let binEnd := circpadHistogramBinToUsec state mi (b + 1)
            if binStart ≥ binEnd then some ⟨binStart, mi, some b, true⟩
            else some ⟨draw.usec binStart binEnd, mi, some b, false⟩

/-! ## Tokens below a bin -/

def tokensBelow (histogram : Nat → UInt32) (b : Nat) : Nat := ∑ i ∈ Finset.range b, (histogram i).toNat

variable {histogram : Nat → UInt32}

theorem tokensBelow_succ (b : Nat) :
    tokensBelow histogram (b + 1) = tokensBelow histogram b + (histogram b).toNat := Finset.sum_range_succ _ _

theorem tokensBelow_mono {a b : Nat} (hab : a ≤ b) : tokensBelow histogram a ≤ tokensBelow histogram b :=
  Finset.sum_le_sum_of_subset (Finset.range_mono hab)

theorem tokensBelow_le (b : Nat) : tokensBelow histogram b ≤ b * 2 ^ 32 := by
  induction b with
  | zero => simp [tokensBelow]
  | succ b ih =>
    have := (histogram b).toNat_lt
    rw [tokensBelow_succ]
    omega

theorem tokensBelow_fits {b : Nat} (hb : b ≤ CIRCPAD_MAX_HISTOGRAM_LEN) : tokensBelow histogram b < 2 ^ 64 := by
  have := @tokensBelow_le histogram b
  unfold CIRCPAD_MAX_HISTOGRAM_LEN at hb
  omega

theorem toNat_add_tokens {w : UInt64} {b : Nat} (hw : w.toNat = tokensBelow histogram b)
    (hb : b + 1 ≤ CIRCPAD_MAX_HISTOGRAM_LEN) :
    (w + (histogram b).toUInt64).toNat = tokensBelow histogram (b + 1) := by
  have hfits := @tokensBelow_fits histogram _ hb
  rw [tokensBelow_succ] at hfits ⊢
  rw [UInt64.toNat_add, UInt32.toNat_toUInt64, hw, Nat.mod_eq_of_lt hfits]

theorem tokenSum_toNat {len : Nat} (hlen : len ≤ CIRCPAD_MAX_HISTOGRAM_LEN) :
    (tokenSum histogram len).toNat = tokensBelow histogram len := by
  induction len with
  | zero => rfl
  | succ b ih => exact toNat_add_tokens (ih (by omega)) hlen

theorem tokensBelow_of_zero {b : Nat} (h : ∀ i < b, histogram i = 0) : tokensBelow histogram b = 0 :=
  Finset.sum_eq_zero fun i hi => by rw [h i (Finset.mem_range.mp hi)]; rfl

/-! ## Where the scan ends -/

/-- The loop stops at the first bin with tokens, when there is one ahead. -/
theorem skipZeroBins_spec {todo currBin b : Nat} (hb : currBin ≤ b) (hlt : b < currBin + todo)
    (hne : histogram b ≠ 0) :
    currBin ≤ skipZeroBins histogram todo currBin ∧ skipZeroBins histogram todo currBin ≤ b ∧
      histogram (skipZeroBins histogram todo currBin) ≠ 0 ∧
      ∀ i, currBin ≤ i → i < skipZeroBins histogram todo currBin → histogram i = 0 := by
  induction todo generalizing currBin with
  | zero => omega
  | succ todo ih =>
    rw [skipZeroBins]
    split
    next hzero =>
      have hne' : currBin ≠ b := fun heq => hne (heq ▸ hzero)
      obtain ⟨hge, hle, hnon, hall⟩ := @ih (currBin + 1) (by omega) (by omega)
      refine ⟨by omega, hle, hnon, fun i hi hilt => ?_⟩
      by_cases heq : i = currBin
      · rw [heq, hzero]
      · exact hall i (by omega) hilt
    next hnon => exact ⟨Nat.le_refl _, hb, hnon, fun i hi hilt => by omega⟩

theorem scanBins_spec {len : Nat} {binChoice : UInt64} (hlen : len ≤ CIRCPAD_MAX_HISTOGRAM_LEN)
    (hchoice : binChoice.toNat < tokensBelow histogram len) {todo currBin : Nat} {currWeight : UInt64}
    (htodo : len ≤ currBin + todo) (hbin : currBin < len)
    (hweight : currWeight.toNat = tokensBelow histogram (currBin + 1)) :
    ∃ b, scanBins histogram len binChoice todo currBin currWeight = some b ∧ b < len ∧
      binChoice.toNat ≤ tokensBelow histogram (b + 1) ∧ (b = currBin ∨ tokensBelow histogram b < binChoice.toNat) := by
  induction todo generalizing currBin currWeight with
  | zero => omega
  | succ todo ih =>
    rw [scanBins]
    by_cases hless : currWeight < binChoice
    · rw [if_pos hless]
      have hbelow : tokensBelow histogram (currBin + 1) < binChoice.toNat := hweight ▸ UInt64.lt_iff_toNat_lt.mp hless
      have hin : currBin + 1 < len := by
        by_contra hout
        have hend : len = currBin + 1 := by omega
        rw [hend] at hchoice
        omega
      rw [if_neg (by omega)]
      obtain ⟨b, hscan, hblt, hle, hor⟩ := ih (by omega) hin (toNat_add_tokens hweight (by omega))
      refine ⟨b, hscan, hblt, hle, .inr ?_⟩
      rcases hor with rfl | hlt
      · exact hbelow
      · exact hlt
    · rw [if_neg hless]
      have : ¬currWeight.toNat < binChoice.toNat := fun hlt => hless (UInt64.lt_iff_toNat_lt.mpr hlt)
      exact ⟨currBin, rfl, hbin, by omega, .inl rfl⟩

/-- The bin that a value settles on: the tokens up to and with it are at least the value, and the tokens before it
fewer, or none at all. -/
structure Settles (histogram : Nat → UInt32) (value b : Nat) : Prop where
  tokens : histogram b ≠ 0
  reached : value ≤ tokensBelow histogram (b + 1)
  before : tokensBelow histogram b = 0 ∨ tokensBelow histogram b < value

theorem Settles.unique {value b b' : Nat} (h : Settles histogram value b) (h' : Settles histogram value b') :
    b = b' := by
  have apart : ∀ {x y : Nat}, Settles histogram value x → Settles histogram value y → ¬x < y := by
    intro x y hx hy hxy
    have hpos : 0 < (histogram x).toNat :=
      Nat.pos_of_ne_zero fun hz => hx.tokens (UInt32.toNat_inj.mp hz)
    have hmono := @tokensBelow_mono histogram (x + 1) y hxy
    have hsucc := @tokensBelow_succ histogram x
    rcases hy.before with hzero | hlt
    · omega
    · have := hx.reached
      omega
  have := apart h h'
  have := apart h' h
  omega

/-- A value below the number of tokens always settles on a bin of the histogram. -/
theorem chooseBin_spec {len : Nat} {binChoice : UInt64} (hlen : len ≤ CIRCPAD_MAX_HISTOGRAM_LEN)
    (hchoice : binChoice.toNat < tokensBelow histogram len) :
    ∃ b, chooseBin histogram len binChoice = some b ∧ b < len ∧ Settles histogram binChoice.toNat b := by
  have hsome : ∃ b < len, histogram b ≠ 0 := by
    by_contra hnone
    push Not at hnone
    rw [tokensBelow_of_zero hnone] at hchoice
    omega
  obtain ⟨b0, hb0, hne0⟩ := hsome
  obtain ⟨-, hle, hnon, hzero⟩ :=
    @skipZeroBins_spec histogram len 0 b0 (Nat.zero_le b0) (by omega) hne0
  have hfirst : tokensBelow histogram (skipZeroBins histogram len 0) = 0 :=
    tokensBelow_of_zero fun i hi => hzero i (Nat.zero_le _) hi
  obtain ⟨b, hscan, hblt, hreached, hor⟩ :=
    @scanBins_spec histogram len binChoice hlen hchoice len _ _ (by omega) (Nat.lt_of_le_of_lt hle hb0)
      (show (histogram (skipZeroBins histogram len 0)).toUInt64.toNat = _ by
        rw [tokensBelow_succ, hfirst, UInt32.toNat_toUInt64, Nat.zero_add])
  refine ⟨b, hscan, hblt, ⟨?_, hreached, ?_⟩⟩
  · rcases hor with rfl | hlt
    · exact hnon
    · intro hz
      rw [tokensBelow_succ, hz, UInt32.toNat_zero] at hreached
      omega
  · rcases hor with rfl | hlt
    · exact .inl hfirst
    · exact .inr hlt

/-! ## Which bin a machine draws from -/

variable (usec : UInt32 → UInt32 → UInt32)

/-- The draw that a value decides, with the other two generators as given. -/
def sampleAt (iatDelay : UInt32) (value : Nat) : Option Sampled :=
  circpadMachineSampleDelay state mi ⟨fun _ => UInt64.ofNat value, usec, iatDelay⟩

def settledBin (iatDelay : UInt32) (value : Nat) : Option Nat := (sampleAt state mi usec iatDelay value).bind (·.bin)

/-- Each bin is settled on for as many values as it has tokens, and no value is reported. -/
structure InProportion (state : DelayState) (mi : Runtime) (own : Nat → UInt32) : Prop where
  counts : ∀ usec iatDelay, ∀ b < state.histogramLen,
    ((Finset.range (tokenSum own state.histogramLen).toNat).filter fun value =>
      settledBin state mi usec iatDelay value = some b).card = (own b).toNat
  silent : ∀ usec iatDelay, ∀ value < (tokenSum own state.histogramLen).toNat,
    ∃ sampled, sampleAt state mi usec iatDelay value = some sampled ∧ sampled.bug = false

/-- The estimate carries both edges of the bin past the 32 bits, or neither. -/
def SameCarry (b : Nat) : Prop :=
  (state.histogramEdges b).toNat + (rttAddUsec state mi).toNat < 2 ^ 32 ↔
    (state.histogramEdges (b + 1)).toNat + (rttAddUsec state mi).toNat < 2 ^ 32

theorem binToUsec_lt_iff {state : DelayState} {mi : Runtime} (hvalid : paddingMachineStateIsValid state = true)
    {b : Nat} (hb : b + 1 < state.histogramLen) :
    circpadHistogramBinToUsec state mi b < circpadHistogramBinToUsec state mi ((b : Int) + 1) ↔
      SameCarry state mi b := by
  have hedge := UInt32.lt_iff_toNat_lt.mp (valid_edges hvalid hb)
  have := (state.histogramEdges (b + 1)).toNat_lt
  have := (rttAddUsec state mi).toNat_lt
  have hnext := @binToUsec_of_lt state mi (b + 1) hb
  push_cast at hnext
  rw [hnext, binToUsec_of_lt (by omega), UInt32.lt_iff_toNat_lt, UInt32.toNat_add, UInt32.toNat_add, SameCarry]
  omega

/-- A machine with tokens settles on the bin of the value, and reports it only where its bounds do not increase. -/
theorem sampleAt_spec {state : DelayState} {mi : Runtime} {own : Nat → UInt32} (hiat : state.iatDist = .none)
    (hremoval : state.tokenRemoval ≠ .none) (hown : mi.histogram = some own) {usec : UInt32 → UInt32 → UInt32}
    {iatDelay : UInt32} {value : Nat} (hvalue : value < (tokenSum own state.histogramLen).toNat) :
    ∃ b sampled, b < state.histogramLen ∧ Settles own value b ∧
      sampleAt state mi usec iatDelay value = some sampled ∧ sampled.bin = some b ∧
      (sampled.bug = true ↔ (b : Int) < state.infinityBin ∧
        ¬circpadHistogramBinToUsec state mi b < circpadHistogramBinToUsec state mi ((b : Int) + 1)) := by
  have htotal := @tokenSum_toNat own _ state.len_le
  have hfits := @tokensBelow_fits own _ state.len_le
  have hcast : (UInt64.ofNat value).toNat = value := by
    rw [UInt64.toNat_ofNat']
    omega
  have hne : tokenSum own state.histogramLen ≠ 0 := fun hz => by
    rw [hz] at hvalue
    exact Nat.not_lt_zero _ hvalue
  obtain ⟨b, hchoose, hb, hsettles⟩ := @chooseBin_spec own _ (UInt64.ofNat value) state.len_le (by omega)
  rw [hcast] at hsettles
  have hbin : ¬(b ≥ state.histogramLen ∨ own b = 0) := by
    rintro (hge | hz)
    · omega
    · exact hsettles.tokens hz
  refine ⟨b, ?_⟩
  simp only [sampleAt, circpadMachineSampleDelay, hiat, hown, Option.getD_some, hne, hchoose, hbin, hremoval,
    ne_eq, not_true_eq_false, not_false_eq_true, if_false, if_true, Option.map_some]
  by_cases hinf : (b : Int) ≥ state.infinityBin
  · rw [if_pos hinf]
    exact ⟨_, hb, hsettles, rfl, rfl, iff_of_false Bool.false_ne_true fun hand => by omega⟩
  · rw [if_neg hinf]
    by_cases hlt : circpadHistogramBinToUsec state mi b < circpadHistogramBinToUsec state mi ((b : Int) + 1)
    · refine ⟨_, hb, hsettles, if_neg (UInt32.not_le.mpr hlt), rfl, ?_⟩
      exact iff_of_false Bool.false_ne_true fun hand => hand.2 hlt
    · refine ⟨_, hb, hsettles, if_pos (UInt32.not_lt.mp hlt), rfl, ?_⟩
      exact iff_of_true rfl ⟨by omega, hlt⟩

theorem sampleAt_distribution {state : DelayState} {mi : Runtime} (hiat : state.iatDist ≠ .none)
    (usec : UInt32 → UInt32 → UInt32) (iatDelay : UInt32) (value : Nat) :
    settledBin state mi usec iatDelay value = none := by
  rw [settledBin, sampleAt, circpadMachineSampleDelay, if_pos hiat]
  rfl

theorem settledBin_eq_iff {state : DelayState} {mi : Runtime} {own : Nat → UInt32} (hiat : state.iatDist = .none)
    (hremoval : state.tokenRemoval ≠ .none) (hown : mi.histogram = some own) {usec : UInt32 → UInt32 → UInt32}
    {iatDelay : UInt32} {value b : Nat} (hvalue : value < (tokenSum own state.histogramLen).toNat) :
    settledBin state mi usec iatDelay value = some b ↔ Settles own value b := by
  obtain ⟨b', sampled, -, hsettles, hsample, hbin, -⟩ :=
    @sampleAt_spec state mi own hiat hremoval hown usec iatDelay value hvalue
  rw [settledBin, hsample, Option.bind_some, hbin, Option.some_inj]
  exact ⟨fun heq => heq ▸ hsettles, fun hb => hsettles.unique hb⟩

/-- The first bin with tokens takes a value more than it has tokens, when another bin has tokens. -/
theorem first_bin_takes_one_more {own : Nat → UInt32} {len f i : Nat} (hfirst : ∀ j < f, own j = 0) (hf : f < i)
    (hi : i < len) (htokens : own f ≠ 0) (hother : own i ≠ 0) {value : Nat} (hvalue : value ≤ (own f).toNat) :
    value < tokensBelow own len ∧ Settles own value f := by
  have hzero := tokensBelow_of_zero hfirst
  have hpos : 0 < (own i).toNat := Nat.pos_of_ne_zero fun hz => hother (UInt32.toNat_inj.mp hz)
  have hmono := @tokensBelow_mono own (f + 1) i hf
  have hlen := @tokensBelow_mono own (i + 1) len hi
  rw [tokensBelow_succ] at hmono hlen
  refine ⟨by omega, htokens, ?_, .inl hzero⟩
  rw [tokensBelow_succ]
  omega

section proportion

variable {state : DelayState} {mi : Runtime} {own : Nat → UInt32}

theorem exists_tokens (hpos : 0 < (tokenSum own state.histogramLen).toNat) :
    ∃ b, b < state.histogramLen ∧ own b ≠ 0 := by
  by_contra hnone
  push Not at hnone
  rw [tokenSum_toNat state.len_le, tokensBelow_of_zero hnone] at hpos
  exact Nat.lt_irrefl 0 hpos

theorem InProportion.fromHistogram (h : InProportion state mi own)
    (hpos : 0 < (tokenSum own state.histogramLen).toNat) : state.iatDist = .none := by
  by_contra hiat
  obtain ⟨b, hb, hne⟩ := exists_tokens hpos
  have hcount := h.counts (fun binStart _ => binStart) 0 b hb
  simp only [sampleAt_distribution hiat, reduceCtorEq, Finset.filter_false, Finset.card_empty] at hcount
  exact hne (UInt32.toNat_inj.mp hcount.symm)

/-- No bin after the first one with tokens has any. -/
theorem InProportion.only (h : InProportion state mi own) (hiat : state.iatDist = .none)
    (hremoval : state.tokenRemoval ≠ .none) (hown : mi.histogram = some own) {f : Nat}
    (hfirst : ∀ j < f, own j = 0) (hf : own f ≠ 0) {i : Nat} (hi : i < state.histogramLen) (hne : own i ≠ 0) :
    i = f := by
  by_contra hother
  have hless : f < i := by
    by_contra hnot
    exact hne (hfirst i (by omega))
  have hcount := h.counts (fun binStart _ => binStart) 0 f (by omega)
  have hsub : Finset.range ((own f).toNat + 1) ⊆
      (Finset.range (tokenSum own state.histogramLen).toNat).filter fun value =>
        settledBin state mi (fun binStart _ => binStart) 0 value = some f := by
    intro value hvalue
    obtain ⟨hin, hsettles⟩ :=
      first_bin_takes_one_more hfirst hless hi hf hne (Nat.le_of_lt_succ (Finset.mem_range.mp hvalue))
    rw [← tokenSum_toNat state.len_le] at hin
    exact Finset.mem_filter.mpr
      ⟨Finset.mem_range.mpr hin, (settledBin_eq_iff hiat hremoval hown hin).mpr hsettles⟩
  have := Finset.card_le_card hsub
  rw [Finset.card_range, hcount] at this
  omega

/-- The value zero settles on the first bin with tokens, so its bounds increase. -/
theorem InProportion.sameCarry (h : InProportion state mi own) (hiat : state.iatDist = .none)
    (hvalid : paddingMachineStateIsValid state = true) (hremoval : state.tokenRemoval ≠ .none)
    (hown : mi.histogram = some own) (hpos : 0 < (tokenSum own state.histogramLen).toNat) {f : Nat}
    (hfirst : ∀ j < f, own j = 0) (hf : own f ≠ 0) (hlt : f + 1 < state.histogramLen) : SameCarry state mi f := by
  obtain ⟨sampled, hsample, hbug⟩ := h.silent (fun binStart _ => binStart) 0 0 hpos
  obtain ⟨b, sampled', hb, hsettles, hsample', -, hreport⟩ :=
    @sampleAt_spec state mi own hiat hremoval hown (fun binStart _ => binStart) 0 0 hpos
  rw [hsample', Option.some_inj] at hsample
  subst hsample
  obtain rfl : b = f := hsettles.unique ⟨hf, Nat.zero_le _, .inl (tokensBelow_of_zero hfirst)⟩
  by_contra hcarry
  rw [← binToUsec_lt_iff hvalid hlt] at hcarry
  have := hreport.mpr ⟨by unfold DelayState.infinityBin; omega, hcarry⟩
  rw [this] at hbug
  cases hbug

theorem inProportion_of_one_bin (hvalid : paddingMachineStateIsValid state = true)
    (hremoval : state.tokenRemoval ≠ .none) (hown : mi.histogram = some own) (hiat : state.iatDist = .none)
    {b : Nat} (honly : ∀ i < state.histogramLen, own i ≠ 0 → i = b)
    (hcarry : b + 1 < state.histogramLen → SameCarry state mi b) : InProportion state mi own := by
  have hsettle : ∀ {value b' : Nat}, b' < state.histogramLen → Settles own value b' → b' = b :=
    fun hb' hsettles => honly _ hb' hsettles.tokens
  constructor
  · intro usec iatDelay i hi
    by_cases heq : i = b
    · subst heq
      rw [Finset.filter_true_of_mem, Finset.card_range, tokenSum_toNat state.len_le]
      · exact Finset.sum_eq_single_of_mem i (Finset.mem_range.mpr hi) fun j hj hne =>
          congrArg UInt32.toNat (not_not.mp fun hnon => hne (honly j (Finset.mem_range.mp hj) hnon))
      · intro value hvalue
        have hin := Finset.mem_range.mp hvalue
        obtain ⟨b', -, hb', hsettles, -⟩ := @sampleAt_spec state mi own hiat hremoval hown usec iatDelay value hin
        exact (settledBin_eq_iff hiat hremoval hown hin).mpr (hsettle hb' hsettles ▸ hsettles)
    · have hzero : own i = 0 := not_not.mp fun hne => heq (honly i hi hne)
      rw [hzero, UInt32.toNat_zero, Finset.card_eq_zero, Finset.filter_eq_empty_iff]
      intro value hvalue hsettled
      have := (settledBin_eq_iff hiat hremoval hown (Finset.mem_range.mp hvalue)).mp hsettled
      exact this.tokens hzero
  · intro usec iatDelay value hvalue
    obtain ⟨b', sampled, hb', hsettles, hsample, -, hreport⟩ :=
      @sampleAt_spec state mi own hiat hremoval hown usec iatDelay value hvalue
    obtain rfl := hsettle hb' hsettles
    refine ⟨sampled, hsample, Bool.eq_false_iff.mpr fun hbug => ?_⟩
    obtain ⟨hinf, hnot⟩ := hreport.mp hbug
    unfold DelayState.infinityBin at hinf
    exact hnot ((binToUsec_lt_iff hvalid (by omega)).mpr (hcarry (by omega)))

/-- The draw is in proportion to the tokens exactly when one bin has all of them and the estimate keeps the order of
that bin's bounds. -/
theorem sample_in_proportion_iff (hvalid : paddingMachineStateIsValid state = true)
    (hremoval : state.tokenRemoval ≠ .none) (hown : mi.histogram = some own)
    (hpos : 0 < (tokenSum own state.histogramLen).toNat) :
    InProportion state mi own ↔ state.iatDist = .none ∧ ∃ b < state.histogramLen,
      (∀ i < state.histogramLen, own i ≠ 0 → i = b) ∧ (b + 1 < state.histogramLen → SameCarry state mi b) := by
  constructor
  · intro h
    have hiat := h.fromHistogram hpos
    classical
    have hsome := exists_tokens hpos
    obtain ⟨hlen, hne⟩ := Nat.find_spec hsome
    have hfirst : ∀ j < Nat.find hsome, own j = 0 := fun j hj => by
      by_contra hnon
      exact Nat.find_min hsome hj ⟨by omega, hnon⟩
    exact ⟨hiat, Nat.find hsome, hlen, fun i hi hi' => h.only hiat hremoval hown hfirst hne hi hi',
      h.sameCarry hiat hvalid hremoval hown hpos hfirst hne⟩
  · rintro ⟨hiat, b, -, honly, hcarry⟩
    exact inProportion_of_one_bin hvalid hremoval hown hiat honly hcarry

end proportion

/-! ## Two bins of one token -/

/-- Three bins from 0, 100 and 200 microseconds, the first two with a token each. -/
def twoBins : DelayState where
  histogramLen := 3
  histogram b := if b < 2 then 1 else 0
  histogramEdges b := 100 * UInt32.ofNat b
  histogramTotalTokens := 2
  iatDist := .none
  useRttEstimate := false
  tokenRemoval := .higher
  len_le := three_bins_fit

def fresh (state : DelayState) : Runtime := ⟨some state.histogram, 0, 0⟩

/-- Both values settle on the first bin, and the token of the second is never drawn. -/
theorem two_bins_draw_only_the_first :
    paddingMachineStateIsValid twoBins = true ∧ twoBins.tokenRemoval ≠ .none ∧
      (tokenSum twoBins.histogram twoBins.histogramLen).toNat = 2 ∧
      ¬InProportion twoBins (fresh twoBins) twoBins.histogram := by
  refine ⟨by decide, by decide, by decide, fun h => ?_⟩
  have := h.counts (fun binStart _ => binStart) 0 1 (by decide)
  revert this
  decide

/-- The same bins with the tokens of the second alone. -/
def secondBin : DelayState :=
  { twoBins with histogram := fun b => if b = 1 then 2 else 0, len_le := by decide }

theorem second_bin_in_proportion :
    InProportion secondBin (fresh secondBin) secondBin.histogram ↔ secondBin.iatDist = .none ∧
      ∃ b < secondBin.histogramLen, (∀ i < secondBin.histogramLen, secondBin.histogram i ≠ 0 → i = b) ∧
        (b + 1 < secondBin.histogramLen → SameCarry secondBin (fresh secondBin) b) :=
  sample_in_proportion_iff (by decide) (by decide) rfl (by decide)

end Badnet.Circpad

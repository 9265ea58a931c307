/-
  Badnet.Stats.Bwhist — the bandwidth history (`feature/stats/bwhist.c`).

  A `BwArray` has the bytes of the last seconds in a circular array, with their total but for the current second, and
  for each past period the bytes in it and the most in any ten seconds that end in it. Against the bytes recorded for
  every second since the start, the array is exact at all times (`Tracks`, `history_is_exact`).
-/

import Badnet.Lib.SlidingWindow

namespace Badnet.Stats

open Lib

def NUM_SECS_ROLLING_MEASURE : Nat := 10
def NUM_SECS_BW_SUM_INTERVAL : Int := 24 * 60 * 60
def NUM_TOTALS : Nat := 5

/-! ## The array -/

/-- `bw_array_t`; the arrays `obs`, `maxima` and `totals` are functions of the index. -/
structure BwArray where
  obs : Nat → UInt64
  curObsIdx : Nat
  curObsTime : Int
  totalObs : UInt64
  maxTotal : UInt64
  totalInPeriod : UInt64
  nextPeriod : Int
  nextMaxIdx : Nat
  numMaxesSet : Nat
  maxima : Nat → UInt64
  totals : Nat → UInt64

variable (b : BwArray)

def commitMax : BwArray :=
  { b with
    totals := Function.update b.totals b.nextMaxIdx b.totalInPeriod
    maxima := Function.update b.maxima b.nextMaxIdx b.maxTotal
    nextPeriod := b.nextPeriod + NUM_SECS_BW_SUM_INTERVAL
    nextMaxIdx := if b.nextMaxIdx + 1 = NUM_TOTALS then 0 else b.nextMaxIdx + 1
    numMaxesSet := if b.numMaxesSet < NUM_TOTALS then b.numMaxesSet + 1 else b.numMaxesSet
    maxTotal := 0
    totalInPeriod := 0 }

/-- A second ends: what `advance_obs` does before it looks at the period. -/
def endSecond : BwArray :=
  let total := b.totalObs + b.obs b.curObsIdx
  let nextidx := if b.curObsIdx + 1 = NUM_SECS_ROLLING_MEASURE then 0 else b.curObsIdx + 1
  { b with
    maxTotal := if total > b.maxTotal then total else b.maxTotal
    totalObs := total - b.obs nextidx
    obs := Function.update b.obs nextidx 0
    curObsIdx := nextidx
    curObsTime := b.curObsTime + 1 }

def advanceObs : BwArray :=
  let b := endSecond b
  if b.curObsTime ≥ b.nextPeriod then commitMax b else b

/-- The last two lines of `add_obs`. -/
def countNow (n : UInt64) : BwArray :=
  { b with
    obs := Function.update b.obs b.curObsIdx (b.obs b.curObsIdx + n)
    totalInPeriod := b.totalInPeriod + n }

/-- Each pass of the loop moves the time on by a second. -/
def addObs (time : Int) (n : UInt64) : BwArray :=
  if time < b.curObsTime then b
  else countNow (advanceObs^[(time - b.curObsTime).toNat] b) n

variable (start : Int)

def bwArrayNew : BwArray where
  obs _ := 0
  curObsIdx := 0
  curObsTime := start
  totalObs := 0
  maxTotal := 0
  totalInPeriod := 0
  nextPeriod := start + NUM_SECS_BW_SUM_INTERVAL
  nextMaxIdx := 0
  numMaxesSet := 0
  maxima _ := 0
  totals _ := 0

def largestFrom (maxima : Nat → UInt64) : (todo i : Nat) → (largest : UInt64) → UInt64
  | 0, _, largest => largest
  | todo + 1, i, largest => largestFrom maxima todo (i + 1) (if maxima i > largest then maxima i else largest)

def findLargestMax : UInt64 := largestFrom b.maxima NUM_TOTALS 0 0

variable (calls : List (Int × UInt64))

def addAll : BwArray := calls.foldl (fun b call => addObs b call.1 call.2) b

/-! ## What was recorded -/

/-- The bytes that calls record for each second; a call for a second before the latest one records nothing. -/
def recorded (now : Int) : List (Int × UInt64) → Int → Nat
  | [], _ => 0
  | (time, n) :: calls, s =>
    if time < now then recorded now calls s
    else (if s = time then n.toNat else 0) + recorded time calls s

def periodStart (k : Nat) : Int := start + k * NUM_SECS_BW_SUM_INTERVAL

/-- The bytes of a period. -/
noncomputable def periodTotal (bytes : Int → Nat) (k : Nat) : Nat :=
  ∑ s ∈ Finset.Ico (periodStart start k) (periodStart start (k + 1)), bytes s

/-- The most bytes in consecutive seconds that end in a period. -/
noncomputable def periodMax (bytes : Int → Nat) (k : Nat) : Nat :=
  (Finset.Ico (periodStart start k) (periodStart start (k + 1))).sup (window bytes NUM_SECS_ROLLING_MEASURE)

/-- The slots of the periods that ended last have their totals and maxima; slots not used yet have zero. -/
structure Committed (start : Int) (bytes : Int → Nat) (ended : Nat) (b : BwArray) : Prop where
  nextMaxIdx : b.nextMaxIdx = ended % NUM_TOTALS
  numMaxesSet : b.numMaxesSet = min ended NUM_TOTALS
  totals : ∀ k < ended, ended ≤ k + NUM_TOTALS → (b.totals (k % NUM_TOTALS)).toNat = periodTotal start bytes k
  maxima : ∀ k < ended, ended ≤ k + NUM_TOTALS → (b.maxima (k % NUM_TOTALS)).toNat = periodMax start bytes k
  unused : ∀ i, ended ≤ i → i < NUM_TOTALS → b.totals i = 0 ∧ b.maxima i = 0

/-- The array has exactly the bytes recorded so far, `ended` periods being over. -/
structure Tracks (start : Int) (bytes : Int → Nat) (ended : Nat) (b : BwArray) : Prop where
  idx : b.curObsIdx < NUM_SECS_ROLLING_MEASURE
  began : periodStart start ended ≤ b.curObsTime
  nextPeriod : b.nextPeriod = periodStart start (ended + 1)
  notOver : b.curObsTime < b.nextPeriod
  later : ∀ s, b.curObsTime < s → bytes s = 0
  obs : ∀ i < NUM_SECS_ROLLING_MEASURE, (b.obs i).toNat =
    bytes (b.curObsTime - ((b.curObsIdx + NUM_SECS_ROLLING_MEASURE - i) % NUM_SECS_ROLLING_MEASURE : Nat))
  total : b.totalObs.toNat + (b.obs b.curObsIdx).toNat =
    ∑ i ∈ Finset.range NUM_SECS_ROLLING_MEASURE, (b.obs i).toNat
  maxTotal : b.maxTotal.toNat =
    (Finset.Ico (periodStart start ended) b.curObsTime).sup (window bytes NUM_SECS_ROLLING_MEASURE)
  inPeriod : b.totalInPeriod.toNat = ∑ s ∈ Finset.Ico (periodStart start ended) (b.curObsTime + 1), bytes s
  committed : Committed start bytes ended b

/-! ## Periods and slots -/

theorem periodStart_succ (k : Nat) : periodStart start (k + 1) = periodStart start k + NUM_SECS_BW_SUM_INTERVAL := by
  unfold periodStart
  push_cast
  rw [Int.add_mul, Int.one_mul, Int.add_assoc]

theorem periodStart_mono {j k : Nat} (h : j ≤ k) : periodStart start j ≤ periodStart start k := by
  unfold periodStart NUM_SECS_BW_SUM_INTERVAL
  omega

theorem periodTotal_congr {start : Int} {f g : Int → Nat} {k : Nat} (h : ∀ i < periodStart start (k + 1), f i = g i) :
    periodTotal start f k = periodTotal start g k :=
  Finset.sum_congr rfl fun s hs => h s (Finset.mem_Ico.mp hs).2

theorem periodMax_congr {start : Int} {f g : Int → Nat} {k : Nat} (h : ∀ i < periodStart start (k + 1), f i = g i) :
    periodMax start f k = periodMax start g k := sup_window_congr h

/-- A period that ends takes the next slot and leaves those of the four periods before it. -/
theorem Committed.commit {start : Int} {bytes : Int → Nat} {ended : Nat} {b : BwArray}
    (h : Committed start bytes ended b) (htotal : b.totalInPeriod.toNat = periodTotal start bytes ended)
    (hmax : b.maxTotal.toNat = periodMax start bytes ended) : Committed start bytes (ended + 1) (commitMax b) := by
  have hslot : ∀ k, k < ended → ended + 1 ≤ k + NUM_TOTALS → k % NUM_TOTALS ≠ ended % NUM_TOTALS := fun k hk hle => by
    unfold NUM_TOTALS at *
    omega
  constructor
  · simp only [commitMax, h.nextMaxIdx]
    unfold NUM_TOTALS
    split <;> omega
  · simp only [commitMax, h.numMaxesSet]
    unfold NUM_TOTALS
    split <;> omega
  · intro k hk hle
    simp only [commitMax, h.nextMaxIdx]
    by_cases hlast : k = ended
    · rw [hlast, Function.update_self, htotal]
    · have hk' : k < ended := by omega
      rw [Function.update_of_ne (hslot k hk' hle), h.totals k hk' (by omega)]
  · intro k hk hle
    simp only [commitMax, h.nextMaxIdx]
    by_cases hlast : k = ended
    · rw [hlast, Function.update_self, hmax]
    · have hk' : k < ended := by omega
      rw [Function.update_of_ne (hslot k hk' hle), h.maxima k hk' (by omega)]
  · intro i hi hlt
    have hne : i ≠ ended % NUM_TOTALS := by
      unfold NUM_TOTALS at *
      omega
    simp only [commitMax, h.nextMaxIdx, Function.update_of_ne hne]
    exact h.unused i (by omega) hlt

theorem Committed.congr {start : Int} {f g : Int → Nat} {ended : Nat} {b b' : BwArray}
    (h : Committed start f ended b) (hfg : ∀ i < periodStart start ended, f i = g i)
    (hidx : b'.nextMaxIdx = b.nextMaxIdx) (hnum : b'.numMaxesSet = b.numMaxesSet) (htotals : b'.totals = b.totals)
    (hmaxima : b'.maxima = b.maxima) : Committed start g ended b' := by
  have hpast : ∀ k < ended, ∀ i < periodStart start (k + 1), f i = g i := fun k hk i hi =>
    hfg i (Int.lt_of_lt_of_le hi (periodStart_mono start hk))
  constructor
  · rw [hidx, h.nextMaxIdx]
  · rw [hnum, h.numMaxesSet]
  · intro k hk hle
    rw [htotals, h.totals k hk hle, periodTotal_congr (hpast k hk)]
  · intro k hk hle
    rw [hmaxima, h.maxima k hk hle, periodMax_congr (hpast k hk)]
  · rw [htotals, hmaxima]
    exact h.unused

/-! ## The current second -/

section

variable {start : Int} {bytes : Int → Nat} {ended : Nat} {b : BwArray}

/-- The slots together have the bytes of the last ten seconds. -/
theorem Tracks.slots (h : Tracks start bytes ended b) :
    ∑ i ∈ Finset.range NUM_SECS_ROLLING_MEASURE, (b.obs i).toNat =
      window bytes NUM_SECS_ROLLING_MEASURE b.curObsTime := by
  have hidx := h.idx
  unfold NUM_SECS_ROLLING_MEASURE at hidx
  refine Finset.sum_nbij' (fun i => (b.curObsIdx + 10 - i) % 10) (fun j => (b.curObsIdx + 10 - j) % 10) ?_ ?_ ?_ ?_ ?_
  iterate 2
    · intro i hi
      exact Finset.mem_range.mpr (Nat.mod_lt _ (by decide))
  iterate 2
    · intro i hi
      have := Finset.mem_range.mp hi
      unfold NUM_SECS_ROLLING_MEASURE at this
      omega
  · intro i hi
    exact h.obs i (Finset.mem_range.mp hi)

theorem Tracks.totalObs_exact (h : Tracks start bytes ended b) :
    b.totalObs.toNat = ∑ i ∈ (Finset.range NUM_SECS_ROLLING_MEASURE).erase b.curObsIdx, (b.obs i).toNat := by
  have := Finset.sum_erase_add (Finset.range NUM_SECS_ROLLING_MEASURE) (fun i => (b.obs i).toNat)
    (Finset.mem_range.mpr h.idx)
  have := h.total
  omega

/-- The total with the current second, which the end of the second compares. -/
theorem Tracks.windowNow (h : Tracks start bytes ended b) {bound : Nat} (hb : Bounded bytes bound)
    (hfit : bound < 2 ^ 64) :
    (b.totalObs + b.obs b.curObsIdx).toNat = window bytes NUM_SECS_ROLLING_MEASURE b.curObsTime := by
  have hwindow := hb.window NUM_SECS_ROLLING_MEASURE b.curObsTime
  rw [UInt64.toNat_add, h.total, h.slots, Nat.mod_eq_of_lt (by omega)]

theorem nextIdx_lt {idx : Nat} (h : idx < NUM_SECS_ROLLING_MEASURE) :
    (if idx + 1 = NUM_SECS_ROLLING_MEASURE then 0 else idx + 1) < NUM_SECS_ROLLING_MEASURE := by
  unfold NUM_SECS_ROLLING_MEASURE at *
  split <;> omega

section

variable (h : Tracks start bytes ended b)
include h

/-- The oldest slot becomes that of the new second, and all others are a second older. -/
theorem Tracks.endSecond_obs {i : Nat} (hi : i < NUM_SECS_ROLLING_MEASURE) :
    ((endSecond b).obs i).toNat = bytes ((endSecond b).curObsTime -
      (((endSecond b).curObsIdx + NUM_SECS_ROLLING_MEASURE - i) % NUM_SECS_ROLLING_MEASURE : Nat)) := by
  have hidx := h.idx
  have hobs := h.obs i hi
  simp only [endSecond]
  unfold NUM_SECS_ROLLING_MEASURE at *
  by_cases hnext : i = if b.curObsIdx + 1 = 10 then 0 else b.curObsIdx + 1
  · rw [← hnext, Function.update_self, h.later _ (by omega)]
    rfl
  · rw [Function.update_of_ne hnext, hobs]
    congr 1
    by_cases hwrap : b.curObsIdx + 1 = 10
    · rw [if_pos hwrap] at hnext ⊢
      omega
    · rw [if_neg hwrap] at hnext ⊢
      omega

theorem Tracks.endSecond_total {bound : Nat} (hb : Bounded bytes bound) (hfit : bound < 2 ^ 64) :
    (endSecond b).totalObs.toNat + ((endSecond b).obs (endSecond b).curObsIdx).toNat =
      ∑ i ∈ Finset.range NUM_SECS_ROLLING_MEASURE, ((endSecond b).obs i).toNat := by
  have hnext := Finset.mem_range.mpr (nextIdx_lt h.idx)
  have hsum := Finset.sum_erase_add (Finset.range NUM_SECS_ROLLING_MEASURE) (fun i => (b.obs i).toNat) hnext
  have hnow := (h.windowNow hb hfit).trans h.slots.symm
  have hle : b.obs (if b.curObsIdx + 1 = NUM_SECS_ROLLING_MEASURE then 0 else b.curObsIdx + 1) ≤
      b.totalObs + b.obs b.curObsIdx := by
    rw [UInt64.le_iff_toNat_le, hnow, ← hsum]
    exact Nat.le_add_left _ _
  simp only [endSecond]
  rw [UInt64.toNat_sub_of_le _ _ hle, hnow, ← hsum, Nat.add_sub_cancel, ← Finset.sum_erase_add _ _ hnext,
    Function.update_self]
  refine congrArg₂ _ (Finset.sum_congr rfl fun i hi => ?_) rfl
  rw [Function.update_of_ne (Finset.ne_of_mem_erase hi)]

theorem Tracks.endSecond_maxTotal {bound : Nat} (hb : Bounded bytes bound) (hfit : bound < 2 ^ 64) :
    (endSecond b).maxTotal.toNat = (Finset.Ico (periodStart start ended) (b.curObsTime + 1)).sup
      (window bytes NUM_SECS_ROLLING_MEASURE) := by
  have hnow := h.windowNow hb hfit
  rw [sup_window_succ _ _ h.began, ← hnow, ← h.maxTotal]
  simp only [endSecond, gt_iff_lt, UInt64.lt_iff_toNat_lt]
  split <;> omega

/-- A second that ends keeps the array exact. -/
theorem Tracks.advance {bound : Nat} (hb : Bounded bytes bound) (hfit : bound < 2 ^ 64) :
    ∃ ended', Tracks start bytes ended' (advanceObs b) := by
  have hsucc := periodStart_succ start ended
  have hlater : ∀ s, b.curObsTime + 1 < s → bytes s = 0 := fun s hs => h.later s (by omega)
  have hnew : bytes (b.curObsTime + 1) = 0 := h.later _ (by omega)
  have hbegan := h.began
  by_cases hover : (endSecond b).curObsTime ≥ (endSecond b).nextPeriod
  · -- The second was the last one of its period.
    have hlast : b.curObsTime + 1 = periodStart start (ended + 1) := by
      have hnot := h.notOver
      have : b.curObsTime + 1 ≥ b.nextPeriod := hover
      rw [h.nextPeriod] at hnot this
      omega
    have hcommit := Committed.commit (@Committed.congr start bytes bytes ended b (endSecond b) h.committed (fun _ _ => rfl) rfl rfl rfl rfl)
      (h.inPeriod.trans (by rw [hlast]; rfl)) ((h.endSecond_maxTotal hb hfit).trans (by rw [hlast]; rfl))
    refine ⟨ended + 1, ?_⟩
    rw [show advanceObs b = commitMax (endSecond b) from if_pos hover]
    exact
      { idx := nextIdx_lt h.idx
        began := Int.le_of_eq hlast.symm
        nextPeriod := by
          rw [periodStart_succ, ← h.nextPeriod]
          rfl
        notOver := by
          have : b.curObsTime < b.nextPeriod := h.notOver
          show b.curObsTime + 1 < b.nextPeriod + NUM_SECS_BW_SUM_INTERVAL
          unfold NUM_SECS_BW_SUM_INTERVAL
          omega
        later := hlater
        obs := fun i hi => h.endSecond_obs hi
        total := h.endSecond_total hb hfit
        maxTotal := by
          show (0 : UInt64).toNat = (Finset.Ico (periodStart start (ended + 1)) (b.curObsTime + 1)).sup _
          rw [hlast, Finset.Ico_self, Finset.sup_empty]
          rfl
        inPeriod := by
          show (0 : UInt64).toNat = ∑ s ∈ Finset.Ico (periodStart start (ended + 1)) (b.curObsTime + 1 + 1), bytes s
          rw [← hlast, sum_Ico_succ _ (Int.le_refl _), hnew, Finset.Ico_self, Finset.sum_empty]
          rfl
        committed := hcommit }
  · refine ⟨ended, ?_⟩
    rw [show advanceObs b = endSecond b from if_neg hover]
    exact
      { idx := nextIdx_lt h.idx
        began := by
          show periodStart start ended ≤ b.curObsTime + 1
          omega
        nextPeriod := h.nextPeriod
        notOver := Int.not_le.mp hover
        later := hlater
        obs := fun i hi => h.endSecond_obs hi
        total := h.endSecond_total hb hfit
        maxTotal := h.endSecond_maxTotal hb hfit
        inPeriod := by
          show b.totalInPeriod.toNat = ∑ s ∈ Finset.Ico (periodStart start ended) (b.curObsTime + 1 + 1), bytes s
          rw [sum_Ico_succ _ (show periodStart start ended ≤ b.curObsTime + 1 by omega), hnew, Nat.zero_add, h.inPeriod]
        committed := h.committed.congr (fun _ _ => rfl) rfl rfl rfl rfl }

end

theorem advanceObs_time (b : BwArray) : (advanceObs b).curObsTime = b.curObsTime + 1 := by
  unfold advanceObs
  dsimp only
  split <;> rfl

theorem Tracks.advances (h : Tracks start bytes ended b) {bound : Nat} (hb : Bounded bytes bound)
    (hfit : bound < 2 ^ 64) (seconds : Nat) :
    ∃ ended', Tracks start bytes ended' (advanceObs^[seconds] b) ∧
      (advanceObs^[seconds] b).curObsTime = b.curObsTime + seconds := by
  induction seconds with
  | zero => exact ⟨ended, h, (Int.add_zero _).symm⟩
  | succ seconds ih =>
    obtain ⟨ended', htracks, htime⟩ := ih
    obtain ⟨ended'', htracks'⟩ := htracks.advance hb hfit
    rw [Function.iterate_succ_apply']
    refine ⟨ended'', htracks', ?_⟩
    rw [advanceObs_time, htime]
    push_cast
    omega

/-! ## Bytes -/

/-- The bytes of each second, with more for the second `now`. -/
def moreAt (bytes : Int → Nat) (now : Int) (n : Nat) : Int → Nat := fun s => bytes s + if s = now then n else 0

theorem moreAt_now (now : Int) (n : Nat) : moreAt bytes now n now = bytes now + n := by rw [moreAt, if_pos rfl]

theorem moreAt_of_ne {now s : Int} (h : s ≠ now) (n : Nat) : moreAt bytes now n s = bytes s := by
  rw [moreAt, if_neg h, Nat.add_zero]

section

variable (h : Tracks start bytes ended b)
include h

theorem Tracks.obs_now : (b.obs b.curObsIdx).toNat = bytes b.curObsTime := by
  have := h.obs b.curObsIdx h.idx
  rwa [Nat.add_sub_cancel_left, Nat.mod_self, Nat.cast_zero, Int.sub_zero] at this

variable {n : UInt64}

theorem Tracks.toNat_obs_add {bound : Nat} (hb : Bounded bytes bound) (hfit : bound + n.toNat < 2 ^ 64) :
    (b.obs b.curObsIdx + n).toNat = (b.obs b.curObsIdx).toNat + n.toNat := by
  have hone := hb {b.curObsTime}
  rw [Finset.sum_singleton, ← h.obs_now] at hone
  rw [UInt64.toNat_add, Nat.mod_eq_of_lt (by omega)]

theorem Tracks.countNow_obs {bound : Nat} (hb : Bounded bytes bound) (hfit : bound + n.toNat < 2 ^ 64)
    {i : Nat} (hi : i < NUM_SECS_ROLLING_MEASURE) :
    ((countNow b n).obs i).toNat = moreAt bytes b.curObsTime n.toNat (b.curObsTime -
      ((b.curObsIdx + NUM_SECS_ROLLING_MEASURE - i) % NUM_SECS_ROLLING_MEASURE : Nat)) := by
  simp only [countNow]
  by_cases hi' : i = b.curObsIdx
  · rw [hi', Function.update_self, h.toNat_obs_add hb hfit, h.obs_now, Nat.add_sub_cancel_left, Nat.mod_self,
      Nat.cast_zero, Int.sub_zero, moreAt_now]
  · have hidx := h.idx
    have hne : b.curObsTime - ((b.curObsIdx + NUM_SECS_ROLLING_MEASURE - i) % NUM_SECS_ROLLING_MEASURE : Nat) ≠
        b.curObsTime := by
      unfold NUM_SECS_ROLLING_MEASURE at *
      omega
    rw [Function.update_of_ne hi', h.obs i hi, moreAt_of_ne hne]

theorem Tracks.countNow_total {bound : Nat} (hb : Bounded bytes bound) (hfit : bound + n.toNat < 2 ^ 64) :
    (countNow b n).totalObs.toNat + ((countNow b n).obs (countNow b n).curObsIdx).toNat =
      ∑ i ∈ Finset.range NUM_SECS_ROLLING_MEASURE, ((countNow b n).obs i).toNat := by
  have hmem := Finset.mem_range.mpr h.idx
  have hsum := Finset.sum_erase_add (Finset.range NUM_SECS_ROLLING_MEASURE) (fun i => (b.obs i).toNat) hmem
  have htotal := h.total
  have hrest : ∑ i ∈ (Finset.range NUM_SECS_ROLLING_MEASURE).erase b.curObsIdx,
      (Function.update b.obs b.curObsIdx (b.obs b.curObsIdx + n) i).toNat =
      ∑ i ∈ (Finset.range NUM_SECS_ROLLING_MEASURE).erase b.curObsIdx, (b.obs i).toNat :=
    Finset.sum_congr rfl fun i hi => by rw [Function.update_of_ne (Finset.ne_of_mem_erase hi)]
  simp only [countNow]
  rw [← Finset.sum_erase_add _ _ hmem, hrest, Function.update_self, h.toNat_obs_add hb hfit]
  omega

theorem Tracks.countNow_inPeriod {bound : Nat} (hb : Bounded bytes bound) (hfit : bound + n.toNat < 2 ^ 64) :
    (countNow b n).totalInPeriod.toNat = ∑ s ∈ Finset.Ico (periodStart start ended) (b.curObsTime + 1),
      moreAt bytes b.curObsTime n.toNat s := by
  have hperiod := hb (Finset.Ico (periodStart start ended) (b.curObsTime + 1))
  have hrest : ∑ s ∈ Finset.Ico (periodStart start ended) b.curObsTime, moreAt bytes b.curObsTime n.toNat s =
      ∑ s ∈ Finset.Ico (periodStart start ended) b.curObsTime, bytes s :=
    Finset.sum_congr rfl fun s hs => moreAt_of_ne (Int.ne_of_lt (Finset.mem_Ico.mp hs).2) _
  simp only [countNow]
  rw [UInt64.toNat_add, h.inPeriod, Nat.mod_eq_of_lt (by omega), sum_Ico_succ _ h.began, sum_Ico_succ _ h.began, hrest,
    moreAt_now]
  omega

/-- Bytes for the current second are counted for it and for its period. -/
theorem Tracks.record {bound : Nat} (hb : Bounded bytes bound) (hfit : bound + n.toNat < 2 ^ 64) :
    Tracks start (moreAt bytes b.curObsTime n.toNat) ended (countNow b n) := by
  have hbefore : ∀ i < b.curObsTime, bytes i = moreAt bytes b.curObsTime n.toNat i := fun i hi =>
    (moreAt_of_ne (Int.ne_of_lt hi) _).symm
  exact
    { idx := h.idx
      began := h.began
      nextPeriod := h.nextPeriod
      notOver := h.notOver
      later := fun s hs => (moreAt_of_ne (Int.ne_of_gt hs) _).trans (h.later s hs)
      obs := fun i hi => h.countNow_obs hb hfit hi
      total := h.countNow_total hb hfit
      maxTotal := h.maxTotal.trans (sup_window_congr hbefore)
      inPeriod := h.countNow_inPeriod hb hfit
      committed := h.committed.congr (fun i hi => hbefore i (Int.lt_of_lt_of_le hi h.began)) rfl rfl rfl rfl }

end

end

/-! ## Runs -/

theorem tracks_new : Tracks start (fun _ => 0) 0 (bwArrayNew start) where
  idx := by
    show 0 < NUM_SECS_ROLLING_MEASURE
    decide
  began := by
    show start + 0 * NUM_SECS_BW_SUM_INTERVAL ≤ start
    omega
  nextPeriod := by
    rw [periodStart_succ]
    show start + NUM_SECS_BW_SUM_INTERVAL = start + 0 * NUM_SECS_BW_SUM_INTERVAL + NUM_SECS_BW_SUM_INTERVAL
    rw [Int.zero_mul, Int.add_zero]
  notOver := by
    show start < start + NUM_SECS_BW_SUM_INTERVAL
    unfold NUM_SECS_BW_SUM_INTERVAL
    omega
  later _ _ := rfl
  obs _ _ := rfl
  total := by simp [bwArrayNew]
  maxTotal := by
    have hnone : Finset.Ico (periodStart start 0) start = ∅ := by
      rw [Finset.Ico_eq_empty_iff]
      unfold periodStart
      omega
    show (0 : UInt64).toNat = (Finset.Ico (periodStart start 0) start).sup _
    rw [hnone, Finset.sup_empty]
    rfl
  inPeriod := by rw [Finset.sum_const_zero]; rfl
  committed :=
    { nextMaxIdx := rfl
      numMaxesSet := rfl
      totals := fun k hk => absurd hk (Nat.not_lt_zero k)
      maxima := fun k hk => absurd hk (Nat.not_lt_zero k)
      unused := fun _ _ _ => ⟨rfl, rfl⟩ }

/-- The amounts of some calls together. -/
def amounts : Nat := (calls.map fun call => call.2.toNat).sum

/-- Any calls keep the array exact, for the bytes before them and those that they record. -/
theorem Tracks.run {start : Int} {bytes : Int → Nat} {ended : Nat} {b : BwArray} (h : Tracks start bytes ended b)
    {bound : Nat} (hb : Bounded bytes bound) {calls : List (Int × UInt64)} (hfit : bound + amounts calls < 2 ^ 64) :
    ∃ ended', Tracks start (fun s => bytes s + recorded b.curObsTime calls s) ended' (addAll b calls) := by
  induction calls generalizing bytes ended b bound with
  | nil => exact ⟨ended, h⟩
  | cons call calls ih =>
    obtain ⟨time, n⟩ := call
    have hsum : amounts ((time, n) :: calls) = n.toNat + amounts calls := rfl
    rw [hsum] at hfit
    by_cases hpast : time < b.curObsTime
    · obtain ⟨ended', htracks⟩ := ih h hb (by omega)
      refine ⟨ended', ?_⟩
      simpa only [addAll, List.foldl_cons, addObs, recorded, if_pos hpast] using htracks
    · obtain ⟨ended', htracks, htime⟩ := h.advances hb (by omega) (time - b.curObsTime).toNat
      have hnow : (advanceObs^[(time - b.curObsTime).toNat] b).curObsTime = time := by omega
      have hrecord := htracks.record hb (show bound + n.toNat < 2 ^ 64 by omega)
      obtain ⟨ended'', hrun⟩ := ih hrecord (hb.add _ n.toNat) (by omega)
      refine ⟨ended'', ?_⟩
      have hcount : (countNow (advanceObs^[(time - b.curObsTime).toNat] b) n).curObsTime = time := hnow
      rw [hcount, hnow] at hrun
      have hbytes : (fun s => moreAt bytes time n.toNat s + recorded time calls s) =
          fun s => bytes s + recorded b.curObsTime ((time, n) :: calls) s := by
        funext s
        rw [recorded, if_neg hpast, moreAt, Nat.add_assoc]
      rw [← hbytes]
      simpa only [addAll, List.foldl_cons, addObs, if_neg hpast] using hrun

/-! ## The largest maximum -/

theorem largestFrom_spec (maxima : Nat → UInt64) (todo i : Nat) (largest : UInt64) :
    (largestFrom maxima todo i largest).toNat =
      max largest.toNat ((Finset.Ico i (i + todo)).sup fun j => (maxima j).toNat) := by
  induction todo generalizing i largest with
  | zero => simp [largestFrom]
  | succ todo ih =>
    have hsplit : Finset.Ico i (i + (todo + 1)) = insert i (Finset.Ico (i + 1) (i + 1 + todo)) := by
      ext j
      rw [Finset.mem_insert, Finset.mem_Ico, Finset.mem_Ico]
      omega
    rw [largestFrom, ih, hsplit, Finset.sup_insert, ← max_assoc]
    congr 1
    simp only [gt_iff_lt, UInt64.lt_iff_toNat_lt]
    split
    next hlt => exact (max_eq_right (Nat.le_of_lt hlt)).symm
    next hnot => exact (max_eq_left (Nat.not_lt.mp hnot)).symm

/-- The largest maximum is that of the periods that still have a slot. -/
theorem Committed.largest {start : Int} {bytes : Int → Nat} {ended : Nat} {b : BwArray}
    (h : Committed start bytes ended b) :
    (findLargestMax b).toNat = (Finset.Ico (ended - NUM_TOTALS) ended).sup (periodMax start bytes) := by
  rw [findLargestMax, largestFrom_spec, Nat.zero_add, UInt64.toNat_zero, Nat.zero_max]
  apply Nat.le_antisymm
  · refine Finset.sup_le fun i hi => ?_
    have hi := (Finset.mem_Ico.mp hi).2
    by_cases hused : i < ended
    · -- The last period that took the slot.
      have hk : ∃ k, k < ended ∧ ended ≤ k + NUM_TOTALS ∧ k % NUM_TOTALS = i := by
        refine ⟨ended - 1 - (ended - 1 - i) % NUM_TOTALS, ?_, ?_, ?_⟩ <;> unfold NUM_TOTALS at * <;> omega
      obtain ⟨k, hlt, hle, rfl⟩ := hk
      rw [h.maxima k hlt hle]
      exact Finset.le_sup (f := periodMax start bytes) (Finset.mem_Ico.mpr ⟨by omega, hlt⟩)
    · rw [(h.unused i (by omega) hi).2]
      exact Nat.zero_le _
  · refine Finset.sup_le fun k hk => ?_
    obtain ⟨hge, hlt⟩ := Finset.mem_Ico.mp hk
    rw [← h.maxima k hlt (by omega)]
    exact Finset.le_sup (f := fun j => (b.maxima j).toNat)
      (Finset.mem_Ico.mpr ⟨Nat.zero_le _, Nat.mod_lt _ (by decide)⟩)

/-- After any calls whose amounts together fit the 64 bits: the total is that of all slots but the current one, every
committed total and maximum is that of its period, and the largest maximum is that of the last periods. -/
theorem history_is_exact (start : Int) (calls : List (Int × UInt64)) (hfit : amounts calls < 2 ^ 64) :
    (addAll (bwArrayNew start) calls).totalObs.toNat =
      ∑ i ∈ (Finset.range NUM_SECS_ROLLING_MEASURE).erase (addAll (bwArrayNew start) calls).curObsIdx,
        ((addAll (bwArrayNew start) calls).obs i).toNat ∧
    ∃ ended : Nat,
      periodStart start ended ≤ (addAll (bwArrayNew start) calls).curObsTime ∧
      (addAll (bwArrayNew start) calls).curObsTime < periodStart start (ended + 1) ∧
      Committed start (recorded start calls) ended (addAll (bwArrayNew start) calls) ∧
      (findLargestMax (addAll (bwArrayNew start) calls)).toNat =
        (Finset.Ico (ended - NUM_TOTALS) ended).sup (periodMax start (recorded start calls)) := by
  have hb : Bounded (fun _ => 0) 0 := fun places => by rw [Finset.sum_const_zero]
  obtain ⟨ended, htracks⟩ := (tracks_new start).run hb (show 0 + amounts calls < 2 ^ 64 by omega)
  simp only [Nat.zero_add] at htracks
  exact ⟨htracks.totalObs_exact, ended, htracks.began, htracks.nextPeriod ▸ htracks.notOver, htracks.committed,
    htracks.committed.largest⟩

/-- Bytes for a second, three seconds later, and late for the second before. -/
theorem late_bytes_are_not_counted :
    (addAll (bwArrayNew 0) [(0, 5), (3, 7), (2, 1)]).totalObs.toNat =
      ∑ i ∈ (Finset.range NUM_SECS_ROLLING_MEASURE).erase (addAll (bwArrayNew 0) [(0, 5), (3, 7), (2, 1)]).curObsIdx,
        ((addAll (bwArrayNew 0) [(0, 5), (3, 7), (2, 1)]).obs i).toNat ∧
    ∃ ended : Nat,
      periodStart 0 ended ≤ (addAll (bwArrayNew 0) [(0, 5), (3, 7), (2, 1)]).curObsTime ∧
      (addAll (bwArrayNew 0) [(0, 5), (3, 7), (2, 1)]).curObsTime < periodStart 0 (ended + 1) ∧
      Committed 0 (recorded 0 [(0, 5), (3, 7), (2, 1)]) ended (addAll (bwArrayNew 0) [(0, 5), (3, 7), (2, 1)]) ∧
      (findLargestMax (addAll (bwArrayNew 0) [(0, 5), (3, 7), (2, 1)])).toNat =
        (Finset.Ico (ended - NUM_TOTALS) ended).sup (periodMax 0 (recorded 0 [(0, 5), (3, 7), (2, 1)])) :=
  history_is_exact 0 [(0, 5), (3, 7), (2, 1)] (by decide)

end Badnet.Stats

/-
  Badnet.Hibernate.WakeupArithmetic — the numbers behind the time to wake up.

  After a soft limit the code divides bytes by seconds and then by 60, where it should multiply: the result is the rate
  only if both are zero (`rate_by_hours_iff`). For a whole interval it divides by the minutes, rounded down
  (`rate_by_minutes_iff`). The time to exhaust what is allowed is a product of 64-bit numbers that wraps around for a
  small usage. The wake-up time lies in the interval in any case (`wakeup_in_interval`).
-/

import Mathlib.Tactic.Ring
import Badnet.Hibernate.Accounting

namespace Badnet.Hibernate

/-! ## Rates -/

/-- A rate divided by `k` is the one multiplied by `k` only when both round to zero. -/
theorem rate_by_hours_iff {n s k : Nat} (hs : 0 < s) (hk : 1 < k) : n / s / k = n * k / s ↔ n * k < s := by
  constructor
  · intro h
    by_contra hge
    have hge : s ≤ n * k := Nat.le_of_not_lt hge
    have hpos : 0 < n * k / s := Nat.div_pos hge hs
    have hn : n / s ≤ n * k / s := Nat.div_le_div_right (Nat.le_mul_of_pos_right n (Nat.lt_of_succ_lt hk))
    have hless : n / s / k < n * k / s := by
      rcases Nat.eq_zero_or_pos (n / s) with hzero | hrate
      · rw [hzero, Nat.zero_div]
        exact hpos
      · exact Nat.lt_of_lt_of_le (Nat.div_lt_self hrate hk) hn
    exact Nat.ne_of_lt hless h
  · intro h
    have hn : n < s := Nat.lt_of_le_of_lt (Nat.le_mul_of_pos_right n (Nat.lt_of_succ_lt hk)) h
    rw [Nat.div_eq_of_lt hn, Nat.div_eq_of_lt h, Nat.zero_div]

/-- A rate by whole minutes is the exact one as long as the seconds left over do not outweigh the remainder. -/
theorem rate_by_minutes_iff {n s k : Nat} (hs : k ≤ s) (hk : 0 < k) :
    n / (s / k) = n * k / s ↔ s % k * (n / (s / k)) ≤ k * (n % (s / k)) := by
  have hm : 0 < s / k := Nat.div_pos hs hk
  have hspos : 0 < s := Nat.lt_of_lt_of_le hk hs
  have hsplit : s = k * (s / k) + s % k := (Nat.div_add_mod s k).symm
  have hn : n = s / k * (n / (s / k)) + n % (s / k) := (Nat.div_add_mod n (s / k)).symm
  generalize s / k = m at *
  generalize s % k = r at *
  generalize hq : n / m = q at *
  have ht : n % m < m := Nat.mod_lt n hm
  generalize n % m = t at *
  have hnk : n * k = q * (k * m) + k * t := by
    rw [hn]
    ring
  have hqs : q * s = q * (k * m) + r * q := by
    rw [hsplit]
    ring
  constructor
  · intro h
    have hle : q * s ≤ n * k := by
      rw [h]
      exact Nat.div_mul_le_self _ _
    rw [hnk, hqs] at hle
    exact Nat.le_of_add_le_add_left hle
  · intro h
    apply Nat.le_antisymm
    · rw [Nat.le_div_iff_mul_le hspos, hnk, hqs]
      exact Nat.add_le_add_left h _
    · apply Nat.le_of_lt_succ
      rw [Nat.div_lt_iff_lt_mul hspos]
      have hkt : k * t < k * m := Nat.mul_lt_mul_of_pos_left ht hk
      have hstep : (q + 1) * s = q * s + s := Nat.succ_mul q s
      rw [Nat.succ_eq_add_one, hstep, hnk, hqs]
      omega

/-! ## The measured span -/

/-- The seconds from the start of the interval to the soft limit. -/
def softSpan (st : Accounting) : Nat := (st.softLimitHitAt.toInt - st.intervalStartTime.toInt).toNat

variable {st : Accounting}

/-- The difference of the two times does not overflow where it is used. -/
theorem softSpan_eq (h : SoftMeasured st) :
    (st.softLimitHitAt - st.intervalStartTime).toUInt64.toNat = softSpan st ∧ 1800 < softSpan st := by
  obtain ⟨hafter, -, hlong⟩ := h
  have hafter := Int64.lt_iff_toInt_lt.mp hafter
  have hlong := Int64.lt_iff_toInt_lt.mp hlong
  have hmin : MIN_TIME_FOR_MEASUREMENT.toInt = 1800 := by decide
  have hlow := st.intervalStartTime.le_toInt
  have hhigh := st.softLimitHitAt.toInt_lt
  have hdiff : (st.softLimitHitAt - st.intervalStartTime).toInt = st.softLimitHitAt.toInt - st.intervalStartTime.toInt := by
    rw [hmin, Int64.toInt_sub, Int.bmod_def] at hlong
    rw [Int64.toInt_sub, Int.bmod_def]
    split at hlong <;> omega
  rw [hmin, hdiff] at hlong
  have hle : (0 : Int64) ≤ st.softLimitHitAt - st.intervalStartTime := by
    rw [Int64.le_iff_toInt_le, hdiff, Int64.toInt_zero]
    omega
  rw [Int64.toNat_toUInt64_of_le hle, Int64.toNatClampNeg, hdiff]
  exact ⟨rfl, by unfold softSpan; omega⟩

/-- The relay was active long enough, and hit no soft limit that counts. -/
def WholeMeasured (st : Accounting) : Prop := ¬ SoftMeasured st ∧ st.nSecondsActiveInInterval ≥ 1800

variable (options : AccountingOptions)

theorem measuredUsage_soft (h : SoftMeasured st) :
    (measuredUsage options st).toNat = st.nBytesAtSoftLimit.toNat / softSpan st / 60 := by
  rw [measuredUsage, if_pos h, UInt64.toNat_div, UInt64.toNat_div, (softSpan_eq h).1]
  rfl

theorem measuredUsage_whole (h : WholeMeasured st) :
    (measuredUsage options st).toNat = (getAccountingBytes options st).toNat / (st.nSecondsActiveInInterval.toNat / 60) := by
  rw [measuredUsage, if_neg h.1, if_pos h.2, UInt64.toNat_div, UInt32.toNat_toUInt64, UInt32.toNat_div]
  rfl

/-! ## The time to wake up -/

theorem timeToExhaustBw_toNat (st : Accounting) :
    (timeToExhaustBw options st).toNat =
      options.accountingMax.toNat / st.expectedBandwidthUsage.toNat * 60 % 18446744073709551616 := by
  rw [timeToExhaustBw, UInt64.toNat_mul, UInt64.toNat_div]
  rfl

theorem timeToExhaustBw_exact_iff (st : Accounting) :
    (timeToExhaustBw options st).toNat = options.accountingMax.toNat / st.expectedBandwidthUsage.toNat * 60 ↔
    options.accountingMax.toNat / st.expectedBandwidthUsage.toNat * 60 < 18446744073709551616 := by
  rw [timeToExhaustBw_toNat]
  exact Nat.mod_eq_iff_lt (by decide)

/-- The lengths are taken modulo 2^32, and still what is considered is not longer than the interval. -/
theorem timeToConsider_le (hinterval : st.intervalStartTime < st.intervalEndTime)
    (hpos : ¬ timeToConsider options st ≤ 0) :
    0 < (timeToConsider options st).toInt ∧
    (timeToConsider options st).toInt ≤ st.intervalEndTime.toInt - st.intervalStartTime.toInt := by
  have hlt := Int64.lt_iff_toInt_lt.mp hinterval
  rw [Int32.le_iff_toInt_le, Int32.toInt_zero] at hpos
  refine ⟨Int.not_le.mp hpos, ?_⟩
  unfold timeToConsider at hpos ⊢
  split at hpos
  · rw [Int32.toInt_zero] at hpos
    omega
  next hmax =>
    rw [if_neg hmax]
    have hle : (timeToExhaustBw options st).toNat ≤ 2147483647 := UInt64.le_iff_toNat_le.mp (UInt64.not_lt.mp hmax)
    have hexhaust : (timeToExhaustBw options st).toUInt32.toInt32.toInt = (timeToExhaustBw options st).toNat := by
      have hint : ∀ x : UInt32, x.toInt32.toInt = (x.toNat : Int).bmod (2 ^ 32) := fun x =>
        BitVec.toInt_eq_toNat_bmod x.toBitVec
      rw [hint, UInt64.toNat_toUInt32, Nat.mod_eq_of_lt (Nat.lt_of_le_of_lt hle (by decide)),
        Int.bmod_eq_of_le (by omega) (by omega)]
    have hlow := st.intervalStartTime.le_toInt
    have hhigh := st.intervalEndTime.toInt_lt
    simp only [accountingGetIntervalLength, Int32.toInt_sub, hexhaust, Int64.toInt_toInt32, Int64.toInt_sub,
      Int.bmod_def] at hpos ⊢
    omega

theorem wakeup_in_interval (hinterval : st.intervalStartTime < st.intervalEndTime) (draw : UInt32) :
    st.intervalStartTime ≤ (accountingSetWakeupTime options st draw).intervalWakeupTime ∧
    (accountingSetWakeupTime options st draw).intervalWakeupTime < st.intervalEndTime := by
  unfold accountingSetWakeupTime
  split
  · exact ⟨Int64.le_refl _, hinterval⟩
  · split
    · exact ⟨Int64.le_refl _, hinterval⟩
    next hpos =>
      obtain ⟨hconsider, hle⟩ := timeToConsider_le options hinterval hpos
      have hlow := st.intervalStartTime.le_toInt
      have hhigh := st.intervalEndTime.toInt_lt
      have hclamp : (timeToConsider options st).toUInt32.toNat = (timeToConsider options st).toInt.toNat := by
        rw [Int32.toNat_toUInt32_of_le (Int32.le_iff_toInt_le.mpr (by rw [Int32.toInt_zero]; omega)), Int32.toNatClampNeg]
      have hdraw : (draw % (timeToConsider options st).toUInt32).toNat < (timeToConsider options st).toInt.toNat := by
        rw [UInt32.toNat_mod, hclamp]
        exact Nat.mod_lt _ (by omega)
      have hrange := (timeToConsider options st).toInt_lt
      have hoffset : (draw % (timeToConsider options st).toUInt32).toUInt64.toInt64.toInt =
          (draw % (timeToConsider options st).toUInt32).toNat := by
        have hint : ∀ x : UInt64, x.toInt64.toInt = (x.toNat : Int).bmod (2 ^ 64) := fun x =>
          BitVec.toInt_eq_toNat_bmod x.toBitVec
        rw [hint, UInt32.toNat_toUInt64, Int.bmod_eq_of_le (by omega) (by omega)]
      have hsum : (st.intervalStartTime + (draw % (timeToConsider options st).toUInt32).toUInt64.toInt64).toInt =
          st.intervalStartTime.toInt + (draw % (timeToConsider options st).toUInt32).toNat := by
        rw [Int64.toInt_add, hoffset, Int.bmod_eq_of_le (by omega) (by omega)]
      rw [Int64.le_iff_toInt_le, Int64.lt_iff_toInt_lt, hsum]
      omega

/-! ## All of it -/

/-- What the arithmetic is meant to compute, in a state of the counters. -/
structure Consistent (options : AccountingOptions) (st : Accounting) (draw : UInt32) : Prop where
  capped : (updateExpectedBandwidth options st).expectedBandwidthUsage = min (measuredUsage options st) (maxConfigured options)
  soft : SoftMeasured st → (measuredUsage options st).toNat = st.nBytesAtSoftLimit.toNat * 60 / softSpan st
  whole : WholeMeasured st → (measuredUsage options st).toNat =
    (getAccountingBytes options st).toNat * 60 / st.nSecondsActiveInInterval.toNat
  exhaust : st.expectedBandwidthUsage ≠ 0 → (timeToExhaustBw options st).toNat =
    options.accountingMax.toNat / st.expectedBandwidthUsage.toNat * 60
  wakeup : st.intervalStartTime ≤ (accountingSetWakeupTime options st draw).intervalWakeupTime ∧
    (accountingSetWakeupTime options st draw).intervalWakeupTime < st.intervalEndTime

/-- The bytes up to the soft limit are less than one in a minute, the seconds left over do not outweigh the remainder
of the bytes, and the seconds until the quota is used up are a 64-bit number. -/
structure InRange (options : AccountingOptions) (st : Accounting) : Prop where
  soft : SoftMeasured st → st.nBytesAtSoftLimit.toNat * 60 < softSpan st
  whole : WholeMeasured st →
    st.nSecondsActiveInInterval.toNat % 60 *
      ((getAccountingBytes options st).toNat / (st.nSecondsActiveInInterval.toNat / 60)) ≤
    60 * ((getAccountingBytes options st).toNat % (st.nSecondsActiveInInterval.toNat / 60))
  exhaust : st.expectedBandwidthUsage ≠ 0 →
    options.accountingMax.toNat / st.expectedBandwidthUsage.toNat * 60 < 18446744073709551616

theorem update_capped (st : Accounting) :
    (updateExpectedBandwidth options st).expectedBandwidthUsage = min (measuredUsage options st) (maxConfigured options) := by
  change (if measuredUsage options st > maxConfigured options then maxConfigured options else measuredUsage options st) =
    if measuredUsage options st ≤ maxConfigured options then measuredUsage options st else maxConfigured options
  by_cases h : measuredUsage options st > maxConfigured options
  · rw [if_pos h, if_neg (UInt64.not_le.mpr h)]
  · rw [if_neg h, if_pos (UInt64.not_lt.mp h)]

/-- After any history, whatever the counters held before it. -/
theorem wakeup_arithmetic_iff (options : AccountingOptions) (st : Accounting) (history : List AccountingEvent) (draw : UInt32)
    (hinterval : (accountingRun st history).intervalStartTime < (accountingRun st history).intervalEndTime) :
    Consistent options (accountingRun st history) draw ↔ InRange options (accountingRun st history) := by
  generalize accountingRun st history = st at hinterval ⊢
  have hsoft : SoftMeasured st → ((measuredUsage options st).toNat = st.nBytesAtSoftLimit.toNat * 60 / softSpan st ↔
      st.nBytesAtSoftLimit.toNat * 60 < softSpan st) := by
    intro h
    rw [measuredUsage_soft options h]
    exact rate_by_hours_iff (Nat.lt_trans (by decide) (softSpan_eq h).2) (by decide)
  have hwhole : WholeMeasured st → ((measuredUsage options st).toNat =
      (getAccountingBytes options st).toNat * 60 / st.nSecondsActiveInInterval.toNat ↔
      st.nSecondsActiveInInterval.toNat % 60 *
        ((getAccountingBytes options st).toNat / (st.nSecondsActiveInInterval.toNat / 60)) ≤
      60 * ((getAccountingBytes options st).toNat % (st.nSecondsActiveInInterval.toNat / 60))) := by
    intro h
    have hactive : 1800 ≤ st.nSecondsActiveInInterval.toNat := UInt32.le_iff_toNat_le.mp h.2
    rw [measuredUsage_whole options h]
    exact rate_by_minutes_iff (Nat.le_trans (by decide) hactive) (by decide)
  constructor
  · intro h
    exact ⟨fun hs => (hsoft hs).mp (h.soft hs), fun hw => (hwhole hw).mp (h.whole hw),
      fun he => (timeToExhaustBw_exact_iff options st).mp (h.exhaust he)⟩
  · intro h
    exact ⟨update_capped options st, fun hs => (hsoft hs).mpr (h.soft hs), fun hw => (hwhole hw).mpr (h.whole hw),
      fun he => (timeToExhaustBw_exact_iff options st).mpr (h.exhaust he), wakeup_in_interval options hinterval draw⟩

/-- 7200 bytes in the first two hours of an interval, and then the soft limit. -/
def softHistory : List AccountingEvent :=
  [.newInterval ⟨0, .MAX, 1, 0⟩ 0 86400, .addBytes 7200 0 9, .softLimit ⟨0, .MAX, 1, 0⟩ 7200]

def freshAccounting : Accounting := ⟨0, 0, 0, 0, 0, 0, 0, 0, 0⟩

def gigabyteOptions : AccountingOptions := ⟨1073741824, .MAX, 1024, 0⟩

/-- A gigabyte in an interval, and one byte a second up to the soft limit after two hours: 60 bytes a minute are expected
    to be none. -/
theorem a_soft_limit_makes_the_usage_vanish :
    (updateExpectedBandwidth gigabyteOptions (accountingRun freshAccounting softHistory)).expectedBandwidthUsage = 0 ∧
    7200 * 60 / softSpan (accountingRun freshAccounting softHistory) = 60 ∧
    ¬ Consistent gigabyteOptions (accountingRun freshAccounting softHistory) 0 := by
  have hmeasured : SoftMeasured (accountingRun freshAccounting softHistory) := by decide +kernel
  have hzero : (measuredUsage gigabyteOptions (accountingRun freshAccounting softHistory)).toNat = 0 := by decide +kernel
  have hrate : (accountingRun freshAccounting softHistory).nBytesAtSoftLimit.toNat * 60 /
      softSpan (accountingRun freshAccounting softHistory) = 60 := by decide +kernel
  refine ⟨by decide +kernel, by decide +kernel, fun h => ?_⟩
  have hsoft := h.soft hmeasured
  rw [hzero, hrate] at hsoft
  exact absurd hsoft (by decide)

/-- A byte a second for half an hour. -/
def quietHistory : List AccountingEvent := .newInterval gigabyteOptions 0 86400 :: List.replicate 200 (.addBytes 9 0 9)

theorem wakeup_arithmetic_of_quiet_relay :
    (accountingRun freshAccounting quietHistory).intervalStartTime < (accountingRun freshAccounting quietHistory).intervalEndTime ∧
    (Consistent gigabyteOptions (accountingRun freshAccounting quietHistory) 7 ↔
      InRange gigabyteOptions (accountingRun freshAccounting quietHistory)) :=
  have hinterval : (accountingRun freshAccounting quietHistory).intervalStartTime <
      (accountingRun freshAccounting quietHistory).intervalEndTime := by decide +kernel
  ⟨hinterval, wakeup_arithmetic_iff gigabyteOptions freshAccounting quietHistory 7 hinterval⟩

end Badnet.Hibernate

/-
  Badnet.Dirauth.TotalBandwidth — the bandwidth totals of a consensus (`update_total_bandwidth_weights`).

  A guard with guardfraction information is split: one part goes to G or D, the rest to M or E. T gets the first part
  only, and a bandwidth that does not fit in an `int` is taken as a negative number. So the totals add up if and only if
  every bandwidth fits and no split leaves a rest (`totals_conserved_iff`).
-/

import Badnet.Lib.Binary64
import Mathlib.Algebra.Order.Field.Basic

namespace Badnet.Dirauth

open Lib Float.Model Float.Model.UnpackedFloat

/-- What is read of a `routerstatus_t`, and the two flags the caller passes with it. -/
structure RouterEntry where
  hasBandwidth : Bool
  bandwidthKb : UInt32
  hasGuardfraction : Bool
  guardfractionPercentage : UInt32
  isExit : Bool
  isGuard : Bool
  deriving DecidableEq

/-- No list of routers is so long that a total would leave the range of `int64_t`. -/
structure PoolTotals where
  G : Int
  M : Int
  E : Int
  D : Int
  T : Int
  deriving DecidableEq

/-- The assertions. -/
inductive Assertion where
  | isGuard
  | percentage
  | guardBw
  deriving DecidableEq

structure GuardfractionBandwidth where
  guardBw : Int32
  nonGuardBw : Int32

/-- `guardfraction_percentage / 100.0`, in doubles. -/
def guardfractionFraction (percentage : UInt32) : UnpackedFloat :=
  .div .binary64 (.ofUInt32 .binary64 percentage) (.ofNat .binary64 100)

def guardBw (origBandwidth : Int32) (percentage : UInt32) : Int :=
  lround (.mul .binary64 (guardfractionFraction percentage) (.ofInt32 .binary64 origBandwidth))

def guardGetGuardfractionBandwidth (origBandwidth : Int32) (percentage : UInt32) :
    Except Assertion GuardfractionBandwidth :=
  if ¬ percentage ≤ 100 then .error .percentage
  else if ¬ guardBw origBandwidth percentage ≤ 2147483647 then .error .guardBw
  else
    .ok
      { guardBw := .ofInt (guardBw origBandwidth percentage)
        nonGuardBw := origBandwidth - .ofInt (guardBw origBandwidth percentage) }

/-- `default_bandwidth` and `guardfraction_bandwidth`. -/
def splitBandwidth (rs : RouterEntry) : Except Assertion GuardfractionBandwidth :=
  if rs.hasGuardfraction then
    if ¬ rs.isGuard then .error .isGuard
    else guardGetGuardfractionBandwidth rs.bandwidthKb.toInt32 rs.guardfractionPercentage
  else .ok { guardBw := rs.bandwidthKb.toInt32, nonGuardBw := 0 }

def addToPools (t : PoolTotals) (rs : RouterEntry) (dflt guardfraction : Int) : PoolTotals :=
  let t := { t with T := t.T + dflt }
  if rs.isExit ∧ rs.isGuard then
    { t with D := t.D + dflt, E := if rs.hasGuardfraction then t.E + guardfraction else t.E }
  else if rs.isExit then { t with E := t.E + dflt }
  else if rs.isGuard then
    { t with G := t.G + dflt, M := if rs.hasGuardfraction then t.M + guardfraction else t.M }
  else { t with M := t.M + dflt }

def updateTotalBandwidthWeights (t : PoolTotals) (rs : RouterEntry) : Except Assertion PoolTotals :=
  if ¬ rs.hasBandwidth then .ok t
  else do
    let bw ← splitBandwidth rs
    .ok (addToPools t rs bw.guardBw.toInt bw.nonGuardBw.toInt)

def totalBandwidth (routers : List RouterEntry) : Except Assertion PoolTotals :=
  routers.foldlM updateTotalBandwidthWeights { G := 0, M := 0, E := 0, D := 0, T := 0 }

/-! ## The split -/

/-- The double of each percentage is the fraction, up to a last bit. -/
theorem fraction_near : ((List.range 100).all fun k =>
    match guardfractionFraction (.ofNat (k + 1)) with
    | .finite .positive m (.negSucc n) _ =>
      decide ((100 * (m : Int) - (k + 1 : Nat) * 2 ^ (n + 1)).natAbs * 2 ^ 53 ≤ 100 * 2 ^ (n + 1))
    | _ => false) = true := by
  decide +kernel

/-- What is half a unit short is rounded up, in doubles as well. -/
theorem half_rounds_up : ((List.range 51).all fun n => (List.range 101).all fun p =>
    n * (100 - p) != 50 || guardBw (.ofNat n) (.ofNat p) == n) = true := by
  decide +kernel

variable {pct : UInt32} {orig : Int32} {n : Nat}

theorem fraction_cases (h0 : 0 < pct.toNat) (h100 : pct.toNat ≤ 100) :
    ∃ m e h, guardfractionFraction pct = .finite .positive m e h ∧
      |(m : ℚ) * 2 ^ e - pct.toNat / 100| * 2 ^ 53 ≤ 1 := by
  have hall := List.all_eq_true.mp fraction_near (pct.toNat - 1) (List.mem_range.mpr (by omega))
  rw [Nat.sub_add_cancel h0, UInt32.ofNat_toNat] at hall
  split at hall
  · next m n hm heq =>
    refine ⟨m, .negSucc n, hm, heq, ?_⟩
    have hnear : (((100 * (m : Int) - pct.toNat * 2 ^ (n + 1)).natAbs : Int) : ℚ) * 2 ^ 53 ≤ 100 * 2 ^ (n + 1) := by
      exact_mod_cast of_decide_eq_true hall
    have hpow : (0 : ℚ) < 2 ^ (n + 1) := by positivity
    rw [Int.natCast_natAbs] at hnear
    push_cast at hnear
    have hvalue : (m : ℚ) * 2 ^ Int.negSucc n - pct.toNat / 100 =
        (100 * m - pct.toNat * 2 ^ (n + 1)) / (100 * 2 ^ (n + 1)) := by
      rw [zpow_negSucc]
      field_simp
    rw [hvalue, abs_div, abs_of_pos (a := 100 * 2 ^ (n + 1)) (by positivity), div_mul_eq_mul_div, div_le_one (by positivity)]
    exact hnear
  · cases hall

theorem guardBw_zero_bandwidth (pct : UInt32) : guardBw 0 pct = 0 := by
  have hzero : UnpackedFloat.ofInt32 .binary64 0 = .zero .positive := rfl
  rw [guardBw, hzero]
  cases guardfractionFraction pct <;> rfl

theorem guardBw_zero_percent (orig : Int32) : guardBw orig 0 = 0 := by
  have hzero : guardfractionFraction 0 = .zero .positive := rfl
  rw [guardBw, hzero]
  cases UnpackedFloat.ofInt32 .binary64 orig <;> rfl

theorem ofInt32_exact (hn : orig.toInt = n) (hn0 : 0 < n) :
    ∃ m e h, UnpackedFloat.ofInt32 .binary64 orig = .finite .positive m e h ∧ (m : ℚ) * 2 ^ e = n := by
  have hlt := orig.toInt_lt
  have hlog : n.log2 < 53 := (Nat.log2_lt (by omega)).mpr (by omega)
  have hround : UnpackedFloat.ofInt32 .binary64 orig = UnpackedFloat.round .binary64 .positive n 0 := by
    rw [UnpackedFloat.ofInt32, UnpackedFloat.ofInt, hn, UnpackedFloat.normalize, Int.compare_eq_gt.mpr (by omega)]
    rfl
  rw [hround]
  exact round_nat_exact .positive hn0 hlog (by decide)

/-- The part is the percentage up to a half, and a little for the doubles. -/
theorem guardBw_near (hn : orig.toInt = n) (hn0 : 0 < n) (h0 : 0 < pct.toNat) (h100 : pct.toNat ≤ 100) :
    ∃ g : Nat, guardBw orig pct = g ∧ (g : ℚ) ≤ pct.toNat * n / 100 + 1 / 2 + 1 / 1000 ∧
      (pct.toNat * n / 100 : ℚ) + 1 / 2 - 1 / 1000 < g + 1 := by
  obtain ⟨m1, e1, h1, hq, hnear⟩ := fraction_cases h0 h100
  obtain ⟨m2, e2, h2, hb, hexact⟩ := ofInt32_exact hn hn0
  have hlt := orig.toInt_lt
  have hn1 : (1 : ℚ) ≤ n := by exact_mod_cast hn0
  have hnmax : (n : ℚ) ≤ 2147483648 := by
    have : n ≤ 2147483648 := by omega
    exact_mod_cast this
  have hp1 : (1 : ℚ) ≤ pct.toNat := by exact_mod_cast h0
  have hp100 : (pct.toNat : ℚ) ≤ 100 := by exact_mod_cast h100
  generalize hqv : (m1 : ℚ) * 2 ^ e1 = q at hnear
  obtain ⟨hqlow, hqup⟩ := abs_le.mp (show |q - pct.toNat / 100| ≤ 1 / 2 ^ 53 by
    rw [le_div_iff₀ (by positivity)]
    exact hnear)
  have hk : (2 : ℚ) ^ (-7 : Int) ≤ q * n := by
    have hq1 : (1 : ℚ) / 128 ≤ q := by linarith
    calc (2 : ℚ) ^ (-7 : Int) = 1 / 128 * 1 := by norm_num
      _ ≤ q * n := by gcongr
  obtain ⟨m, e, hm, hmul, herror⟩ : ∃ m e h, UnpackedFloat.mul .binary64 (.finite .positive m1 e1 h1)
      (.finite .positive m2 e2 h2) = .finite .positive m e h ∧ |(m : ℚ) * 2 ^ e - q * n| * 2 ^ 53 ≤ q * n :=
    mul_error .positive .positive h1 h2 hqv hexact hk (by decide)
  refine ⟨roundHalf m e, by rw [guardBw, hq, hb, hmul]; rfl, ?_⟩
  obtain ⟨hglow, hgup⟩ := roundHalf_bounds m e
  generalize (m : ℚ) * 2 ^ e = v at herror hglow hgup
  have hqn : |v - q * n| ≤ 2 * n / 2 ^ 53 := by
    rw [le_div_iff₀ (by positivity)]
    have hq2 : q ≤ 2 := by linarith
    exact herror.trans (by gcongr)
  obtain ⟨hvlow, hvup⟩ := abs_le.mp hqn
  have hlow : (pct.toNat / 100 - 1 / 2 ^ 53 : ℚ) * n ≤ q * n := by
    gcongr
    linarith
  have hup : q * n ≤ (pct.toNat / 100 + 1 / 2 ^ 53 : ℚ) * n := by
    gcongr
    linarith
  constructor <;> linarith

theorem guardBw_bounds (hn : orig.toInt = n) (h100 : pct.toNat ≤ 100) :
    0 ≤ guardBw orig pct ∧ guardBw orig pct ≤ n ∧ (guardBw orig pct = n ↔ n * (100 - pct.toNat) ≤ 50) := by
  rcases Nat.eq_zero_or_pos n with rfl | hn0
  · have horig : orig = 0 := Int32.toInt_inj.mp hn
    rw [horig, guardBw_zero_bandwidth]
    omega
  rcases Nat.eq_zero_or_pos pct.toNat with hzero | h0
  · have hpct : pct = 0 := UInt32.toNat_inj.mp hzero
    rw [hpct, guardBw_zero_percent]
    show (0 : Int) ≤ 0 ∧ (0 : Int) ≤ n ∧ ((0 : Int) = n ↔ n * (100 - 0) ≤ 50)
    omega
  obtain ⟨g, hg, hlow, hup⟩ := guardBw_near hn hn0 h0 h100
  rw [hg]
  have hle : g ≤ n := by
    have hp : (pct.toNat : ℚ) * n ≤ 100 * n := by
      gcongr
      exact_mod_cast h100
    have : (g : ℚ) < n + 1 := by linarith
    exact Nat.lt_succ_iff.mp (by exact_mod_cast this)
  have hrest : ((n * (100 - pct.toNat) : Nat) : ℚ) = 100 * n - pct.toNat * n := by
    rw [Nat.mul_sub]
    push_cast [Nat.mul_le_mul_left n h100]
    ring
  refine ⟨by omega, by omega, fun heq => ?_, fun hsmall => ?_⟩
  · have hgn : g = n := by omega
    rw [hgn] at hlow
    have : ((n * (100 - pct.toNat) : Nat) : ℚ) < 51 := by linarith
    exact Nat.lt_succ_iff.mp (by exact_mod_cast this)
  · rcases Nat.lt_or_eq_of_le hsmall with hlt | hhalf
    · have hlt' : ((n * (100 - pct.toNat) : Nat) : ℚ) ≤ 49 := by exact_mod_cast Nat.le_of_lt_succ hlt
      have : (n : ℚ) < g + 1 := by linarith
      have : n < g + 1 := by exact_mod_cast this
      omega
    · have hn50 : n ≤ 50 := hhalf ▸ Nat.le_mul_of_pos_right n (Nat.pos_of_ne_zero fun h => by rw [h] at hhalf; cases hhalf)
      have hall := List.all_eq_true.mp (List.all_eq_true.mp half_rounds_up n (List.mem_range.mpr (by omega))) pct.toNat
        (List.mem_range.mpr (by omega))
      have horig : orig = .ofNat n := Int32.toInt_inj.mp (by rw [hn, Int32.toInt_ofNat_of_lt (by omega)])
      rw [hhalf, UInt32.ofNat_toNat, ← horig, hg] at hall
      simpa using hall

/-! ## The totals -/

variable {t t' : PoolTotals} {rs : RouterEntry} {routers : List RouterEntry}

/-- The bandwidth fits in an `int`, and the percentage leaves at most half a unit of it. -/
def RouterEntry.Whole (rs : RouterEntry) : Prop :=
  rs.hasBandwidth = true → rs.bandwidthKb.toNat ≤ 2147483647 ∧ (rs.hasGuardfraction = true →
    rs.isGuard = true ∧ rs.guardfractionPercentage.toNat ≤ 100 ∧
      rs.bandwidthKb.toNat * (100 - rs.guardfractionPercentage.toNat) ≤ 50)

/-- What an entry has to add. -/
def RouterEntry.bandwidth (rs : RouterEntry) : Int := if rs.hasBandwidth then rs.bandwidthKb.toNat else 0

def PoolTotals.pools (t : PoolTotals) : Int := t.G + t.M + t.E + t.D

theorem toInt32_of_le {x : UInt32} (h : x.toNat ≤ 2147483647) : x.toInt32.toInt = x.toNat := by
  have hint : x.toInt32.toInt = (x.toNat : Int).bmod (2 ^ 32) := BitVec.toInt_eq_toNat_bmod x.toBitVec
  rw [hint, Int.bmod_eq_of_le (by omega) (by omega)]

theorem guardGet_ok {bw : GuardfractionBandwidth} (h : guardGetGuardfractionBandwidth orig pct = .ok bw) :
    pct.toNat ≤ 100 ∧ bw.guardBw = .ofInt (guardBw orig pct) := by
  rw [guardGetGuardfractionBandwidth] at h
  split at h
  · cases h
  · next hpct =>
    split at h
    · cases h
    · rw [← Except.ok.inj h]
      exact ⟨UInt32.le_iff_toNat_le.mp (not_not.mp hpct), rfl⟩

/-- The part that is added to T, and when it is all of the bandwidth. -/
theorem split_default {bw : GuardfractionBandwidth} (h : splitBandwidth rs = .ok bw) :
    bw.guardBw.toInt ≤ rs.bandwidthKb.toNat ∧ (bw.guardBw.toInt = rs.bandwidthKb.toNat → rs.Whole) := by
  have hmax := bw.guardBw.toInt_lt
  rw [splitBandwidth] at h
  by_cases hfits : rs.bandwidthKb.toNat ≤ 2147483647
  · by_cases hgf : rs.hasGuardfraction
    · rw [if_pos hgf] at h
      by_cases hguard : rs.isGuard = true
      · rw [if_neg (not_not_intro hguard)] at h
        obtain ⟨h100, hbw⟩ := guardGet_ok h
        obtain ⟨hlow, hup, hall⟩ := guardBw_bounds (toInt32_of_le hfits) h100
        rw [hbw, Int32.toInt_ofInt_of_le (by omega) (by omega)]
        exact ⟨hup, fun heq _ => ⟨hfits, fun _ => ⟨hguard, h100, hall.mp heq⟩⟩⟩
      · rw [if_pos hguard] at h
        cases h
    · rw [if_neg hgf] at h
      rw [← Except.ok.inj h]
      dsimp only
      rw [toInt32_of_le hfits]
      exact ⟨Int.le_refl _, fun _ _ => ⟨hfits, fun hg => absurd hg hgf⟩⟩
  · exact ⟨by omega, fun heq => by omega⟩

/-- An entry that is whole leaves no rest. -/
theorem split_whole (hbw : rs.hasBandwidth = true) (h : rs.Whole) :
    ∃ bw, splitBandwidth rs = .ok bw ∧ bw.guardBw.toInt = rs.bandwidthKb.toNat ∧ bw.nonGuardBw.toInt = 0 := by
  obtain ⟨hfits, hgf⟩ := h hbw
  have hint := toInt32_of_le hfits
  by_cases hg : rs.hasGuardfraction = true
  · obtain ⟨hguard, h100, hrest⟩ := hgf hg
    have hall := (guardBw_bounds hint h100).2.2.mpr hrest
    have hle : rs.guardfractionPercentage ≤ 100 := UInt32.le_iff_toNat_le.mpr h100
    refine ⟨{ guardBw := .ofInt (guardBw rs.bandwidthKb.toInt32 rs.guardfractionPercentage)
              nonGuardBw := rs.bandwidthKb.toInt32 -
                .ofInt (guardBw rs.bandwidthKb.toInt32 rs.guardfractionPercentage) }, ?_, ?_, ?_⟩
    · rw [splitBandwidth, if_pos hg, if_neg (not_not_intro hguard), guardGetGuardfractionBandwidth,
        if_neg (not_not_intro hle), if_neg (by omega)]
    · dsimp only
      rw [hall, Int32.toInt_ofInt_of_le (by omega) (by omega)]
    · dsimp only
      rw [hall, Int32.toInt_sub, hint, Int32.toInt_ofInt_of_le (by omega) (by omega), Int.sub_self]
      rfl
  · exact ⟨{ guardBw := rs.bandwidthKb.toInt32, nonGuardBw := 0 }, if_neg hg, hint, rfl⟩

theorem addToPools_T (t : PoolTotals) (rs : RouterEntry) (d g : Int) : (addToPools t rs d g).T = t.T + d := by
  rw [addToPools]
  split
  · rfl
  · split
    · rfl
    · split <;> rfl

theorem addToPools_pools (t : PoolTotals) (rs : RouterEntry) (d : Int) : (addToPools t rs d 0).pools = t.pools + d := by
  rw [addToPools]
  split
  · simp only [PoolTotals.pools, Int.add_zero, ite_self]
    omega
  · split
    · simp only [PoolTotals.pools]
      omega
    · split
      · simp only [PoolTotals.pools, Int.add_zero, ite_self]
        omega
      · simp only [PoolTotals.pools]
        omega

/-- T grows by no more than the bandwidth, and by all of it only when the entry is whole. -/
theorem update_T (h : updateTotalBandwidthWeights t rs = .ok t') :
    t'.T ≤ t.T + rs.bandwidth ∧ (t'.T = t.T + rs.bandwidth → rs.Whole) := by
  rw [updateTotalBandwidthWeights] at h
  by_cases hbw : rs.hasBandwidth = true
  · rw [if_neg (not_not_intro hbw)] at h
    cases hsplit : splitBandwidth rs with
    | error a =>
      rw [hsplit] at h
      cases h
    | ok bw =>
      rw [hsplit] at h
      obtain ⟨hle, heq⟩ := split_default hsplit
      rw [← Except.ok.inj h, addToPools_T, RouterEntry.bandwidth, if_pos hbw]
      exact ⟨by omega, fun h => heq (by omega)⟩
  · rw [if_pos hbw] at h
    rw [← Except.ok.inj h, RouterEntry.bandwidth, if_neg hbw]
    exact ⟨by omega, fun _ hbw' => absurd hbw' hbw⟩

theorem update_whole (t : PoolTotals) (h : rs.Whole) :
    ∃ t', updateTotalBandwidthWeights t rs = .ok t' ∧ t'.T = t.T + rs.bandwidth ∧
      t'.pools = t.pools + rs.bandwidth := by
  by_cases hbw : rs.hasBandwidth = true
  · obtain ⟨bw, hsplit, hguard, hrest⟩ := split_whole hbw h
    refine ⟨addToPools t rs bw.guardBw.toInt bw.nonGuardBw.toInt, ?_, ?_, ?_⟩
    · rw [updateTotalBandwidthWeights, if_neg (not_not_intro hbw), hsplit]
      rfl
    · rw [addToPools_T, hguard, RouterEntry.bandwidth, if_pos hbw]
    · rw [hrest, addToPools_pools, hguard, RouterEntry.bandwidth, if_pos hbw]
  · refine ⟨t, if_pos hbw, ?_, ?_⟩ <;> rw [RouterEntry.bandwidth, if_neg hbw, Int.add_zero]

theorem fold_T (h : routers.foldlM updateTotalBandwidthWeights t = .ok t') :
    t'.T ≤ t.T + (routers.map (·.bandwidth)).sum ∧
      (t'.T = t.T + (routers.map (·.bandwidth)).sum → ∀ rs ∈ routers, rs.Whole) := by
  induction routers generalizing t with
  | nil =>
    rw [← Except.ok.inj h]
    exact ⟨Int.le_of_eq (Int.add_zero _).symm, fun _ rs hrs => absurd hrs List.not_mem_nil⟩
  | cons rs routers ih =>
    rw [List.foldlM_cons] at h
    cases hstep : updateTotalBandwidthWeights t rs with
    | error a =>
      rw [hstep] at h
      cases h
    | ok t1 =>
      rw [hstep] at h
      obtain ⟨hle, hwhole⟩ := update_T hstep
      obtain ⟨hrest, hall⟩ := ih h
      rw [List.map_cons, List.sum_cons]
      refine ⟨by omega, fun heq r hr => ?_⟩
      rcases List.mem_cons.mp hr with rfl | hr
      · exact hwhole (by omega)
      · exact hall (by omega) r hr

theorem fold_whole (t : PoolTotals) (h : ∀ rs ∈ routers, rs.Whole) :
    ∃ t', routers.foldlM updateTotalBandwidthWeights t = .ok t' ∧ t'.T = t.T + (routers.map (·.bandwidth)).sum ∧
      t'.pools = t.pools + (routers.map (·.bandwidth)).sum := by
  induction routers generalizing t with
  | nil => exact ⟨t, rfl, (Int.add_zero _).symm, (Int.add_zero _).symm⟩
  | cons rs routers ih =>
    obtain ⟨t1, hstep, hT, hpools⟩ := update_whole t (h rs List.mem_cons_self)
    obtain ⟨t', hfold, hT', hpools'⟩ := ih t1 fun r hr => h r (List.mem_cons_of_mem _ hr)
    refine ⟨t', ?_, ?_, ?_⟩
    · rw [List.foldlM_cons, hstep]
      exact hfold
    · rw [hT', hT, List.map_cons, List.sum_cons, Int.add_assoc]
    · rw [hpools', hpools, List.map_cons, List.sum_cons, Int.add_assoc]

/-- The totals of a list: T is the sum of the pools and of the bandwidths. -/
def AddsUp (routers : List RouterEntry) : Prop :=
  ∃ t, totalBandwidth routers = .ok t ∧ t.T = t.G + t.M + t.E + t.D ∧ t.T = (routers.map (·.bandwidth)).sum

/-- The totals add up exactly when every entry is whole. -/
theorem totals_conserved_iff (routers : List RouterEntry) : AddsUp routers ↔ ∀ rs ∈ routers, rs.Whole := by
  constructor
  · rintro ⟨t, hfold, -, hsum⟩
    exact (fold_T hfold).2 (by rw [hsum]; exact (Int.zero_add _).symm)
  · intro h
    obtain ⟨t, hfold, hT, hpools⟩ := fold_whole { G := 0, M := 0, E := 0, D := 0, T := 0 } h
    refine ⟨t, hfold, ?_, ?_⟩
    · rw [hT, ← PoolTotals.pools, hpools]
      rfl
    · rw [hT]
      exact Int.zero_add _

/-- A guard of which the clients see three fifths. -/
def splitGuard : RouterEntry :=
  { hasBandwidth := true, bandwidthKb := 1000, hasGuardfraction := true, guardfractionPercentage := 60, isExit := false,
    isGuard := true }

/-- Its bandwidth is in G and M, but T has the part in G only. -/
theorem total_misses_the_rest :
    totalBandwidth [splitGuard] = .ok { G := 600, M := 400, E := 0, D := 0, T := 600 } ∧ ¬ AddsUp [splitGuard] := by
  have h : totalBandwidth [splitGuard] = .ok { G := 600, M := 400, E := 0, D := 0, T := 600 } := by decide +kernel
  refine ⟨h, ?_⟩
  rintro ⟨t, ht, hsum, -⟩
  rw [h] at ht
  rw [← Except.ok.inj ht] at hsum
  exact absurd hsum (by decide)

end Badnet.Dirauth

/-
  Badnet.Dirauth.BwWeightsLegal — the weights that are printed are legal (`bandwidth_weights_legal`).

  A weight that was checked is in range because the check says so. The cases without a check, 2a and 3a, are legal by
  the inequalities that lead to them. The check cannot fail in the cases 1 and 3b: the exact weights balance, and what
  the divisions lose is less than a sixth of the margin of ten thirds of T.
-/

import Badnet.Dirauth.BwWeights
import Mathlib.Tactic.Linarith

namespace Badnet.Dirauth

open Lib

/-- The bandwidths are positive and T is their sum. -/
structure BwTotals.Valid (p : BwTotals) : Prop where
  G : 1 ≤ p.G.toInt
  M : 1 ≤ p.M.toInt
  E : 1 ≤ p.E.toInt
  D : 1 ≤ p.D.toInt
  T : p.T.toInt = p.G.toInt + p.M.toInt + p.E.toInt + p.D.toInt

/-- Both guards and exits are scarce, and D makes up for the difference. -/
def BwTotals.Case2b (p : BwTotals) : Prop :=
  3 * p.E.toInt < p.T.toInt ∧ 3 * p.G.toInt < p.T.toInt ∧
    max p.E.toInt p.G.toInt ≤ min p.E.toInt p.G.toInt + p.D.toInt

/-- The seven weights are in range and the three sums are the scale, up to ten. -/
structure LegalWeights (Wgg Wgd Wmg Wme Wmd Wee Wed scale : Int) : Prop where
  gg : 0 ≤ Wgg ∧ Wgg ≤ scale
  gd : 0 ≤ Wgd ∧ Wgd ≤ scale
  mg : 0 ≤ Wmg ∧ Wmg ≤ scale
  me : 0 ≤ Wme ∧ Wme ≤ scale
  md : 0 ≤ Wmd ∧ Wmd ≤ scale
  ee : 0 ≤ Wee ∧ Wee ≤ scale
  ed : 0 ≤ Wed ∧ Wed ≤ scale
  sumG : (Wgg + Wmg - scale).natAbs ≤ 10
  sumE : (Wee + Wme - scale).natAbs ≤ 10
  sumD : (Wgd + Wed + Wmd - scale).natAbs ≤ 10

def BwWeights.Legal (w : BwWeights) (scale : Int64) : Prop :=
  LegalWeights w.Wgg.toInt w.Wgd.toInt w.Wmg.toInt w.Wme.toInt w.Wmd.toInt w.Wee.toInt w.Wed.toInt scale.toInt

/-- The weights as they are printed. -/
def BandwidthWeightsLine.Legal (l : BandwidthWeightsLine) (scale : Int64) : Prop :=
  LegalWeights l.Wgg.toInt l.Wgd.toInt l.Wmg.toInt l.Wme.toInt l.Wmd.toInt l.Wee.toInt l.Wed.toInt scale.toInt

/-- The two balance formulas, up to ten thirds of T. -/
structure BwWeights.Balanced (w : BwWeights) (scale : Int64) (p : BwTotals) : Prop where
  eg : 3 * (w.Wgg.toInt * p.G.toInt + w.Wgd.toInt * p.D.toInt -
    (w.Wee.toInt * p.E.toInt + w.Wed.toInt * p.D.toInt)).natAbs ≤ 10 * p.T.toInt
  mid : 3 * (w.Wgg.toInt * p.G.toInt + w.Wgd.toInt * p.D.toInt -
    (p.M.toInt * scale.toInt + w.Wmd.toInt * p.D.toInt + w.Wme.toInt * p.E.toInt + w.Wmg.toInt * p.G.toInt)).natAbs ≤
      10 * p.T.toInt

variable {p : BwTotals} {w : BwWeights} {scale a b c : Int64}

/-! ## The steps -/

theorem mulInt64_ok (h : mulInt64 a b = .ok c) : c.toInt = a.toInt * b.toInt := by
  rw [mulInt64] at h
  split at h
  · next heq => rw [← Except.ok.inj h, heq]
  · cases h

theorem exact_bind {α β : Type} {x : Except Overflow α} {f : α → Except Overflow β} {r : β} (h : (x >>= f) = .ok r) :
    ∃ y, x = .ok y ∧ f y = .ok r := by
  cases x with
  | error e => cases h
  | ok y => exact ⟨y, rfl, h⟩

/-- A product in front of a computation. -/
theorem mulInt64_bind {β : Type} {f : Int64 → Except Overflow β} {r : β} (h : (mulInt64 a b >>= f) = .ok r) :
    ∃ c, c.toInt = a.toInt * b.toInt ∧ f c = .ok r := by
  obtain ⟨c, hc, hf⟩ := exact_bind h
  exact ⟨c, mulInt64_ok hc, hf⟩

@[simp] theorem toInt_two : (2 : Int64).toInt = 2 := rfl
@[simp] theorem toInt_three : (3 : Int64).toInt = 3 := rfl
@[simp] theorem toInt_ten : (10 : Int64).toInt = 10 := rfl

/-! ## The check -/

variable {d : Int} {e : BwWeightsError} {r : Option BwWeights}

theorem checkEq_iff (hab : (a - b).toInt = d) (hba : (b - a).toInt = -d) :
    checkEq a b c = true ↔ d.natAbs ≤ c.toInt := by
  simp only [checkEq, ge_iff_le, Int64.le_iff_toInt_le, hab, hba, Int64.toInt_zero]
  split <;> simp only [decide_eq_true_eq] <;> omega

/-- Wrapped sums that are close to each other. -/
theorem checkEq_of_bmod {x y : Int} (ha : a.toInt = x.bmod (2 ^ 64)) (hb : b.toInt = y.bmod (2 ^ 64))
    (hc : (x - y).natAbs ≤ c.toInt) : checkEq a b c = true := by
  have := c.toInt_lt
  have hab : (a - b).toInt = x - y := toInt_sub_of_bmod ha hb ⟨by omega, by omega⟩
  have hba : (b - a).toInt = -(x - y) := by
    rw [toInt_sub_of_bmod hb ha ⟨by omega, by omega⟩]
    omega
  exact (checkEq_iff hab hba).mpr hc

theorem rangeCheck_iff {d e f g m : Int64} : rangeCheck a b c d e f g m = true ↔
    (0 ≤ a.toInt ∧ a.toInt ≤ m.toInt) ∧ (0 ≤ b.toInt ∧ b.toInt ≤ m.toInt) ∧ (0 ≤ c.toInt ∧ c.toInt ≤ m.toInt) ∧
    (0 ≤ d.toInt ∧ d.toInt ≤ m.toInt) ∧ (0 ≤ e.toInt ∧ e.toInt ≤ m.toInt) ∧ (0 ≤ f.toInt ∧ f.toInt ≤ m.toInt) ∧
    (0 ≤ g.toInt ∧ g.toInt ≤ m.toInt) := by
  simp only [rangeCheck, ge_iff_le, Int64.le_iff_toInt_le, Int64.toInt_zero, decide_eq_true_eq, and_assoc]

theorem toInt_add_small (ha : 0 ≤ a.toInt ∧ a.toInt ≤ 4294967294) (hb : 0 ≤ b.toInt ∧ b.toInt ≤ 4294967294) :
    (a + b).toInt = a.toInt + b.toInt :=
  toInt_add_of_fits ⟨by omega, by omega⟩

/-- What the checks of the sums and the range amount to. -/
theorem checks_iff_legal (hscale : 0 ≤ scale.toInt ∧ scale.toInt ≤ 2147483647) :
    (checkEq (w.Wed + w.Wmd + w.Wgd) scale 10 = true ∧ checkEq (w.Wmg + w.Wgg) scale 10 = true ∧
      checkEq (w.Wme + w.Wee) scale 10 = true ∧ rangeCheck w.Wgg w.Wgd w.Wmg w.Wme w.Wmd w.Wed w.Wee scale = true) ↔
    w.Legal scale := by
  have hsum : ∀ {x : Int64} {s : Int}, x.toInt = s → 0 ≤ s ∧ s ≤ 6442450941 →
      (checkEq x scale 10 = true ↔ (s - scale.toInt).natAbs ≤ 10) := by
    intro x s hx hs
    have hxs : (x - scale).toInt = s - scale.toInt := by
      rw [toInt_sub_of_fits (by constructor <;> omega), hx]
    have hsx : (scale - x).toInt = -(s - scale.toInt) := by
      rw [toInt_sub_of_fits (by constructor <;> omega), hx]
      omega
    rw [checkEq_iff hxs hsx, toInt_ten]
    omega
  have key : ∀ (_ : rangeCheck w.Wgg w.Wgd w.Wmg w.Wme w.Wmd w.Wed w.Wee scale = true),
      ((checkEq (w.Wed + w.Wmd + w.Wgd) scale 10 = true ↔
        (w.Wgd.toInt + w.Wed.toInt + w.Wmd.toInt - scale.toInt).natAbs ≤ 10) ∧
      (checkEq (w.Wmg + w.Wgg) scale 10 = true ↔ (w.Wgg.toInt + w.Wmg.toInt - scale.toInt).natAbs ≤ 10) ∧
      (checkEq (w.Wme + w.Wee) scale 10 = true ↔ (w.Wee.toInt + w.Wme.toInt - scale.toInt).natAbs ≤ 10)) := by
    intro hrange
    obtain ⟨hgg, hgd, hmg, hme, hmd, hed, hee⟩ := rangeCheck_iff.mp hrange
    refine ⟨hsum ?_ (by omega), hsum ?_ (by omega), hsum ?_ (by omega)⟩
    · have hem : (w.Wed + w.Wmd).toInt = w.Wed.toInt + w.Wmd.toInt := toInt_add_small (by omega) (by omega)
      rw [toInt_add_small (by omega) (by omega), hem]
      omega
    · rw [toInt_add_small (by omega) (by omega)]
      omega
    · rw [toInt_add_small (by omega) (by omega)]
      omega
  constructor
  · rintro ⟨hd, hg, he, hrange⟩
    obtain ⟨hgg, hgd, hmg, hme, hmd, hed, hee⟩ := rangeCheck_iff.mp hrange
    obtain ⟨kd, kg, ke⟩ := key hrange
    exact ⟨hgg, hgd, hmg, hme, hmd, hee, hed, kg.mp hg, ke.mp he, kd.mp hd⟩
  · intro h
    have hrange : rangeCheck w.Wgg w.Wgd w.Wmg w.Wme w.Wmd w.Wed w.Wee scale = true :=
      rangeCheck_iff.mpr ⟨h.gg, h.gd, h.mg, h.me, h.md, h.ed, h.ee⟩
    obtain ⟨kd, kg, ke⟩ := key hrange
    exact ⟨kd.mpr h.sumD, kg.mpr h.sumG, ke.mpr h.sumE, hrange⟩

theorem legal_of_check {doBalance : Bool} (hscale : 0 ≤ scale.toInt ∧ scale.toInt ≤ 2147483647)
    (h : networkstatusCheckWeights w scale p 10 doBalance = .ok e) (he : e = .noError ∨ e = .balanceMidError) :
    w.Legal scale := by
  apply (checks_iff_legal hscale).mp
  rw [networkstatusCheckWeights] at h
  by_cases hd : checkEq (w.Wed + w.Wmd + w.Wgd) scale 10 = true
  · by_cases hg : checkEq (w.Wmg + w.Wgg) scale 10 = true
    · by_cases hme : checkEq (w.Wme + w.Wee) scale 10 = true
      · by_cases hr : rangeCheck w.Wgg w.Wgd w.Wmg w.Wme w.Wmd w.Wed w.Wee scale = true
        · exact ⟨hd, hg, hme, hr⟩
        · rw [if_neg (not_not_intro hd), if_neg (not_not_intro hg), if_neg (not_not_intro hme), if_pos hr] at h
          rcases he with rfl | rfl <;> cases h
      · rw [if_neg (not_not_intro hd), if_neg (not_not_intro hg), if_pos hme] at h
        rcases he with rfl | rfl <;> cases h
    · rw [if_neg (not_not_intro hd), if_pos hg] at h
      rcases he with rfl | rfl <;> cases h
  · rw [if_pos hd] at h
    rcases he with rfl | rfl <;> cases h

theorem balance_ok (hT : 0 ≤ p.T.toInt) (hbal : w.Balanced scale p)
    (h : checkBalance w scale p 10 = .ok e) : e = .noError := by
  obtain ⟨gg, hgg, h⟩ := mulInt64_bind h
  obtain ⟨gd, hgd, h⟩ := mulInt64_bind h
  obtain ⟨ee, hee, h⟩ := mulInt64_bind h
  obtain ⟨ed, hed, h⟩ := mulInt64_bind h
  obtain ⟨mt, hmt, h⟩ := mulInt64_bind h
  have hbig : 0 ≤ mt.toInt := by rw [hmt, toInt_ten]; omega
  have hmargin := div_bounds (b := 3) hbig (by decide)
  rw [toInt_three, hmt, toInt_ten] at hmargin
  have hsum : (gg + gd).toInt = (w.Wgg.toInt * p.G.toInt + w.Wgd.toInt * p.D.toInt).bmod (2 ^ 64) := by
    rw [Int64.toInt_add, hgg, hgd]
  have heg : checkEq (gg + gd) (ee + ed) (mt / 3) = true := by
    apply checkEq_of_bmod hsum (y := w.Wee.toInt * p.E.toInt + w.Wed.toInt * p.D.toInt)
    · rw [Int64.toInt_add, hee, hed]
    · have := hbal.eg
      omega
  rw [if_neg (not_not_intro heg)] at h
  obtain ⟨ms, hms, h⟩ := mulInt64_bind h
  obtain ⟨md, hmd, h⟩ := mulInt64_bind h
  obtain ⟨me, hme, h⟩ := mulInt64_bind h
  obtain ⟨mg, hmg, h⟩ := mulInt64_bind h
  have hmid : checkEq (gg + gd) (ms + md + me + mg) (mt / 3) = true := by
    apply checkEq_of_bmod hsum
      (y := p.M.toInt * scale.toInt + w.Wmd.toInt * p.D.toInt + w.Wme.toInt * p.E.toInt + w.Wmg.toInt * p.G.toInt)
    · simp only [Int64.toInt_add, Int.bmod_add_bmod, hms, hmd, hme, hmg]
    · have := hbal.mid
      omega
  rw [if_neg (not_not_intro hmid)] at h
  exact (Except.ok.inj h).symm

theorem check_complete (hscale : 0 ≤ scale.toInt ∧ scale.toInt ≤ 2147483647) (hT : 0 ≤ p.T.toInt)
    (hlegal : w.Legal scale) (hbal : w.Balanced scale p) (h : networkstatusCheckWeights w scale p 10 true = .ok e) :
    e = .noError := by
  obtain ⟨hd, hg, hme, hr⟩ := (checks_iff_legal hscale).mpr hlegal
  rw [networkstatusCheckWeights, if_neg (not_not_intro hd), if_neg (not_not_intro hg), if_neg (not_not_intro hme),
    if_neg (not_not_intro hr), if_pos rfl] at h
  exact balance_ok hT hbal h

/-- The result of a case is legal, and there is one. -/
def Good (scale : Int64) (r : Option BwWeights) : Prop := ∃ w, r = some w ∧ w.Legal scale

theorem checked_good (hscale : 0 ≤ scale.toInt ∧ scale.toInt ≤ 2147483647) (hT : 0 ≤ p.T.toInt)
    (hlegal : w.Legal scale) (hbal : w.Balanced scale p) (h : checked w scale p = .ok r) : Good scale r := by
  obtain ⟨e, he, h⟩ := exact_bind h
  rw [check_complete hscale hT hlegal hbal he] at h
  exact ⟨w, (Except.ok.inj h).symm, hlegal⟩

/-! ## The cases -/

theorem three_natAbs_le {x b : Int} (hneg : -b ≤ 3 * x) (hpos : 3 * x ≤ b) : 3 * (x.natAbs : Int) ≤ b := by omega

/-- What a quotient loses. -/
theorem quotient_bounds {n : Int} (ha : a.toInt = n) (hb : b.toInt = d) (hn : 0 ≤ n) (hd : 0 < d) :
    0 ≤ (a / b).toInt ∧ (a / b).toInt * d ≤ n ∧ n < (a / b).toInt * d + d := by
  subst ha hb
  exact div_bounds hn hd

theorem quotient_le {q s n : Int} (hq : q * d ≤ n) (hd : 0 < d) (hn : n ≤ s * d) : q ≤ s :=
  Int.le_of_mul_le_mul_right (Int.le_trans hq hn) hd

/-- The part `v` of `d` in the scale. -/
theorem quotient_le_scale {v : Int} (ha : a.toInt = scale.toInt * v) (hb : b.toInt = d) (hs : 0 ≤ scale.toInt)
    (hv : 0 ≤ v) (hd : 0 < d) (hle : v ≤ d) : 0 ≤ (a / b).toInt ∧ (a / b).toInt ≤ scale.toInt ∧
      (a / b).toInt * d ≤ scale.toInt * v ∧ scale.toInt * v < (a / b).toInt * d + d := by
  obtain ⟨h0, hmul, hlt⟩ := quotient_bounds ha hb (Int.mul_nonneg hs hv) hd
  exact ⟨h0, quotient_le hmul hd (Int.mul_le_mul_of_nonneg_left hle hs), hmul, hlt⟩

theorem toInt_sub_weight {x : Int64} (hscale : 0 ≤ scale.toInt) (hx : 0 ≤ x.toInt) :
    (scale - x).toInt = scale.toInt - x.toInt := by
  have := scale.toInt_lt
  have := x.toInt_lt
  exact toInt_sub_of_fits ⟨by omega, by omega⟩

theorem case1_good (hp : p.Valid) (hscale : 1 ≤ scale.toInt ∧ scale.toInt ≤ 2147483647)
    (hE : p.T.toInt ≤ 3 * p.E.toInt) (hG : p.T.toInt ≤ 3 * p.G.toInt) (h : case1 scale p = .ok r) : Good scale r := by
  obtain ⟨hG1, hM1, hE1, hD1, hT⟩ := hp
  have hTmax := p.T.toInt_lt
  obtain ⟨e3, he3, h⟩ := mulInt64_bind h
  obtain ⟨g3, hg3, h⟩ := mulInt64_bind h
  obtain ⟨g2, hg2, h⟩ := mulInt64_bind h
  obtain ⟨ee, hee, h⟩ := mulInt64_bind h
  obtain ⟨mg, hmg, h⟩ := mulInt64_bind h
  rw [toInt_three] at he3 hg3
  rw [toInt_two] at hg2
  have hg2max := g2.toInt_lt
  have hegm : (p.E + p.G + p.M).toInt = p.E.toInt + p.G.toInt + p.M.toInt := by
    have heg : (p.E + p.G).toInt = p.E.toInt + p.G.toInt := toInt_add_of_fits ⟨by omega, by omega⟩
    rw [toInt_add_of_fits ⟨by omega, by omega⟩, heg]
  have hgem : (g2 - p.E - p.M).toInt = 2 * p.G.toInt - p.E.toInt - p.M.toInt := by
    have hge : (g2 - p.E).toInt = 2 * p.G.toInt - p.E.toInt := by
      rw [toInt_sub_of_fits ⟨by omega, by omega⟩, hg2]
    rw [toInt_sub_of_fits ⟨by omega, by omega⟩, hge]
  rw [hegm] at hee
  rw [hgem] at hmg
  obtain ⟨hWd0, hWdle, hWdlt⟩ := div_bounds (b := 3) (show 0 ≤ scale.toInt by omega) (by decide)
  obtain ⟨hee0, heeS, heele, heelt⟩ := quotient_le_scale hee he3 (by omega) (by omega) (by omega) (by omega)
  obtain ⟨hmg0, hmgS, hmgle, hmglt⟩ := quotient_le_scale hmg hg3 (by omega) (by omega) (by omega) (by omega)
  have hme : (scale - ee / e3).toInt = scale.toInt - (ee / e3).toInt := toInt_sub_weight (by omega) hee0
  have hgg : (scale - mg / g3).toInt = scale.toInt - (mg / g3).toInt := toInt_sub_weight (by omega) hmg0
  rw [toInt_three] at hWdle hWdlt
  apply checked_good (by omega) (by omega) ?_ ?_ h
  · constructor <;> dsimp only <;> omega
  · constructor
    · apply three_natAbs_le <;> dsimp only <;> rw [hgg] <;> linarith
    · apply three_natAbs_le <;> dsimp only <;> rw [hgg, hme] <;> linarith

theorem case2a_legal (p : BwTotals) (hscale : 0 ≤ scale.toInt) : (case2a scale p).Legal scale := by
  rw [case2a]
  split <;> unfold BwWeights.Legal <;> dsimp only <;> rw [Int64.toInt_zero] <;> constructor <;> omega

theorem case2b_legal (hscale : 0 ≤ scale.toInt ∧ scale.toInt ≤ 2147483647)
    (h : case2b scale p = .ok r) (hr : r = some w) : w.Legal scale := by
  subst hr
  have haccepted : ∀ {v : BwWeights} {e : BwWeightsError}, networkstatusCheckWeights v scale p 10 true = .ok e →
      accepted2b v e = some w → w.Legal scale := by
    intro v e he hv
    rw [accepted2b] at hv
    split at hv
    · cases hv
    · next hne =>
      rw [← Option.some.inj hv]
      apply legal_of_check hscale he
      by_cases hnone : e = .noError
      · exact .inl hnone
      · exact .inr (not_not.mp fun hmid => hne ⟨hnone, hmid⟩)
  obtain ⟨v, -, h⟩ := exact_bind h
  obtain ⟨e, he, h⟩ := exact_bind h
  split at h
  · obtain ⟨v', -, h⟩ := exact_bind h
    obtain ⟨e', he', h⟩ := exact_bind h
    exact haccepted he' (Except.ok.inj h)
  · exact haccepted he (Except.ok.inj h)

/-- At most half of the scale. -/
theorem surplus_bounds {W M x : Int64} (hscale : 0 ≤ scale.toInt) (hW : 1 ≤ W.toInt) (hM : 1 ≤ M.toInt)
    (h : surplus scale W M = .ok x) : 0 ≤ x.toInt ∧ x.toInt ≤ scale.toInt := by
  rw [surplus] at h
  split at h
  · rw [← Except.ok.inj h, Int64.toInt_zero]
    omega
  · next hle =>
    rw [Int64.lt_iff_toInt_lt] at hle
    obtain ⟨n, hn, h⟩ := mulInt64_bind h
    obtain ⟨w2, hw2, h⟩ := mulInt64_bind h
    rw [toInt_sub_of_fits (by have := W.toInt_lt; constructor <;> omega)] at hn
    rw [toInt_two] at hw2
    obtain ⟨h0, hle, -⟩ := quotient_le_scale hn hw2 hscale (by omega) (by omega) (by omega)
    rw [← Except.ok.inj h]
    exact ⟨h0, hle⟩

theorem case3a_legal (hp : p.Valid) (hscale : 0 ≤ scale.toInt) (h : case3a scale p = .ok w) : w.Legal scale := by
  obtain ⟨hG1, hM1, hE1, hD1, hT⟩ := hp
  rw [case3a] at h
  split at h
  all_goals
    obtain ⟨x, hx, h⟩ := exact_bind h
    obtain ⟨hx0, hxS⟩ := surplus_bounds hscale (by omega) hM1 hx
    have hsub := toInt_sub_weight hscale hx0
    rw [← Except.ok.inj h]
    unfold BwWeights.Legal
    dsimp only
    rw [Int64.toInt_zero, hsub]
    constructor <;> omega

/-- The weights of case 3b: `x` is the part of D for the scarce kind `L`, `y` what the plentiful kind `H` keeps, `z` what
    is left of D for each of the others. The last two bounds are the balance between the kinds and of the middle. -/
structure Split3b (s L H M D x y z : Int) : Prop where
  scarce : 0 ≤ x ∧ x ≤ s
  kept : 0 ≤ y ∧ y ≤ s
  rest : 0 ≤ z ∧ z * 2 ≤ s - x ∧ s - x < z * 2 + 2
  kinds : -(3 * D) ≤ 2 * (s * L + x * D - (y * H + z * D)) ∧ s * L + x * D - (y * H + z * D) ≤ H + D
  middle : -(2 * H) ≤ y * H - (M * s + (s - y) * H) ∧ y * H - (M * s + (s - y) * H) ≤ 0

theorem split3b {L H l2 n d3 k h2 : Int64} (hscale : 1 ≤ scale.toInt) (hL : 1 ≤ L.toInt) (hH : 1 ≤ H.toInt)
    (hM : 1 ≤ p.M.toInt) (hD : 1 ≤ p.D.toInt) (hfits : p.D.toInt + H.toInt + p.M.toInt < 9223372036854775808)
    (hscarce : 2 * L.toInt < p.D.toInt + H.toInt + p.M.toInt) (hmiddle : p.M.toInt ≤ H.toInt)
    (hfill : H.toInt + p.M.toInt ≤ 2 * (L.toInt + p.D.toInt)) (hl2 : l2.toInt = 2 * L.toInt)
    (hn : n.toInt = scale.toInt * (p.D - l2 + H + p.M).toInt) (hd3 : d3.toInt = 3 * p.D.toInt)
    (hk : k.toInt = scale.toInt * (H + p.M).toInt) (hh2 : h2.toInt = 2 * H.toInt) :
    Split3b scale.toInt L.toInt H.toInt p.M.toInt p.D.toInt (n / d3).toInt (k / h2).toInt ((scale - n / d3) / 2).toInt := by
  have hl2max := l2.toInt_lt
  have hdl : (p.D - l2).toInt = p.D.toInt - 2 * L.toInt := by rw [toInt_sub_of_fits ⟨by omega, by omega⟩, hl2]
  have hdlh : (p.D - l2 + H).toInt = p.D.toInt - 2 * L.toInt + H.toInt := by
    rw [toInt_add_of_fits ⟨by omega, by omega⟩, hdl]
  rw [toInt_add_of_fits ⟨by omega, by omega⟩, hdlh] at hn
  rw [toInt_add_of_fits ⟨by omega, by omega⟩] at hk
  obtain ⟨hx0, hxS, hxle, hxlt⟩ := quotient_le_scale hn hd3 (by omega) (by omega) (by omega) (by omega)
  obtain ⟨hy0, hyS, hyle, hylt⟩ := quotient_le_scale hk hh2 (by omega) (by omega) (by omega) (by omega)
  have hrest : (scale - n / d3).toInt = scale.toInt - (n / d3).toInt := toInt_sub_weight (by omega) hx0
  obtain ⟨hz0, hzle, hzlt⟩ := quotient_bounds hrest toInt_two (by omega) (by omega)
  have hzD := Int.mul_le_mul_of_nonneg_right hzle (show 0 ≤ p.D.toInt by omega)
  have hzD' := Int.mul_le_mul_of_nonneg_right (Int.le_of_lt hzlt) (show 0 ≤ p.D.toInt by omega)
  exact {
    scarce := ⟨hx0, hxS⟩
    kept := ⟨hy0, hyS⟩
    rest := ⟨hz0, hzle, hzlt⟩
    kinds := ⟨by linarith, by linarith⟩
    middle := ⟨by linarith, by linarith⟩ }

theorem case3b_good (hp : p.Valid) (hscale : 1 ≤ scale.toInt ∧ scale.toInt ≤ 2147483647)
    (hscarce : 3 * min p.E.toInt p.G.toInt < p.T.toInt) (hplenty : p.T.toInt ≤ 3 * max p.E.toInt p.G.toInt)
    (hfill : p.T.toInt ≤ 3 * (min p.E.toInt p.G.toInt + p.D.toInt)) (h : case3b scale p = .ok r) : Good scale r := by
  obtain ⟨hG1, hM1, hE1, hD1, hT⟩ := hp
  have hTmax := p.T.toInt_lt
  rw [case3b] at h
  -- the two branches are the same with E and G exchanged
  split at h
  all_goals
    next hGE =>
    rw [Int64.lt_iff_toInt_lt] at hGE
    obtain ⟨l2, hl2, h⟩ := mulInt64_bind h
    obtain ⟨n, hn, h⟩ := mulInt64_bind h
    obtain ⟨d3, hd3, h⟩ := mulInt64_bind h
    obtain ⟨k, hk, h⟩ := mulInt64_bind h
    obtain ⟨h2, hh2, h⟩ := mulInt64_bind h
    obtain ⟨hx, hy, hz, hkinds, hmiddle⟩ := split3b hscale.1 (by omega) (by omega) hM1 hD1 (by omega) (by omega)
      (by omega) (by omega) hl2 hn hd3 hk hh2
    have hkept : (scale - k / h2).toInt = scale.toInt - (k / h2).toInt := toInt_sub_weight (by omega) hy.1
    apply checked_good (by omega) (by omega) ?_ ?_ h
    · unfold BwWeights.Legal
      dsimp only
      rw [Int64.toInt_zero, hkept]
      constructor <;> omega
    · constructor
      · apply three_natAbs_le <;> dsimp only <;> linarith
      · apply three_natAbs_le <;> dsimp only <;> rw [Int64.toInt_zero, hkept] <;> linarith

/-! ## The weights -/

theorem toInt_minInt64 (a b : Int64) : (minInt64 a b).toInt = min a.toInt b.toInt := by
  rw [minInt64]
  split
  all_goals
    next h =>
    rw [gt_iff_lt, Int64.lt_iff_toInt_lt] at h
    omega

theorem toInt_maxInt64 (a b : Int64) : (maxInt64 a b).toInt = max a.toInt b.toInt := by
  rw [maxInt64]
  split
  all_goals
    next h =>
    rw [Int64.lt_iff_toInt_lt] at h
    omega

/-- Legal weights, and there are some unless both kinds are scarce and D makes up for the difference. -/
theorem bwWeights_legal (hp : p.Valid) (hscale : 1 ≤ scale.toInt ∧ scale.toInt ≤ 2147483647)
    (h : bwWeights scale p = .ok r) : (∀ w, r = some w → w.Legal scale) ∧ (¬ p.Case2b → r ≠ none) := by
  have hgood : Good scale r → (∀ w, r = some w → w.Legal scale) ∧ (¬ p.Case2b → r ≠ none) := by
    rintro ⟨w, rfl, hw⟩
    exact ⟨fun v hv => Option.some.inj hv ▸ hw, fun _ => Option.some_ne_none w⟩
  have hG1 := hp.G
  have hM1 := hp.M
  have hE1 := hp.E
  have hD1 := hp.D
  have hT := hp.T
  have hTmax := p.T.toInt_lt
  have hsum : (minInt64 p.E p.G + p.D).toInt = min p.E.toInt p.G.toInt + p.D.toInt := by
    rw [toInt_add_of_fits (by rw [toInt_minInt64]; constructor <;> omega), toInt_minInt64]
  obtain ⟨e3, he3, h⟩ := mulInt64_bind h
  obtain ⟨g3, hg3, h⟩ := mulInt64_bind h
  rw [toInt_three] at he3 hg3
  by_cases hplenty : e3 ≥ p.T ∧ g3 ≥ p.T
  · rw [if_pos hplenty] at h
    rw [ge_iff_le, ge_iff_le, Int64.le_iff_toInt_le, Int64.le_iff_toInt_le] at hplenty
    exact hgood (case1_good hp hscale (by omega) (by omega) h)
  · rw [if_neg hplenty] at h
    rw [ge_iff_le, ge_iff_le, Int64.le_iff_toInt_le, Int64.le_iff_toInt_le] at hplenty
    by_cases hscarce : e3 < p.T ∧ g3 < p.T
    · rw [if_pos hscarce] at h
      rw [Int64.lt_iff_toInt_lt, Int64.lt_iff_toInt_lt] at hscarce
      by_cases hfill : minInt64 p.E p.G + p.D < maxInt64 p.E p.G
      · rw [if_pos hfill] at h
        exact hgood ⟨_, (Except.ok.inj h).symm, case2a_legal p (by omega)⟩
      · rw [if_neg hfill] at h
        rw [Int64.lt_iff_toInt_lt, hsum, toInt_maxInt64] at hfill
        refine ⟨fun w hw => case2b_legal ⟨by omega, hscale.2⟩ h hw, fun hnot => ?_⟩
        exact absurd ⟨by omega, by omega, by omega⟩ hnot
    · rw [if_neg hscarce] at h
      rw [Int64.lt_iff_toInt_lt, Int64.lt_iff_toInt_lt] at hscarce
      obtain ⟨sd3, hsd3, h⟩ := mulInt64_bind h
      rw [toInt_three, hsum] at hsd3
      by_cases hfill : sd3 < p.T
      · rw [if_pos hfill] at h
        obtain ⟨w, hw, h⟩ := exact_bind h
        exact hgood ⟨w, (Except.ok.inj h).symm, case3a_legal hp (by omega) hw⟩
      · rw [if_neg hfill] at h
        rw [Int64.lt_iff_toInt_lt] at hfill
        exact hgood (case3b_good hp hscale (by omega) (by omega) (by omega) h)

theorem printWeights_legal (hscale : 0 ≤ scale.toInt ∧ scale.toInt ≤ 2147483647) (h : w.Legal scale) :
    (printWeights w scale).Legal scale := by
  have hcast : ∀ x : Int64, 0 ≤ x.toInt ∧ x.toInt ≤ scale.toInt → x.toInt32.toInt = x.toInt := fun x hx => by
    rw [Int64.toInt_toInt32, Int.bmod_eq_of_le (by omega) (by omega)]
  unfold BandwidthWeightsLine.Legal
  dsimp only [printWeights]
  rw [hcast _ h.gg, hcast _ h.gd, hcast _ h.mg, hcast _ h.me, hcast _ h.md, hcast _ h.ee, hcast _ h.ed]
  exact h

/-- For positive bandwidths with their sum, and a scale that fits, a computation in which every product fits returns
1 only with legal weights, and 0 only in the case 2b. -/
theorem bandwidth_weights_legal (hp : p.Valid) (hscale : 1 ≤ scale.toInt ∧ scale.toInt ≤ 2147483647)
    (hfits : networkstatusComputeBwWeightsV10 p scale ≠ .error .overflow) :
    ∃ r, networkstatusComputeBwWeightsV10 p scale = .ok r ∧ (∀ line, r = some line → line.Legal scale) ∧
      (¬ p.Case2b → r ≠ none) := by
  have hpos : ¬ (p.G ≤ 0 ∨ p.M ≤ 0 ∨ p.E ≤ 0 ∨ p.D ≤ 0) := by
    simp only [Int64.le_iff_toInt_le, Int64.toInt_zero]
    have hG1 := hp.G
    have hM1 := hp.M
    have hE1 := hp.E
    have hD1 := hp.D
    omega
  rw [networkstatusComputeBwWeightsV10, if_neg hpos] at hfits ⊢
  cases hr : bwWeights scale p with
  | error e =>
    rw [hr] at hfits
    exact absurd rfl hfits
  | ok r =>
    obtain ⟨hlegal, hsome⟩ := bwWeights_legal hp hscale hr
    cases r with
    | none => exact ⟨none, rfl, (fun line hline => by cases hline), fun h => absurd rfl (hsome h)⟩
    | some w =>
      have hassert : 0 < scale ∧ scale ≤ 2147483647 := by
        rw [Int64.lt_iff_toInt_lt, Int64.le_iff_toInt_le]
        exact ⟨by rw [Int64.toInt_zero]; omega, hscale.2⟩
      refine ⟨some (printWeights w scale), if_pos hassert, fun line hline => ?_, fun _ => Option.some_ne_none _⟩
      rw [← Option.some.inj hline]
      exact printWeights_legal ⟨by omega, hscale.2⟩ (hlegal w rfl)

def sampleTotals : BwTotals := { G := 100, M := 50, E := 20, D := 70, T := 240 }

theorem sample_weights_legal : ∃ r, networkstatusComputeBwWeightsV10 sampleTotals 10000 = .ok r ∧
    (∀ line, r = some line → line.Legal 10000) ∧ (¬ sampleTotals.Case2b → r ≠ none) :=
  bandwidth_weights_legal (show sampleTotals.Valid by constructor <;> decide)
    (show 1 ≤ (10000 : Int64).toInt ∧ (10000 : Int64).toInt ≤ 2147483647 by decide) (by decide)

end Badnet.Dirauth

/-
  Badnet.Lib.Binary64 — how far a rounded floating-point number is from the exact one.

  The numbers are those of `Float.Model`, unpacked. Shifting a mantissa right keeps a round bit and a sticky bit
  (`Residual`). In the normal range the error is at most one part in 2 ^ p, p the bits of a mantissa
  (`roundWithAccuracy_error`), integers below 2 ^ p are kept (`ofInt_exact`), and `lround` goes to the nearest integer,
  halves away from zero (`roundHalf_bounds`).
-/

import Mathlib

namespace Badnet.Lib

open Float.Model Float.Model.UnpackedFloat

variable {em : ExtendedMantissa} {M n r : Nat} {spec : Format} {s : Sign} {e : Int}

/-! ## Shifting a mantissa -/

/-- `em` is M shifted right by `n`, and `r` is what that took off. -/
structure Residual (em : ExtendedMantissa) (M n r : Nat) : Prop where
  lt : r < 2 ^ n
  eq : M = em.mantissa * 2 ^ n + r
  roundBit : em.roundBit = true ↔ 2 ^ n ≤ 2 * r
  stickyBit : em.stickyBit = true ↔ r ≠ 0 ∧ 2 * r ≠ 2 ^ n

theorem residual_start (M : Nat) : Residual (.ofMantissaAndAccuracy M .exact) M 0 0 where
  lt := by decide
  eq := by
    show M = M * 2 ^ 0 + 0
    rw [Nat.pow_zero, Nat.mul_one, Nat.add_zero]
  roundBit := by constructor <;> intro h <;> cases h
  stickyBit := by
    constructor
    · intro h
      cases h
    · intro h
      exact absurd rfl h.1

theorem Residual.shiftRightOne (h : Residual em M n r) :
    Residual em.shiftRightOne M (n + 1) (r + em.mantissa % 2 * 2 ^ n) := by
  obtain ⟨hlt, heq, hround, hsticky⟩ := h
  have hpos : 0 < 2 ^ n := Nat.two_pow_pos n
  have hbits : em.roundBit = true ∨ em.stickyBit = true ↔ r ≠ 0 := by
    rw [hround, hsticky]
    omega
  have hm : em.mantissa = em.mantissa / 2 * 2 + em.mantissa % 2 := by omega
  rcases Nat.mod_two_eq_zero_or_one em.mantissa with hb | hb
  all_goals
    refine ⟨?_, ?_, ?_, ?_⟩
    · rw [hb, Nat.pow_succ]
      omega
    · show M = em.mantissa / 2 * 2 ^ (n + 1) + _
      rw [Nat.pow_succ, heq]
      nth_rewrite 1 [hm]
      ring
    · show (em.mantissa % 2 != 0) = true ↔ _
      rw [bne_iff_ne, hb, Nat.pow_succ]
      omega
    · show (em.roundBit || em.stickyBit) = true ↔ _
      rw [Bool.or_eq_true, hbits, hb, Nat.pow_succ]
      omega

theorem residual_shift (M n : Nat) : ∃ r, Residual (ExtendedMantissa.ofMantissaAndAccuracy M .exact >>> n) M n r := by
  induction n with
  | zero => exact ⟨0, residual_start M⟩
  | succ n ih =>
    obtain ⟨r, hr⟩ := ih
    exact ⟨_, hr.shiftRightOne⟩

/-- The rounded mantissa is a nearest one. -/
theorem Residual.rounded (h : Residual em M n r) :
    2 * (em.roundedMantissa * 2 ^ n) ≤ 2 * M + 2 ^ n ∧ 2 * M ≤ 2 * (em.roundedMantissa * 2 ^ n) + 2 ^ n ∧
      em.mantissa ≤ em.roundedMantissa ∧ em.roundedMantissa ≤ em.mantissa + 1 := by
  obtain ⟨hlt, heq, hround, hsticky⟩ := h
  obtain ⟨m, rb, sb⟩ := em
  dsimp only at heq hround hsticky
  have hup : (m + 1) * 2 ^ n = m * 2 ^ n + 2 ^ n := by ring
  cases rb <;> cases sb <;>
    simp only [Bool.false_eq_true, false_iff, true_iff, not_le, not_and_or, not_not] at hround hsticky
  · show 2 * (m * 2 ^ n) ≤ _ ∧ _ ≤ 2 * (m * 2 ^ n) + _ ∧ m ≤ m ∧ m ≤ m + 1
    omega
  · show 2 * (m * 2 ^ n) ≤ _ ∧ _ ≤ 2 * (m * 2 ^ n) + _ ∧ m ≤ m ∧ m ≤ m + 1
    omega
  · show 2 * ((m + m % 2) * 2 ^ n) ≤ _ ∧ _ ≤ 2 * ((m + m % 2) * 2 ^ n) + _ ∧ m ≤ m + m % 2 ∧ m + m % 2 ≤ m + 1
    rcases Nat.mod_two_eq_zero_or_one m with hb | hb <;> rw [hb]
    · rw [Nat.add_zero]
      omega
    · omega
  · show 2 * ((m + 1) * 2 ^ n) ≤ _ ∧ _ ≤ 2 * ((m + 1) * 2 ^ n) + _ ∧ m ≤ m + 1 ∧ m + 1 ≤ m + 1
    omega

/-! ## Rounding -/

theorem targetExponent_normal {t : Int} (h : spec.minExponent ≤ t - spec.mantissaBits) :
    spec.targetExponent t = t - spec.mantissaBits :=
  max_eq_left h

theorem shift_none {t : Int} (M : Nat) (ht : t ≤ e) :
    shiftToExponent M e .exact t = (ExtendedMantissa.ofMantissaAndAccuracy M .exact, e) := by
  have hz : (t - e).toNat = 0 := Int.toNat_of_nonpos (by omega)
  rw [shiftToExponent, hz]
  show (_, e + 0) = _
  rw [Int.add_zero]
  rfl

theorem shift_some (M n : Nat) (e : Int) :
    shiftToExponent M e .exact (e + n) = (ExtendedMantissa.ofMantissaAndAccuracy M .exact >>> n, e + n) := by
  have hn : (e + n - e).toNat = n := by omega
  rw [shiftToExponent, hn]

/-- The number with the mantissa and the exponent of the last shift. -/
def finishRound (s : Sign) (em : ExtendedMantissa × Int) : UnpackedFloat :=
  if h : em.1.mantissa = 0 then .zero s else .finite s em.1.mantissa em.2 (Nat.pos_of_ne_zero h)

theorem finishRound_pos {em : ExtendedMantissa × Int} {m : Nat} (hm : 0 < m) (h : em.1.mantissa = m) :
    finishRound s em = .finite s m em.2 hm := by
  subst h
  exact dif_neg (Nat.ne_of_gt hm)

theorem roundWithAccuracy_eq (spec : Format) (s : Sign) (M : Nat) (e : Int) :
    roundWithAccuracy spec s M e .exact =
      finishRound s (shiftToTargetExponent spec (shiftToTargetExponent spec M e .exact).1.roundedMantissa
        (shiftToTargetExponent spec M e .exact).2 .exact) :=
  rfl

/-- The second shift loses nothing: the rounded mantissa fits, or it is the next power of two. -/
theorem finishRound_exact {R : Nat} (s : Sign) (hR : 0 < R)
    (hlog : R.log2 + 1 ≤ spec.mantissaBits ∨ R = 2 ^ spec.mantissaBits)
    (he : spec.targetExponent (totalExponent R e) ≤ e ∨ spec.minExponent ≤ e) :
    ∃ m' e' h, finishRound s (shiftToTargetExponent spec R e .exact) = .finite s m' e' h ∧
      (m' : ℚ) * 2 ^ e' = R * 2 ^ e := by
  by_cases ht : spec.targetExponent (totalExponent R e) ≤ e
  · refine ⟨R, e, hR, ?_, rfl⟩
    rw [shiftToTargetExponent, shift_none R ht]
    exact finishRound_pos hR rfl
  · have hmin := he.resolve_left ht
    have hone : R = 2 ^ spec.mantissaBits := by
      refine hlog.resolve_left fun hfits => ht ?_
      rw [Format.targetExponent, totalExponent]
      omega
    subst hone
    have htarget : spec.targetExponent (totalExponent (2 ^ spec.mantissaBits) e) = e + (1 : Nat) := by
      rw [targetExponent_normal] <;> rw [totalExponent, Nat.log2_two_pow] <;> omega
    have hhalf : (ExtendedMantissa.ofMantissaAndAccuracy (2 ^ spec.mantissaBits) .exact >>> 1).mantissa =
        2 ^ spec.mantissaBitsWithoutImplicit := by
      show 2 ^ spec.mantissaBits / 2 = _
      rw [Format.mantissaBits, Nat.pow_add, Nat.pow_one, Nat.mul_div_cancel_left _ (by decide)]
    refine ⟨2 ^ spec.mantissaBitsWithoutImplicit, e + (1 : Nat), Nat.two_pow_pos _, ?_, ?_⟩
    · rw [shiftToTargetExponent, htarget, shift_some]
      exact finishRound_pos (Nat.two_pow_pos _) hhalf
    · rw [Format.mantissaBits, Nat.cast_one, zpow_add_one₀ (by norm_num)]
      push_cast
      ring

theorem residual_mantissa {p : Nat} (h : Residual em M n r) (hM : 0 < M) (hn : M.log2 + 1 = p + n) (hp : 0 < p) :
    0 < em.mantissa ∧ em.mantissa + 1 ≤ 2 ^ p := by
  have hlow : 2 ^ M.log2 ≤ M := Nat.log2_self_le (Nat.ne_of_gt hM)
  have hup : M < 2 ^ (M.log2 + 1) := Nat.lt_log2_self
  rw [hn, Nat.pow_add] at hup
  obtain ⟨hlt, heq, -, -⟩ := h
  constructor
  · refine Nat.pos_of_ne_zero fun hzero => ?_
    rw [hzero, Nat.zero_mul, Nat.zero_add] at heq
    have : 2 ^ n ≤ 2 ^ M.log2 := Nat.pow_le_pow_right (by decide) (by omega)
    omega
  · refine Nat.lt_of_mul_lt_mul_right (a := 2 ^ n) ?_
    omega

theorem roundWithAccuracy_exact (s : Sign) (hM : 0 < M) (hfits : M.log2 + 1 ≤ spec.mantissaBits)
    (hnormal : spec.minExponent ≤ totalExponent M e - spec.mantissaBits) :
    ∃ m' e' h, roundWithAccuracy spec s M e .exact = .finite s m' e' h ∧ (m' : ℚ) * 2 ^ e' = M * 2 ^ e := by
  have hle : spec.targetExponent (totalExponent M e) ≤ e := by
    rw [targetExponent_normal hnormal, totalExponent]
    omega
  have hshift : shiftToTargetExponent spec M e .exact = (ExtendedMantissa.ofMantissaAndAccuracy M .exact, e) :=
    shift_none M hle
  rw [roundWithAccuracy_eq, hshift]
  exact finishRound_exact s hM (.inl hfits) (.inl hle)

/-- A number in the normal range is rounded by at most one part in 2 ^ mantissaBits. -/
theorem roundWithAccuracy_error (s : Sign) (hM : 0 < M)
    (hnormal : spec.minExponent ≤ totalExponent M e - spec.mantissaBits) :
    ∃ m' e' h, roundWithAccuracy spec s M e .exact = .finite s m' e' h ∧
      |(m' : ℚ) * 2 ^ e' - M * 2 ^ e| * 2 ^ spec.mantissaBits ≤ M * 2 ^ e := by
  have ht : spec.targetExponent (totalExponent M e) = totalExponent M e - spec.mantissaBits :=
    targetExponent_normal hnormal
  by_cases hfits : M.log2 + 1 ≤ spec.mantissaBits
  · obtain ⟨m', e', h, heq, hvalue⟩ := roundWithAccuracy_exact s hM hfits hnormal
    refine ⟨m', e', h, heq, ?_⟩
    rw [hvalue, sub_self, abs_zero, zero_mul]
    positivity
  · obtain ⟨n, hn⟩ : ∃ n, M.log2 + 1 = spec.mantissaBits + n := ⟨_, (Nat.add_sub_cancel' (by omega)).symm⟩
    have htn : spec.targetExponent (totalExponent M e) = e + n := by
      rw [ht, totalExponent]
      omega
    have hshift : shiftToTargetExponent spec M e .exact =
        (ExtendedMantissa.ofMantissaAndAccuracy M .exact >>> n, e + n) := by
      rw [shiftToTargetExponent, htn, shift_some]
    obtain ⟨r, hr⟩ := residual_shift M n
    obtain ⟨hup, hlow, hge, hle⟩ := hr.rounded
    obtain ⟨hmlow, hmup⟩ := residual_mantissa hr hM hn (by rw [Format.mantissaBits]; omega)
    have hlog : (ExtendedMantissa.ofMantissaAndAccuracy M .exact >>> n).roundedMantissa.log2 + 1 ≤ spec.mantissaBits ∨
        (ExtendedMantissa.ofMantissaAndAccuracy M .exact >>> n).roundedMantissa = 2 ^ spec.mantissaBits := by
      rcases Nat.lt_or_eq_of_le (Nat.le_trans hle hmup) with hlt | heq
      · exact .inl ((Nat.log2_lt (by omega)).mpr hlt)
      · exact .inr heq
    have hmin : spec.minExponent ≤ e + n := by
      rw [totalExponent] at hnormal
      omega
    obtain ⟨m', e', h, heq, hvalue⟩ := finishRound_exact s (by omega) hlog (.inr hmin)
    refine ⟨m', e', h, by rw [roundWithAccuracy_eq, hshift]; exact heq, ?_⟩
    rw [hvalue, zpow_add₀ (by norm_num), zpow_natCast]
    generalize (ExtendedMantissa.ofMantissaAndAccuracy M .exact >>> n).roundedMantissa = R at hup hlow
    have habs : |(R : ℚ) * 2 ^ n - M| * 2 ≤ 2 ^ n := by
      have hup' : 2 * ((R : ℚ) * 2 ^ n) ≤ 2 * M + 2 ^ n := by exact_mod_cast hup
      have hlow' : 2 * (M : ℚ) ≤ 2 * (R * 2 ^ n) + 2 ^ n := by exact_mod_cast hlow
      rcases abs_cases ((R : ℚ) * 2 ^ n - M) with ⟨h, -⟩ | ⟨h, -⟩ <;> rw [h] <;> linarith
    have hbig : (2 : ℚ) ^ n * 2 ^ spec.mantissaBitsWithoutImplicit ≤ M := by
      have : 2 ^ n * 2 ^ spec.mantissaBitsWithoutImplicit ≤ M := by
        rw [← Nat.pow_add, show n + spec.mantissaBitsWithoutImplicit = M.log2 by rw [Format.mantissaBits] at hn; omega]
        exact Nat.log2_self_le (by omega)
      exact_mod_cast this
    have hpos : (0 : ℚ) < 2 ^ e := zpow_pos (by norm_num) e
    calc |(R : ℚ) * (2 ^ e * 2 ^ n) - M * 2 ^ e| * 2 ^ spec.mantissaBits
        = |((R : ℚ) * 2 ^ n - M) * 2 ^ e| * 2 ^ spec.mantissaBits := by ring_nf
      _ = |(R : ℚ) * 2 ^ n - M| * 2 * 2 ^ spec.mantissaBitsWithoutImplicit * 2 ^ e := by
        rw [abs_mul, abs_of_pos hpos, Format.mantissaBits, pow_add, pow_one]
        ring
      _ ≤ 2 ^ n * 2 ^ spec.mantissaBitsWithoutImplicit * 2 ^ e := by gcongr
      _ ≤ M * 2 ^ e := by gcongr

/-! ## Integers -/

/-- A positive number that is at least 2 ^ k has its highest bit above k. -/
theorem lt_totalExponent {k : Int} (h : (2 : ℚ) ^ k ≤ M * 2 ^ e) : k < totalExponent M e := by
  have hlt : (M : ℚ) < 2 ^ (M.log2 + 1) := by exact_mod_cast Nat.lt_log2_self
  have hpos : (0 : ℚ) < 2 ^ e := zpow_pos (by norm_num) e
  have hlt' : (2 : ℚ) ^ k < 2 ^ (((M.log2 + 1 : Nat) : Int) + e) := by
    rw [zpow_add₀ (by norm_num), zpow_natCast]
    exact lt_of_le_of_lt h (mul_lt_mul_of_pos_right hlt hpos)
  have := (zpow_lt_zpow_iff_right₀ (by norm_num)).mp hlt'
  rw [totalExponent]
  omega

/-- An integer below 2 ^ mantissaBits is kept as it is. -/
theorem round_nat_exact (s : Sign) (hM : 0 < M) (hfits : M.log2 + 1 ≤ spec.mantissaBits)
    (hmin : spec.minExponent ≤ -spec.mantissaBits) :
    ∃ m' e' h, UnpackedFloat.round spec s M 0 = .finite s m' e' h ∧ (m' : ℚ) * 2 ^ e' = M := by
  have htarget : spec.targetExponent (totalExponent M 0) = totalExponent M 0 - spec.mantissaBits :=
    targetExponent_normal (by rw [totalExponent]; omega)
  obtain ⟨k, hk⟩ : ∃ k, M.log2 + 1 + k = spec.mantissaBits := ⟨_, Nat.add_sub_cancel' hfits⟩
  have hshift : (0 - spec.targetExponent (totalExponent M 0)).toNat = k := by
    rw [htarget, totalExponent]
    omega
  have hround : UnpackedFloat.round spec s M 0 = roundWithAccuracy spec s (M <<< k) (0 - k) .exact := by
    rw [UnpackedFloat.round, decreaseExponent, hshift]
  have hpos : 0 < M <<< k := by
    rw [Nat.shiftLeft_eq]
    exact Nat.mul_pos hM (Nat.two_pow_pos k)
  have hlog : (M <<< k).log2 = M.log2 + k := by
    rw [Nat.log2_eq_iff (Nat.ne_of_gt hpos), Nat.shiftLeft_eq, Nat.add_right_comm, Nat.pow_add, Nat.pow_add]
    have hlow : 2 ^ M.log2 ≤ M := Nat.log2_self_le (Nat.ne_of_gt hM)
    have hup : M < 2 ^ (M.log2 + 1) := Nat.lt_log2_self
    exact ⟨Nat.mul_le_mul_right _ hlow, Nat.mul_lt_mul_of_pos_right hup (Nat.two_pow_pos k)⟩
  have hnormal : spec.minExponent ≤ totalExponent (M <<< k) (0 - k) - spec.mantissaBits := by
    rw [totalExponent, hlog]
    omega
  obtain ⟨m', e', h, heq, hvalue⟩ := roundWithAccuracy_exact s hpos (by omega) hnormal
  refine ⟨m', e', h, by rw [hround, heq], ?_⟩
  rw [hvalue, Nat.shiftLeft_eq, zero_sub, zpow_neg, zpow_natCast]
  push_cast
  field_simp

/-- Of a product of two numbers in the normal range. -/
theorem mul_error (s1 s2 : Sign) {m1 m2 : Nat} {e1 e2 : Int} (h1 : 0 < m1) (h2 : 0 < m2) {x y : ℚ} {k : Int}
    (hx : (m1 : ℚ) * 2 ^ e1 = x) (hy : (m2 : ℚ) * 2 ^ e2 = y) (hk : 2 ^ k ≤ x * y)
    (hmin : spec.minExponent ≤ k - spec.mantissaBits) :
    ∃ m' e' h, UnpackedFloat.mul spec (.finite s1 m1 e1 h1) (.finite s2 m2 e2 h2) = .finite (s1 * s2) m' e' h ∧
      |(m' : ℚ) * 2 ^ e' - x * y| * 2 ^ spec.mantissaBits ≤ x * y := by
  have hexact : ((m1 * m2 : Nat) : ℚ) * 2 ^ (e1 + e2) = x * y := by
    rw [← hx, ← hy, zpow_add₀ (by norm_num)]
    push_cast
    ring
  rw [← hexact] at hk ⊢
  have hlow := lt_totalExponent hk
  exact roundWithAccuracy_error (s1 * s2) (Nat.mul_pos h1 h2) (by omega)

/-! ## `lround` -/

/-- The integer nearest to `m * 2 ^ e`, upwards from a half. -/
def roundHalf (m : Nat) (e : Int) : Nat :=
  if 0 ≤ e then m * 2 ^ e.toNat else (2 * m + 2 ^ (-e).toNat) / 2 ^ ((-e).toNat + 1)

/-- The C library's `lround`: the nearest integer, halves away from zero. -/
def lround : UnpackedFloat → Int
  | .finite s m e _ => s.apply (roundHalf m e)
  | _ => 0

theorem roundHalf_bounds (m : Nat) (e : Int) :
    (roundHalf m e : ℚ) ≤ m * 2 ^ e + 1 / 2 ∧ (m : ℚ) * 2 ^ e + 1 / 2 < roundHalf m e + 1 := by
  rw [roundHalf]
  split
  · next he =>
    obtain ⟨n, rfl⟩ := Int.eq_ofNat_of_zero_le he
    rw [Int.toNat_natCast, zpow_natCast]
    push_cast
    constructor <;> linarith
  · next he =>
    obtain ⟨n, rfl⟩ : ∃ n : Nat, e = -n := ⟨(-e).toNat, by omega⟩
    rw [neg_neg, Int.toNat_natCast, zpow_neg, zpow_natCast]
    have hle := Nat.div_mul_le_self (2 * m + 2 ^ n) (2 ^ (n + 1))
    have hlt := Nat.lt_div_mul_add (a := 2 * m + 2 ^ n) (Nat.two_pow_pos (n + 1))
    generalize (2 * m + 2 ^ n) / 2 ^ (n + 1) = q at hle hlt
    have hle' : (q : ℚ) * (2 ^ n * 2) ≤ 2 * m + 2 ^ n := by
      rw [← pow_succ]
      exact_mod_cast hle
    have hlt' : 2 * (m : ℚ) + 2 ^ n < q * (2 ^ n * 2) + 2 ^ n * 2 := by
      rw [← pow_succ]
      exact_mod_cast hlt
    constructor
    · rw [← sub_nonneg]
      have : (m : ℚ) * (2 ^ n)⁻¹ + 1 / 2 - q = (2 * m + 2 ^ n - q * (2 ^ n * 2)) / (2 ^ n * 2) := by field_simp
      rw [this]
      exact div_nonneg (by linarith) (by positivity)
    · rw [← sub_pos]
      have : (q : ℚ) + 1 - (m * (2 ^ n)⁻¹ + 1 / 2) = (q * (2 ^ n * 2) + 2 ^ n * 2 - (2 * m + 2 ^ n)) / (2 ^ n * 2) := by
        field_simp
      rw [this]
      exact div_pos (by linarith) (by positivity)

end Badnet.Lib

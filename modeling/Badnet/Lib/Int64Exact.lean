/-
  Badnet.Lib.Int64Exact — `int64_t` arithmetic that stays exact.

  Sums, differences and quotients of `Int64` wrap; here are the conditions under which the value over `Int` is the
  exact one, and the rule that a difference of two wrapped sums is exact as soon as the difference itself fits
  (`toInt_sub_of_bmod`).
-/

import Mathlib.Algebra.Group.Nat.Defs
import Mathlib.Algebra.Ring.Int.Defs

namespace Badnet.Lib

/-- The values of `int64_t`. -/
def FitsInt64 (x : Int) : Prop := -9223372036854775808 ≤ x ∧ x < 9223372036854775808

variable {a b x y : Int64}

theorem bmod_of_fits {z : Int} (h : FitsInt64 z) : z.bmod (2 ^ 64) = z :=
  Int.bmod_eq_of_le (by have := h.1; omega) (by have := h.2; omega)

theorem toInt_add_of_fits (h : FitsInt64 (a.toInt + b.toInt)) : (a + b).toInt = a.toInt + b.toInt := by
  rw [Int64.toInt_add, bmod_of_fits h]

theorem toInt_sub_of_fits (h : FitsInt64 (a.toInt - b.toInt)) : (a - b).toInt = a.toInt - b.toInt := by
  rw [Int64.toInt_sub, bmod_of_fits h]

/-- A difference of wrapped values is exact when the exact difference fits. -/
theorem toInt_sub_of_bmod {p q : Int} (hx : x.toInt = p.bmod (2 ^ 64)) (hy : y.toInt = q.bmod (2 ^ 64))
    (h : FitsInt64 (p - q)) : (x - y).toInt = p - q := by
  rw [Int64.toInt_sub, hx, hy, ← Int.sub_bmod, bmod_of_fits h]

/-! ## Quotients -/

theorem toInt_div_of_pos (hb : 0 < b.toInt) : (a / b).toInt = a.toInt.tdiv b.toInt := by
  refine Int64.toInt_div_of_ne_right a b fun h => ?_
  rw [h] at hb
  exact absurd hb (by decide)

/-- The quotient of numbers that are not negative rounds down. -/
theorem div_bounds (ha : 0 ≤ a.toInt) (hb : 0 < b.toInt) :
    0 ≤ (a / b).toInt ∧ (a / b).toInt * b.toInt ≤ a.toInt ∧ a.toInt < (a / b).toInt * b.toInt + b.toInt := by
  rw [toInt_div_of_pos hb, Int.tdiv_eq_ediv_of_nonneg ha]
  refine ⟨Int.ediv_nonneg ha (Int.le_of_lt hb), Int.ediv_mul_le _ (Int.ne_of_gt hb), ?_⟩
  have := Int.lt_ediv_add_one_mul_self a.toInt hb
  rwa [Int.add_mul, Int.one_mul] at this

end Badnet.Lib

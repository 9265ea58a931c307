/-
  Badnet.Lib.PowerRow — rows of powers under a bilinear map.

  `R` acts on the groups `G` and `T`, written additively. Over the powers `α^k • g` of one element, a row of positions
  `p < B` is summed up twice: once as `α^(B - p) • g` (`rowHeader`), once shifted by `b + 1` and without the position
  `b` (`rowShare`). The two pairings of `pairing_rowHeader_sub` cancel except for the position `b`.
-/

import Mathlib.Algebra.BigOperators.Ring.Finset
import Mathlib.Algebra.Module.BigOperators
import Mathlib.LinearAlgebra.BilinearMap
import Mathlib.Tactic.Ring

namespace Badnet.Lib

variable {R G T : Type*} [CommRing R] [AddCommGroup G] [Module R G] [AddCommGroup T] [Module R T]

/-- `γ • g` and, for each position `p` of the row, `α^(B - p) • g`. -/
def rowHeader (g : G) (α γ : R) (B : Nat) (row : Finset Nat) : G := γ • g + ∑ p ∈ row, α ^ (B - p) • g

/-- `γ • α^(b+1) • g` and, for each position `p` of the row but `b`, `α^(B - p + b + 1) • g`. -/
def rowShare (g : G) (α γ : R) (B b : Nat) (row : Finset Nat) : G :=
  γ • α ^ (b + 1) • g + ∑ p ∈ row.erase b, α ^ (B - p + b + 1) • g

theorem rowHeader_eq (g : G) (α γ : R) (B : Nat) (row : Finset Nat) :
    rowHeader g α γ B row = (γ + ∑ p ∈ row, α ^ (B - p)) • g := by
  rw [rowHeader, add_smul, Finset.sum_smul]

theorem rowShare_eq (g : G) (α γ : R) (B b : Nat) (row : Finset Nat) :
    rowShare g α γ B b row = (γ * α ^ (b + 1) + ∑ p ∈ row.erase b, α ^ (B - p + b + 1)) • g := by
  rw [rowShare, add_smul, Finset.sum_smul, smul_smul]

/-- The exponents: shifting the header's row by `b + 1` gives the share's and, if `b` is in
    the row, `α^(B+1)`. -/
theorem rowHeader_exponent (α γ : R) {B b : Nat} (hb : b ≤ B) (row : Finset Nat) :
    α ^ (b + 1) * (γ + ∑ p ∈ row, α ^ (B - p)) =
      (γ * α ^ (b + 1) + ∑ p ∈ row.erase b, α ^ (B - p + b + 1)) + if b ∈ row then α ^ (B + 1) else 0 := by
  have hshift : α ^ (b + 1) * ∑ p ∈ row, α ^ (B - p) = ∑ p ∈ row, α ^ (B - p + b + 1) := by
    rw [Finset.mul_sum]
    refine Finset.sum_congr rfl fun p _ => ?_
    rw [← pow_add, Nat.add_comm, Nat.add_assoc]
  have hsplit : ∑ p ∈ row, α ^ (B - p + b + 1) =
      ∑ p ∈ row.erase b, α ^ (B - p + b + 1) + if b ∈ row then α ^ (B + 1) else 0 := by
    by_cases hmem : b ∈ row
    · rw [if_pos hmem, ← Finset.sum_erase_add row _ hmem, Nat.sub_add_cancel hb]
    · rw [if_neg hmem, Finset.erase_eq_of_notMem hmem, add_zero]
  rw [mul_add, hshift, hsplit, mul_comm (α ^ (b + 1)) γ, add_assoc]

theorem pairing_rowHeader_sub (e : G →ₗ[R] G →ₗ[R] T) (g : G) (α γ t : R) {B b : Nat} (hb : b ≤ B) (row : Finset Nat) :
    e (α ^ (b + 1) • g) (t • rowHeader g α γ B row) - e (rowShare g α γ B b row) (t • g) =
      if b ∈ row then t • e (α ^ B • g) (α • g) else 0 := by
  have hpair : ∀ x y : R, e (x • g) (t • y • g) = (t * (x * y)) • e g g := by
    intro x y
    rw [LinearMap.map_smul, LinearMap.map_smul, LinearMap.map_smul₂, smul_smul, smul_smul]
    congr 1
    ring
  have hshare : e (rowShare g α γ B b row) (t • g) =
      (t * (γ * α ^ (b + 1) + ∑ p ∈ row.erase b, α ^ (B - p + b + 1))) • e g g := by
    have := hpair (γ * α ^ (b + 1) + ∑ p ∈ row.erase b, α ^ (B - p + b + 1)) 1
    rwa [one_smul, mul_one, ← rowShare_eq] at this
  rw [rowHeader_eq, hpair, hshare, rowHeader_exponent α γ hb, ← sub_smul]
  by_cases hmem : b ∈ row
  · rw [if_pos hmem, if_pos hmem, LinearMap.map_smul, LinearMap.map_smul₂, smul_smul, smul_smul]
    congr 1
    ring
  · rw [if_neg hmem, if_neg hmem, add_zero, sub_self, zero_smul]

end Badnet.Lib

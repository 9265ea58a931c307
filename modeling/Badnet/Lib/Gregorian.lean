/-
  Badnet.Lib.Gregorian — days and dates of the Gregorian calendar, carried back before its introduction.

  Years and months are two rows of blocks of days. A day number is located in a row by taking off one block after the
  other (`locate`). The leap days of consecutive years can be counted without looking at each (`total_yearLength`).
-/

namespace Badnet.Lib

/-! ## Rows of blocks -/

/-- The length of the first blocks together. -/
def total (len : Nat → Nat) : Nat → Nat
  | 0 => 0
  | k + 1 => total len k + len k

/-- The block and the place in it, from block `k` on; the number of blocks to look at is bounded. -/
def locate (len : Nat → Nat) : Nat → Nat → Nat → Nat × Nat
  | 0, k, d => (k, d)
  | bound + 1, k, d => if d < len k then (k, d) else locate len bound (k + 1) (d - len k)

section
variable {len : Nat → Nat}

theorem total_mono {i j : Nat} (h : i ≤ j) : total len i ≤ total len j := by
  induction h with
  | refl => exact Nat.le_refl _
  | step _ ih => exact Nat.le_trans ih (Nat.le_add_right _ _)

theorem total_locate (bound k d : Nat) :
    total len (locate len bound k d).1 + (locate len bound k d).2 = total len k + d := by
  induction bound generalizing k d with
  | zero => rfl
  | succ bound ih =>
    rw [locate]
    split
    · rfl
    next h =>
      rw [ih, total]
      omega

/-- With a block of at least one day at every turn, the bound is not reached. -/
theorem locate_lt {bound k d : Nat} (hpos : ∀ i, 0 < len i) (hbound : d < bound) :
    (locate len bound k d).2 < len (locate len bound k d).1 := by
  induction bound generalizing k d with
  | zero => cases hbound
  | succ bound ih =>
    rw [locate]
    split
    next h => exact h
    next h =>
      have hk := hpos k
      exact ih (by omega)

/-- The last blocks need not be looked at when they are not reached. -/
theorem locate_lt_of_total {bound k d : Nat} (hd : total len k + d < total len (k + bound)) :
    (locate len bound k d).1 < k + bound ∧ (locate len bound k d).2 < len (locate len bound k d).1 := by
  induction bound generalizing k d with
  | zero => exact absurd hd (by rw [Nat.add_zero]; omega)
  | succ bound ih =>
    rw [locate]
    split
    next h => exact ⟨Nat.lt_add_of_pos_right (Nat.succ_pos bound), h⟩
    next h =>
      have hshift : k + (bound + 1) = k + 1 + bound := by omega
      have hrest : total len (k + 1) + (d - len k) < total len (k + 1 + bound) := by
        rw [← hshift, total]
        omega
      rw [hshift]
      exact ih hrest

end

/-! ## Years and months -/

variable (y : Nat)

def IsLeap : Prop := y % 4 = 0 ∧ (y % 100 ≠ 0 ∨ y % 400 = 0)

instance (y : Nat) : Decidable (IsLeap y) := inferInstanceAs (Decidable (_ ∧ _))

def yearLength : Nat := if IsLeap y then 366 else 365

/-- Months count from 0. -/
def monthLength (m : Nat) : Nat :=
  if m = 1 then if IsLeap y then 29 else 28
  else if m = 3 ∨ m = 5 ∨ m = 8 ∨ m = 10 then 30
  else 31

theorem yearLength_pos : 0 < yearLength y := by
  unfold yearLength
  split <;> decide

theorem monthLength_le (m : Nat) : monthLength y m ≤ 31 := by
  unfold monthLength
  split
  · split <;> decide
  · split <;> decide

theorem total_monthLength_twelve : total (monthLength y) 12 = yearLength y := by
  by_cases h : IsLeap y <;> simp [total, monthLength, yearLength, h]

/-- The leap years before year `y`, counted from year 1. -/
def leapsBefore : Nat := (y - 1) / 4 - (y - 1) / 100 + (y - 1) / 400

theorem isLeap_iff_dvd : IsLeap y ↔ 4 ∣ y ∧ (¬100 ∣ y ∨ 400 ∣ y) := by
  simp only [IsLeap, Nat.dvd_iff_mod_eq_zero, ne_eq]

/-- A quotient grows by one in the years that its divisor divides. -/
theorem leapsBefore_succ {y : Nat} (hy : 0 < y) : leapsBefore (y + 1) = leapsBefore y + if IsLeap y then 1 else 0 := by
  obtain ⟨n, rfl⟩ := Nat.exists_eq_add_one_of_ne_zero (Nat.ne_of_gt hy)
  have hcenturies : n / 100 ≤ n / 4 := Nat.div_le_div_left (by decide) (by decide)
  have hfour : 100 ∣ n + 1 → 4 ∣ n + 1 := Nat.dvd_trans (by decide)
  have hhundred : 400 ∣ n + 1 → 100 ∣ n + 1 := Nat.dvd_trans (by decide)
  simp only [leapsBefore, Nat.add_sub_cancel, Nat.succ_div, isLeap_iff_dvd]
  by_cases h4 : 4 ∣ n + 1
  · by_cases h100 : 100 ∣ n + 1
    · by_cases h400 : 400 ∣ n + 1
      · simp only [h4, h100, h400, or_true, and_self, if_true]
        omega
      · simp only [h4, h100, h400, not_true, or_self, and_false, if_true, if_false]
        omega
    · have h400 : ¬400 ∣ n + 1 := fun h => h100 (hhundred h)
      simp only [h4, h100, h400, not_false_eq_true, true_or, and_self, if_true, if_false]
      omega
  · have h100 : ¬100 ∣ n + 1 := fun h => h4 (hfour h)
    have h400 : ¬400 ∣ n + 1 := fun h => h100 (hhundred h)
    simp only [h4, h100, h400, false_and, if_false]
    omega

/-- The years from `start` on. -/
theorem total_yearLength {start : Nat} (hstart : 0 < start) (n : Nat) :
    total (fun i => yearLength (start + i)) n + leapsBefore start = 365 * n + leapsBefore (start + n) := by
  induction n with
  | zero => rfl
  | succ n ih =>
    have hnext := @leapsBefore_succ (start + n) (Nat.lt_of_lt_of_le hstart (Nat.le_add_right _ _))
    have hlength : yearLength (start + n) = 365 + if IsLeap (start + n) then 1 else 0 := by
      unfold yearLength
      split <;> rfl
    rw [total, ← Nat.add_assoc start n 1, hnext, hlength]
    omega

end Badnet.Lib

/-
  Badnet.Lib.SlidingWindow — sums over the last places of a sequence.

  `window f w s` is the sum of `f` at `s` and the `w - 1` places before it; a window sees nothing after its place
  (`window_congr`). The largest window over a stretch of places is a supremum, and the next place extends it
  (`sup_window_succ`).
-/

import Mathlib

namespace Badnet.Lib

variable (f : ℤ → ℕ)

def window (w : ℕ) (s : ℤ) : ℕ := ∑ j ∈ Finset.range w, f (s - j)

theorem window_congr {f g : ℤ → ℕ} {w : ℕ} {s : ℤ} (h : ∀ i ≤ s, f i = g i) : window f w s = window g w s :=
  Finset.sum_congr rfl fun j _ => h _ (by omega)

theorem sup_window_congr {f g : ℤ → ℕ} {w : ℕ} {a b : ℤ} (h : ∀ i < b, f i = g i) :
    (Finset.Ico a b).sup (window f w) = (Finset.Ico a b).sup (window g w) :=
  Finset.sup_congr rfl fun s hs => window_congr fun i hi => h i (by have := (Finset.mem_Ico.mp hs).2; omega)

theorem Ico_succ {a b : ℤ} (h : a ≤ b) : Finset.Ico a (b + 1) = insert b (Finset.Ico a b) := by
  ext s
  rw [Finset.mem_insert, Finset.mem_Ico, Finset.mem_Ico]
  omega

theorem sup_window_succ (w : ℕ) {a b : ℤ} (h : a ≤ b) :
    (Finset.Ico a (b + 1)).sup (window f w) = max (window f w b) ((Finset.Ico a b).sup (window f w)) := by
  rw [Ico_succ h, Finset.sup_insert]

theorem sum_Ico_succ {a b : ℤ} (h : a ≤ b) : ∑ s ∈ Finset.Ico a (b + 1), f s = f b + ∑ s ∈ Finset.Ico a b, f s := by
  rw [Ico_succ h, Finset.sum_insert]
  rw [Finset.mem_Ico]
  omega

/-- No finite set of places has more than the bound. -/
def Bounded (bound : ℕ) : Prop := ∀ places : Finset ℤ, ∑ s ∈ places, f s ≤ bound

theorem Bounded.window {f : ℤ → ℕ} {bound : ℕ} (h : Bounded f bound) (w : ℕ) (s : ℤ) : window f w s ≤ bound := by
  have hinj : Set.InjOn (fun j : ℕ => s - (j : ℤ)) (Finset.range w) := fun i _ j _ hij => by
    have : s - (i : ℤ) = s - (j : ℤ) := hij
    omega
  have := h ((Finset.range w).image fun j : ℕ => s - (j : ℤ))
  rwa [Finset.sum_image hinj] at this

/-- More at one place. -/
theorem Bounded.add {f : ℤ → ℕ} {bound : ℕ} (h : Bounded f bound) (s : ℤ) (n : ℕ) :
    Bounded (fun i => f i + if i = s then n else 0) (bound + n) := fun places => by
  rw [Finset.sum_add_distrib]
  refine Nat.add_le_add (h places) ?_
  rw [Finset.sum_ite_eq']
  split
  · exact Nat.le_refl n
  · exact Nat.zero_le n

end Badnet.Lib

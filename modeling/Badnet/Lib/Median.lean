/-
  Badnet.Lib.Median — the low median of a list.

  It is the member with at most half of the others below it and at least half of the others not above it, rounded
  towards the low side (`IsLowMedian`). A sorted list has it in the middle (`isLowMedian_iff_get`), so there is exactly
  one, and it does not depend on the order of the list (`IsLowMedian.perm`).
-/

import Mathlib.Data.List.Sort

namespace Badnet.Lib

variable {α : Type} [LinearOrder α] {xs ys s : List α} {m m' : α}

structure IsLowMedian (xs : List α) (m : α) : Prop where
  mem : m ∈ xs
  below : xs.countP (· < m) ≤ (xs.length - 1) / 2
  upTo : (xs.length - 1) / 2 < xs.countP (· ≤ m)

theorem IsLowMedian.perm (h : IsLowMedian xs m) (hperm : xs.Perm ys) : IsLowMedian ys m where
  mem := hperm.mem_iff.mp h.mem
  below := by
    rw [← hperm.countP_eq, ← hperm.length_eq]
    exact h.below
  upTo := by
    rw [← hperm.countP_eq, ← hperm.length_eq]
    exact h.upTo

theorem IsLowMedian.unique (h : IsLowMedian xs m) (h' : IsLowMedian xs m') : m = m' := by
  have hnot : ∀ {a b : α}, IsLowMedian xs a → IsLowMedian xs b → ¬ a < b := by
    intro a b ha hb hlt
    have hle : xs.countP (· ≤ a) ≤ xs.countP (· < b) :=
      List.countP_mono_left fun x _ hx => decide_eq_true (lt_of_le_of_lt (of_decide_eq_true hx) hlt)
    have := ha.upTo
    have := hb.below
    omega
  exact le_antisymm (not_lt.mp (hnot h' h)) (not_lt.mp (hnot h h'))

/-- A member of a sorted list, what is before it and what is behind. -/
theorem countP_sorted {i : Nat} (hs : s.Pairwise (· ≤ ·)) (hm : s[i]? = some m) :
    s.countP (· < m) ≤ i ∧ i < s.countP (· ≤ m) := by
  obtain ⟨hi, rfl⟩ := List.getElem?_eq_some_iff.mp hm
  have hsplit : s = s.take i ++ s[i] :: s.drop (i + 1) := by
    rw [List.getElem_cons_drop, List.take_append_drop]
  have hlen : (s.take i).length = i := by
    rw [List.length_take]
    omega
  generalize s[i] = m at hsplit
  generalize s.take i = pre at hsplit hlen
  generalize s.drop (i + 1) = post at hsplit
  rw [hsplit] at hs
  obtain ⟨-, hpost, hpre⟩ := List.pairwise_append.mp hs
  have hnone : (m :: post).countP (· < m) = 0 := by
    refine List.countP_eq_zero.mpr fun x hx => ?_
    rcases List.mem_cons.mp hx with rfl | hx
    · simp
    · simpa using (List.pairwise_cons.mp hpost).1 x hx
  have hall : pre.countP (· ≤ m) = pre.length :=
    List.countP_eq_length.mpr fun x hx => decide_eq_true (hpre x hx m List.mem_cons_self)
  have hpos : 0 < (m :: post).countP (· ≤ m) :=
    List.countP_pos_iff.mpr ⟨m, List.mem_cons_self, decide_eq_true le_rfl⟩
  have hle : pre.countP (· < m) ≤ pre.length := List.countP_le_length
  rw [hsplit, List.countP_append, List.countP_append, hnone, hall]
  omega

/-- The low median is in the middle of the sorted list. -/
theorem isLowMedian_iff_get (hperm : s.Perm xs) (hs : s.Pairwise (· ≤ ·)) :
    IsLowMedian xs m ↔ s[(xs.length - 1) / 2]? = some m := by
  have hmiddle : ∀ {a : α}, s[(xs.length - 1) / 2]? = some a → IsLowMedian xs a := by
    intro a ha
    obtain ⟨hbelow, hupTo⟩ := countP_sorted hs ha
    rw [hperm.countP_eq] at hbelow hupTo
    exact ⟨hperm.mem_iff.mp (List.mem_of_getElem? ha), hbelow, hupTo⟩
  constructor
  · intro h
    have hpos : 0 < xs.length := List.length_pos_of_mem h.mem
    have hi : (xs.length - 1) / 2 < s.length := by
      rw [hperm.length_eq]
      omega
    have hget := List.getElem?_eq_getElem hi
    rw [hget, (hmiddle hget).unique h]
  · exact hmiddle

end Badnet.Lib

/-
  Badnet.Lib.Subsequence — the length of a longest common subsequence of two lists, with the laws that programs compute
  it by: adding an item to the end of both lists (`lcsLen_concat`), taking a common beginning or end off
  (`lcsLen_around`), reading both lists backwards (`lcsLen_reverse`), and cutting one list at any place and the other at
  the best place (`exists_split`).
-/

import Mathlib.Data.List.Sublists
import Mathlib.Order.Lattice.Nat

namespace Badnet.Lib

variable {α : Type*} {xs ys zs : List α}

structure Common (zs xs ys : List α) : Prop where
  left : zs.Sublist xs
  right : zs.Sublist ys

/-- A common subsequence that is as long as any other. -/
structure LongestCommon (zs xs ys : List α) : Prop extends Common zs xs ys where
  longest : ∀ ws, Common ws xs ys → ws.length ≤ zs.length

noncomputable def lcsLen (xs ys : List α) : Nat := sSup {n | ∃ zs, Common zs xs ys ∧ zs.length = n}

theorem Common.symm (h : Common zs xs ys) : Common zs ys xs := ⟨h.right, h.left⟩

theorem Common.length_le (h : Common zs xs ys) : zs.length ≤ lcsLen xs ys := by
  refine le_csSup ⟨xs.length, ?_⟩ ⟨zs, h, rfl⟩
  rintro n ⟨ws, hws, rfl⟩
  exact hws.left.length_le

theorem exists_longest (xs ys : List α) : ∃ zs, Common zs xs ys ∧ zs.length = lcsLen xs ys := by
  have hne : {n | ∃ zs, Common zs xs ys ∧ zs.length = n}.Nonempty :=
    ⟨0, [], ⟨List.nil_sublist xs, List.nil_sublist ys⟩, rfl⟩
  refine Nat.sSup_mem hne ⟨xs.length, ?_⟩
  rintro n ⟨ws, hws, rfl⟩
  exact hws.left.length_le

theorem lcsLen_le {n : Nat} (h : ∀ zs, Common zs xs ys → zs.length ≤ n) : lcsLen xs ys ≤ n := by
  obtain ⟨zs, hzs, hlen⟩ := exists_longest xs ys
  rw [← hlen]
  exact h zs hzs

/-- A common subsequence of that length is a longest one. -/
theorem Common.longestCommon (h : Common zs xs ys) (hlen : zs.length = lcsLen xs ys) : LongestCommon zs xs ys :=
  ⟨h, fun _ hws => hlen ▸ hws.length_le⟩

theorem lcsLen_comm (xs ys : List α) : lcsLen xs ys = lcsLen ys xs :=
  le_antisymm (lcsLen_le fun _ h => h.symm.length_le) (lcsLen_le fun _ h => h.symm.length_le)

theorem lcsLen_nil_left (ys : List α) : lcsLen [] ys = 0 :=
  Nat.le_zero.mp (lcsLen_le fun zs h => by rw [List.eq_nil_of_sublist_nil h.left]; exact Nat.le_refl _)

theorem lcsLen_nil_right (xs : List α) : lcsLen xs [] = 0 := by rw [lcsLen_comm, lcsLen_nil_left]

theorem lcsLen_reverse (xs ys : List α) : lcsLen xs.reverse ys.reverse = lcsLen xs ys := by
  have hle : ∀ as bs : List α, lcsLen as bs ≤ lcsLen as.reverse bs.reverse := fun as bs =>
    lcsLen_le fun zs h => by
      rw [← List.length_reverse]
      exact Common.length_le ⟨h.left.reverse, h.right.reverse⟩
  refine le_antisymm ?_ (hle xs ys)
  have h := hle xs.reverse ys.reverse
  rwa [List.reverse_reverse, List.reverse_reverse] at h

/-! ## One more item -/

theorem lcsLen_cons_same (x : α) (xs ys : List α) : lcsLen (x :: xs) (x :: ys) = lcsLen xs ys + 1 := by
  refine le_antisymm (lcsLen_le fun zs h => ?_) ?_
  · have htail : Common zs.tail xs ys := ⟨h.left.tail, h.right.tail⟩
    have hlen := htail.length_le
    rw [List.length_tail] at hlen
    omega
  · obtain ⟨zs, h, hlen⟩ := exists_longest xs ys
    have hcons : Common (x :: zs) (x :: xs) (x :: ys) := ⟨h.left.cons_cons x, h.right.cons_cons x⟩
    rw [← hlen]
    exact hcons.length_le

theorem lcsLen_cons_ne {x y : α} (hne : x ≠ y) (xs ys : List α) :
    lcsLen (x :: xs) (y :: ys) = max (lcsLen xs (y :: ys)) (lcsLen (x :: xs) ys) := by
  refine le_antisymm (lcsLen_le fun zs h => ?_) (max_le (lcsLen_le fun zs h => ?_) (lcsLen_le fun zs h => ?_))
  · -- a common subsequence starts with one of the two items at most
    rcases List.sublist_cons_iff.mp h.left with hleft | ⟨ws, rfl, hleft⟩
    · exact le_trans (Common.length_le ⟨hleft, h.right⟩) (le_max_left _ _)
    rcases List.sublist_cons_iff.mp h.right with hright | ⟨ws', heq, -⟩
    · exact le_trans (Common.length_le ⟨h.left, hright⟩) (le_max_right _ _)
    · exact absurd (List.cons.inj heq).1 hne
  · exact Common.length_le ⟨h.left.cons x, h.right⟩
  · exact Common.length_le ⟨h.left, h.right.cons y⟩

/-- The law that a table of the lengths is filled by. -/
theorem lcsLen_concat [DecidableEq α] (xs ys : List α) (x y : α) :
    lcsLen (xs ++ [x]) (ys ++ [y]) =
      if x = y then lcsLen xs ys + 1 else max (lcsLen (xs ++ [x]) ys) (lcsLen xs (ys ++ [y])) := by
  rw [← lcsLen_reverse, List.reverse_append, List.reverse_append]
  by_cases hxy : x = y
  · rw [if_pos hxy, hxy, ← lcsLen_reverse xs ys]
    exact lcsLen_cons_same y xs.reverse ys.reverse
  · rw [if_neg hxy, ← lcsLen_reverse (xs ++ [x]) ys, ← lcsLen_reverse xs (ys ++ [y]), List.reverse_append,
      List.reverse_append, max_comm]
    exact lcsLen_cons_ne hxy xs.reverse ys.reverse

theorem lcsLen_singleton [DecidableEq α] (x : α) (ys : List α) : lcsLen [x] ys = if x ∈ ys then 1 else 0 := by
  induction ys with
  | nil => rw [lcsLen_nil_right, if_neg List.not_mem_nil]
  | cons y ys ih =>
    by_cases hxy : x = y
    · rw [hxy, lcsLen_cons_same, lcsLen_nil_left, if_pos List.mem_cons_self]
    · rw [lcsLen_cons_ne hxy, lcsLen_nil_left, Nat.zero_max, ih]
      simp only [List.mem_cons, hxy, false_or]

/-! ## Putting lists one after another -/

theorem lcsLen_append_left (pre xs ys : List α) : lcsLen (pre ++ xs) (pre ++ ys) = pre.length + lcsLen xs ys := by
  induction pre with
  | nil => rw [List.nil_append, List.nil_append, List.length_nil, Nat.zero_add]
  | cons x pre ih =>
    rw [List.cons_append, List.cons_append, lcsLen_cons_same, ih, List.length_cons]
    omega

theorem lcsLen_append_right (xs ys post : List α) : lcsLen (xs ++ post) (ys ++ post) = lcsLen xs ys + post.length := by
  rw [← lcsLen_reverse, List.reverse_append, List.reverse_append, lcsLen_append_left, List.length_reverse,
    lcsLen_reverse, Nat.add_comm]

/-- A beginning and an end that both lists share. -/
theorem lcsLen_around (pre xs ys post : List α) :
    lcsLen (pre ++ xs ++ post) (pre ++ ys ++ post) = pre.length + lcsLen xs ys + post.length := by
  rw [lcsLen_append_right, lcsLen_append_left]

theorem lcsLen_add_le (xs ys xs' ys' : List α) : lcsLen xs ys + lcsLen xs' ys' ≤ lcsLen (xs ++ xs') (ys ++ ys') := by
  obtain ⟨zs, h, hlen⟩ := exists_longest xs ys
  obtain ⟨zs', h', hlen'⟩ := exists_longest xs' ys'
  rw [← hlen, ← hlen', ← List.length_append]
  exact Common.length_le ⟨h.left.append h'.left, h.right.append h'.right⟩

/-- Wherever the first list is cut, some cut of the second loses nothing. -/
theorem exists_split (xs xs' ys : List α) :
    ∃ k ≤ ys.length, lcsLen (xs ++ xs') ys ≤ lcsLen xs (ys.take k) + lcsLen xs' (ys.drop k) := by
  obtain ⟨zs, h, hlen⟩ := exists_longest (xs ++ xs') ys
  obtain ⟨ws, ws', rfl, hxs, hxs'⟩ := List.sublist_append_iff.mp h.left
  obtain ⟨ys1, ys2, rfl, hys, hys'⟩ := List.append_sublist_iff.mp h.right
  refine ⟨ys1.length, by rw [List.length_append]; omega, ?_⟩
  rw [List.take_left, List.drop_left, ← hlen, List.length_append]
  exact Nat.add_le_add (Common.length_le ⟨hxs, hys⟩) (Common.length_le ⟨hxs', hys'⟩)

/-- The second list cut at a best place. -/
theorem lcsLen_split {k : Nat} (hk : ∀ i ≤ ys.length,
    lcsLen xs (ys.take i) + lcsLen zs (ys.drop i) ≤ lcsLen xs (ys.take k) + lcsLen zs (ys.drop k)) :
    lcsLen (xs ++ zs) ys = lcsLen xs (ys.take k) + lcsLen zs (ys.drop k) := by
  obtain ⟨i, hi, hle⟩ := exists_split xs zs ys
  refine le_antisymm (hle.trans (hk i hi)) ?_
  have h := lcsLen_add_le xs (ys.take k) zs (ys.drop k)
  rwa [List.take_append_drop] at h

end Badnet.Lib

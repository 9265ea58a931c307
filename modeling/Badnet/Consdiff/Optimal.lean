/-
  Badnet.Consdiff.Optimal — the diff of `calc_changes` (`feature/dircommon/consdiff.c`) is a shortest one.

  `lcs_lengths` fills its row with the lengths of longest common subsequences of all of the first slice and each start
  of the second (`lcsLengths_getD`), so `optimal_column_to_split` cuts the second slice where nothing is lost
  (`optimalColumnToSplit_spec`), and the lines left unmarked are a longest common subsequence (`calcChanges_longest`).
-/

import Badnet.Consdiff.GenEdDiff
import Badnet.Lib.Subsequence

namespace Badnet.Consdiff

open Lib

/-! ## The table of lengths -/

/-- The lengths for `xs` and every start of `pre ++ ys` that is longer than `pre`. -/
noncomputable def rowFrom (xs pre : List Line) : List Line → List Nat
  | [] => []
  | y :: ys => lcsLen xs (pre ++ [y]) :: rowFrom xs (pre ++ [y]) ys

theorem rowFrom_nil_left (pre ys : List Line) : rowFrom [] pre ys = List.replicate ys.length 0 := by
  induction ys generalizing pre with
  | nil => rfl
  | cons y ys ih => rw [rowFrom, lcsLen_nil_left, ih, List.length_cons, List.replicate_succ]

theorem rowFrom_getD (xs pre ys : List Line) {k : Nat} (hk : k ≤ ys.length) :
    (lcsLen xs pre :: rowFrom xs pre ys).getD k 0 = lcsLen xs (pre ++ ys.take k) := by
  induction ys generalizing pre k with
  | nil =>
    obtain rfl := Nat.le_zero.mp hk
    rw [List.take_nil, List.append_nil]
    rfl
  | cons y ys ih =>
    rcases k with _ | k
    · rw [List.take_zero, List.append_nil]
      rfl
    · have hk' : k ≤ ys.length := Nat.le_of_succ_le_succ hk
      rw [List.getD_cons_succ, rowFrom, ih (pre ++ [y]) hk', List.append_assoc, List.take_succ_cons]
      rfl

/-- One line more of the first slice. -/
theorem lcsRow_eq (line1 : Line) (xs pre ys : List Line) :
    lcsRow line1 ys (lcsLen xs pre :: rowFrom xs pre ys) (lcsLen (xs ++ [line1]) pre) =
      rowFrom (xs ++ [line1]) pre ys := by
  induction ys generalizing pre with
  | nil => rfl
  | cons y ys ih =>
    rw [rowFrom, lcsRow, rowFrom]
    have hr : (if line1 = y then lcsLen xs pre + 1 else max (lcsLen (xs ++ [line1]) pre) (lcsLen xs (pre ++ [y]))) =
        lcsLen (xs ++ [line1]) (pre ++ [y]) := (lcsLen_concat xs pre line1 y).symm
    rw [hr]
    exact congrArg _ (ih (pre ++ [y]))

theorem lcsLengths_eq (slice1 slice2 : List Line) :
    lcsLengths slice1 slice2 = lcsLen slice1 [] :: rowFrom slice1 [] slice2 := by
  have hfold : ∀ xs : List Line,
      slice1.foldl (fun result line1 => result.headD 0 :: lcsRow line1 slice2 result (result.headD 0))
        (lcsLen xs [] :: rowFrom xs [] slice2) =
      lcsLen (xs ++ slice1) [] :: rowFrom (xs ++ slice1) [] slice2 := by
    induction slice1 with
    | nil => simp
    | cons line1 slice1 ih =>
      intro xs
      have hrow := lcsRow_eq line1 xs [] slice2
      rw [lcsLen_nil_right, lcsLen_nil_right] at hrow
      have hstep := ih (xs ++ [line1])
      rw [lcsLen_nil_right, List.append_assoc] at hstep
      rw [List.foldl_cons, List.headD_cons, lcsLen_nil_right, hrow]
      exact hstep
  have h := hfold []
  rw [lcsLen_nil_left, rowFrom_nil_left, ← List.replicate_succ] at h
  exact h

theorem lcsLengths_getD (slice1 slice2 : List Line) {k : Nat} (hk : k ≤ slice2.length) :
    (lcsLengths slice1 slice2).getD k 0 = lcsLen slice1 (slice2.take k) := by
  rw [lcsLengths_eq]
  exact rowFrom_getD slice1 [] slice2 hk

/-- The same for the direction -1: the lengths for the ends of the second slice. -/
theorem lcsLengths_reverse_getD (slice1 slice2 : List Line) {k : Nat} (hk : k ≤ slice2.length) :
    (lcsLengths slice1.reverse slice2.reverse).getD (slice2.length - k) 0 = lcsLen slice1 (slice2.drop k) := by
  rw [lcsLengths_getD _ _ (by rw [List.length_reverse]; omega), List.take_reverse, lcsLen_reverse]
  congr 2
  omega

/-! ## The column to split at -/

/-- The column is one of the first `n`, `max_sum` is its sum, and no sum of those columns is greater. -/
structure BestOf (lensTop lensBot : List Nat) (len n : Nat) (best : Nat × Int) : Prop where
  column : best.1 < n
  sum : best.2 = (lensTop.getD best.1 0 + lensBot.getD (len - best.1) 0 : Nat)
  max : ∀ i < n, ((lensTop.getD i 0 + lensBot.getD (len - i) 0 : Nat) : Int) ≤ best.2

theorem bestColumn_first (lensTop lensBot : List Nat) (len : Nat) :
    BestOf lensTop lensBot len 1 (bestColumn lensTop lensBot len (0, -1) 0) := by
  have hgt : ((lensTop.getD 0 0 : Nat) + (lensBot.getD (len - 0) 0 : Nat) : Int) > -1 := by omega
  rw [bestColumn, if_pos hgt]
  refine ⟨Nat.one_pos, (Int.natCast_add _ _).symm, fun i hi => ?_⟩
  obtain rfl : i = 0 := by omega
  exact Int.le_of_eq (Int.natCast_add _ _)

theorem bestColumn_next {lensTop lensBot : List Nat} {len n : Nat} {best : Nat × Int}
    (h : BestOf lensTop lensBot len n best) :
    BestOf lensTop lensBot len (n + 1) (bestColumn lensTop lensBot len best n) := by
  have hmax := h.max
  rw [bestColumn]
  by_cases hgt : ((lensTop.getD n 0 : Nat) + (lensBot.getD (len - n) 0 : Nat) : Int) > best.2
  · rw [if_pos hgt]
    refine ⟨Nat.lt_succ_self n, (Int.natCast_add _ _).symm, fun i hi => ?_⟩
    rcases Nat.lt_succ_iff_lt_or_eq.mp hi with hlt | rfl
    · exact le_trans (hmax i hlt) (Int.le_of_lt hgt)
    · exact Int.le_of_eq (Int.natCast_add _ _)
  · rw [if_neg hgt]
    refine ⟨Nat.lt_succ_of_lt h.column, h.sum, fun i hi => ?_⟩
    rcases Nat.lt_succ_iff_lt_or_eq.mp hi with hlt | rfl
    · exact hmax i hlt
    · omega

theorem bestColumn_spec (lensTop lensBot : List Nat) (len n : Nat) :
    BestOf lensTop lensBot len (n + 1) ((List.range (n + 1)).foldl (bestColumn lensTop lensBot len) (0, -1)) := by
  induction n with
  | zero => exact bestColumn_first lensTop lensBot len
  | succ n ih =>
    rw [List.range_succ, List.foldl_append]
    exact bestColumn_next ih

theorem optimalColumnToSplit_spec (top bot slice2 : List Line) :
    lcsLen (top ++ bot) slice2 =
      lcsLen top (slice2.take (optimalColumnToSplit top bot slice2)) +
        lcsLen bot (slice2.drop (optimalColumnToSplit top bot slice2)) := by
  obtain ⟨hlt, hbest, hmax⟩ := bestColumn_spec (lcsLengths top slice2) (lcsLengths bot.reverse slice2.reverse)
    slice2.length slice2.length
  have hsum : ∀ i ≤ slice2.length, (lcsLengths top slice2).getD i 0 +
      (lcsLengths bot.reverse slice2.reverse).getD (slice2.length - i) 0 =
        lcsLen top (slice2.take i) + lcsLen bot (slice2.drop i) := fun i hi => by
    rw [lcsLengths_getD _ _ hi, lcsLengths_reverse_getD _ _ hi]
  refine lcsLen_split fun i hi => ?_
  have hle := hmax i (Nat.lt_succ_of_le hi)
  rw [hbest, hsum i hi, hsum _ (Nat.le_of_lt_succ hlt)] at hle
  exact Int.ofNat_le.mp hle

/-! ## What is left unmarked -/

theorem setChanged_length {slice1 : List Line} (h : slice1.length ≤ 1) (slice2 : List Line) :
    (kept (setChanged slice1 slice2).1 slice1).length = lcsLen slice1 slice2 := by
  rcases slice1 with _ | ⟨line, rest⟩
  · rw [lcsLen_nil_left, kept_nil_right]
    rfl
  obtain rfl : rest = [] := by simpa using h
  rw [lcsLen_singleton]
  simp only [setChanged, kept_cons, kept_nil_left, Option.isNone_iff_eq_none, List.findIdx?_eq_none_iff,
    decide_eq_false_iff_not]
  by_cases hmem : line ∈ slice2
  · rw [if_pos hmem, if_neg fun hnot => hnot line hmem rfl]
    rfl
  · rw [if_neg hmem, if_pos (by rintro line' hline' rfl; exact hmem hline')]
    rfl

/-- The marks leave the same lines, as many as a longest common subsequence has. -/
def Shortest (slice1 slice2 : List Line) (changed : List Bool × List Bool) : Prop :=
  Aligned changed.1 slice1 changed.2 slice2 ∧ (kept changed.1 slice1).length = lcsLen slice1 slice2

theorem Shortest.swap {slice1 slice2 : List Line} {changed : List Bool × List Bool}
    (h : Shortest slice1 slice2 changed) : Shortest slice2 slice1 changed.swap := by
  refine ⟨h.1.symm, ?_⟩
  rw [lcsLen_comm, ← h.2, h.1.same]
  rfl

theorem calcChanges_shortest (slice1 slice2 : List Line) : Shortest slice1 slice2 (calcChanges slice1 slice2) := by
  refine calcChanges_rule (P := Shortest) ?_ ?_ ?_ ?_ slice1 slice2
  · intro pre xs ys post changed h
    refine ⟨((Aligned.unmarked pre).append h.1).append (Aligned.unmarked post), ?_⟩
    rw [lcsLen_around, ← h.2, kept_append (by simp [h.1.left]), kept_append (by simp), kept_none, kept_none,
      List.length_append, List.length_append]
  · intro xs ys hlen
    exact ⟨setChanged_aligned hlen ys, setChanged_length hlen ys⟩
  · intro xs ys hlen
    exact Shortest.swap ⟨setChanged_aligned hlen xs, setChanged_length hlen xs⟩
  · intro xs xs' ys changed changed' htop hbot
    have hboth := htop.1.append hbot.1
    rw [List.take_append_drop] at hboth
    refine ⟨hboth, ?_⟩
    rw [kept_append htop.1.left, List.length_append, htop.2, hbot.2, optimalColumnToSplit_spec]

/-- The lines that `calc_changes` leaves unmarked are the same in both lists, and no common subsequence is longer. -/
theorem calcChanges_longest (slice1 slice2 : List Line) :
    (calcChanges slice1 slice2).1.length = slice1.length ∧ (calcChanges slice1 slice2).2.length = slice2.length ∧
      kept (calcChanges slice1 slice2).1 slice1 = kept (calcChanges slice1 slice2).2 slice2 ∧
      LongestCommon (kept (calcChanges slice1 slice2).1 slice1) slice1 slice2 := by
  obtain ⟨h, hlen⟩ := calcChanges_shortest slice1 slice2
  have hcommon : Common (kept (calcChanges slice1 slice2).1 slice1) slice1 slice2 :=
    ⟨kept_sublist _ _, h.same ▸ kept_sublist _ _⟩
  exact ⟨h.left, h.right, h.same, hcommon.longestCommon hlen⟩

end Badnet.Consdiff

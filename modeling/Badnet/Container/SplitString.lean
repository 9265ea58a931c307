/-
  Badnet.Container.SplitString — cutting a text at a separator (`smartlist_split_string` of
  `lib/smartlist_core/smartlist_split.c`, with `SPLIT_SKIP_SPACE|SPLIT_IGNORE_BLANK` and without a bound on the number
  of pieces).

  White space around a piece is dropped and a piece that is empty after that is left out, so every piece is a `Piece`
  (`split_pieces`). Words that are joined with the separator are cut apart again (`split_join_words`, `split_join`).
-/

import Mathlib.Data.List.DropRight
import Badnet.Encoding.Decimal
import Badnet.Lib.Lines

namespace Badnet.Container

open Lib Encoding

def smartlistSplitString (sep : Char) (str : Text) : List Text :=
  let cp := str.dropWhile isspace
  let piece := (cp.takeWhile (· ≠ sep)).rdropWhile isspace
  (if piece ≠ [] then [piece] else []) ++
    match _hrest : cp.dropWhile (· ≠ sep) with
    | [] => []
    | _ :: next => smartlistSplitString sep next
termination_by str.length
decreasing_by
  have hcp := (List.dropWhile_suffix (l := str) isspace).length_le
  have hnext := (List.dropWhile_suffix (l := str.dropWhile isspace) (· ≠ sep)).length_le
  rw [_hrest, List.length_cons] at hnext
  omega

variable (sep : Char)

/-- `smartlist_join_strings`, without a separator at the end. -/
def smartlistJoinStrings (sl : List Text) : Text := [sep].intercalate sl

theorem smartlistJoinStrings_cons (w v : Text) (ws : List Text) :
    smartlistJoinStrings sep (w :: v :: ws) = w ++ sep :: smartlistJoinStrings sep (v :: ws) := rfl

theorem smartlistJoinStrings_singleton (w : Text) : smartlistJoinStrings sep [w] = w := by
  rw [smartlistJoinStrings, List.intercalate_singleton]

/-- Words that were joined before are joined with the others. -/
theorem smartlistJoinStrings_nested {vs : List Text} (hvs : vs ≠ []) (ws : List Text) :
    smartlistJoinStrings sep (ws ++ [smartlistJoinStrings sep vs]) = smartlistJoinStrings sep (ws ++ vs) := by
  induction ws with
  | nil => exact smartlistJoinStrings_singleton sep _
  | cons w ws ih =>
    cases ws with
    | nil =>
      obtain ⟨v, rest, rfl⟩ := List.exists_cons_of_ne_nil hvs
      exact congrArg (fun rest => w ++ sep :: rest) ih
    | cons u ws => exact congrArg (fun rest => w ++ sep :: rest) ih

/-- What is cut out: not empty, without the separator, and without white space at either end. -/
structure Piece (sep : Char) (w : Text) : Prop where
  ne_nil : w ≠ []
  sep_notMem : sep ∉ w
  head : ∀ c ∈ w.head?, isspace c = false
  last : ∀ c ∈ w.getLast?, isspace c = false

section
variable {sep : Char}

theorem smartlistSplitString_eq (str : Text) : smartlistSplitString sep str =
    (if ((str.dropWhile isspace).takeWhile (· ≠ sep)).rdropWhile isspace ≠ [] then
        [((str.dropWhile isspace).takeWhile (· ≠ sep)).rdropWhile isspace] else []) ++
      match (str.dropWhile isspace).dropWhile (· ≠ sep) with
      | [] => []
      | _ :: next => smartlistSplitString sep next := by
  rw [smartlistSplitString]
  congr 1
  split
  next h => rw [h]
  next h => rw [h]

theorem split_nil : smartlistSplitString sep [] = [] := by
  rw [smartlistSplitString_eq]
  rfl

/-- A piece that may have white space behind it. -/
structure SplitWord (sep : Char) (w : Text) : Prop where
  ne_nil : w ≠ []
  sep_notMem : sep ∉ w
  head : ∀ c ∈ w.head?, isspace c = false

variable {w : Text}

theorem Piece.word (hw : Piece sep w) : SplitWord sep w := ⟨hw.ne_nil, hw.sep_notMem, hw.head⟩

/-- A piece by its first and its last character. -/
theorem Piece.of_ends {a b : Char} (hfirst : w.head? = some a) (hlast : w.getLast? = some b)
    (hsep : sep ∉ w) (ha : isspace a = false) (hb : isspace b = false) : Piece sep w where
  ne_nil := by
    intro h
    rw [h] at hfirst
    cases hfirst
  sep_notMem := hsep
  head := by
    intro c hc
    rw [← Option.some.inj (hfirst.symm.trans hc)]
    exact ha
  last := by
    intro c hc
    rw [← Option.some.inj (hlast.symm.trans hc)]
    exact hb

theorem Piece.rdropWhile_eq (hw : Piece sep w) : w.rdropWhile isspace = w := by
  rw [List.rdropWhile_eq_self_iff]
  intro hne
  have hlast := hw.last (w.getLast hne) (List.getLast?_eq_some_getLast hne)
  rw [hlast]
  decide

theorem SplitWord.ne_sep (hw : SplitWord sep w) : ∀ c ∈ w, decide (c ≠ sep) = true := by
  intro c hc
  exact decide_eq_true fun he => hw.sep_notMem (he ▸ hc)

theorem SplitWord.dropWhile_append (hw : SplitWord sep w) (rest : Text) :
    (w ++ rest).dropWhile isspace = w ++ rest := by
  cases w with
  | nil => exact absurd rfl hw.ne_nil
  | cons c w =>
    have hc := hw.head c rfl
    exact List.dropWhile_cons_of_neg (by rw [hc]; decide)

/-- The first character is left. -/
theorem SplitWord.rdropWhile_ne_nil (hw : SplitWord sep w) : w.rdropWhile isspace ≠ [] := by
  intro hnil
  cases w with
  | nil => exact hw.ne_nil rfl
  | cons c w =>
    have hall := List.rdropWhile_eq_nil_iff.mp hnil c List.mem_cons_self
    rw [hw.head c rfl] at hall
    cases hall

/-- The word before a separator, and the rest after it. -/
theorem split_word_cons {rest : Text} (hw : SplitWord sep w) :
    smartlistSplitString sep (w ++ sep :: rest) = w.rdropWhile isspace :: smartlistSplitString sep rest := by
  have hsep : ∀ c ∈ (sep :: rest).head?, decide (c ≠ sep) = false := by simp
  rw [smartlistSplitString_eq, hw.dropWhile_append, takeWhile_run hw.ne_sep hsep, dropWhile_run hw.ne_sep hsep,
    if_pos hw.rdropWhile_ne_nil]
  rfl

theorem split_word (hw : SplitWord sep w) : smartlistSplitString sep w = [w.rdropWhile isspace] := by
  have hspace := hw.dropWhile_append []
  rw [List.append_nil] at hspace
  rw [smartlistSplitString_eq, hspace, List.takeWhile_eq_self_iff.mpr hw.ne_sep,
    List.dropWhile_eq_nil_iff.mpr hw.ne_sep, if_pos hw.rdropWhile_ne_nil]
  rfl

theorem split_join_words {ws : List Text} (hws : ∀ w ∈ ws, SplitWord sep w) :
    smartlistSplitString sep (smartlistJoinStrings sep ws) = ws.map (List.rdropWhile isspace) := by
  induction ws with
  | nil => exact split_nil
  | cons w ws ih =>
    obtain ⟨hw, hrest⟩ := List.forall_mem_cons.mp hws
    cases ws with
    | nil =>
      rw [smartlistJoinStrings_singleton]
      exact split_word hw
    | cons v ws =>
      rw [smartlistJoinStrings_cons, split_word_cons hw, ih hrest]
      rfl

theorem split_piece (hw : Piece sep w) : smartlistSplitString sep w = [w] := by
  rw [split_word hw.word, hw.rdropWhile_eq]

theorem split_join {ws : List Text} (hws : ∀ w ∈ ws, Piece sep w) :
    smartlistSplitString sep (smartlistJoinStrings sep ws) = ws := by
  have hsame : ws.map (List.rdropWhile isspace) = ws := by
    rw [List.map_congr_left fun w hw => (hws w hw).rdropWhile_eq, List.map_id']
  rw [split_join_words fun w hw => (hws w hw).word, hsame]

/-- What is left of a text between white space, up to the separator. -/
theorem piece_of_trim {str : Text} (hne : ((str.dropWhile isspace).takeWhile (· ≠ sep)).rdropWhile isspace ≠ []) :
    Piece sep (((str.dropWhile isspace).takeWhile (· ≠ sep)).rdropWhile isspace) := by
  have hpre := List.rdropWhile_prefix isspace ((str.dropWhile isspace).takeWhile (· ≠ sep))
  refine ⟨hne, fun hmem => ?_, fun c hc => ?_, fun c hc => ?_⟩
  · have hkeep := List.mem_takeWhile_imp (hpre.subset hmem)
    simp at hkeep
  · obtain ⟨t, ht⟩ := hpre.trans (List.takeWhile_prefix _)
    have hhead : (str.dropWhile isspace).head? = some c := by
      rw [← ht, List.head?_append, Option.mem_def.mp hc]
      rfl
    have hnot := List.head?_dropWhile_not isspace str
    rw [hhead] at hnot
    exact Bool.eq_false_iff.mpr (by simpa using hnot)
  · have hnot := List.rdropWhile_last_not isspace _ hne
    rw [List.getLast?_eq_some_getLast hne] at hc
    cases hc
    exact Bool.eq_false_iff.mpr hnot

theorem split_pieces (str : Text) : ∀ w ∈ smartlistSplitString sep str, Piece sep w := by
  induction hn : str.length using Nat.strong_induction_on generalizing str with
  | _ n ih =>
    rw [smartlistSplitString_eq]
    intro w hw
    rcases List.mem_append.mp hw with hw | hw
    · split at hw
      next hne =>
        rw [List.mem_singleton.mp hw]
        exact piece_of_trim hne
      · cases hw
    · split at hw
      · cases hw
      next c next hrest =>
        have hcp := (List.dropWhile_suffix (l := str) isspace).length_le
        have hnext := (List.dropWhile_suffix (l := str.dropWhile isspace) (· ≠ sep)).length_le
        rw [hrest, List.length_cons] at hnext
        exact ih next.length (by omega) next rfl w hw

end

end Badnet.Container

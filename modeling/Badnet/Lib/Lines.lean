/-
  Badnet.Lib.Lines — cutting and searching a text made of lines.

  A text is a list over any alphabet, a line ends with the separator (`unlines`). `search`
  is the first occurrence of a needle; a needle that starts with the separator can only
  stand where a line ends, so it is enough to know which lines start with the rest of
  it (`search_unlines`).
-/

import Mathlib.Data.List.Infix

namespace Badnet.Lib

variable {α : Type*}

/-! ## Runs -/

variable {xs needle : List α} {sep : α}

theorem takeWhile_run {p : α → Bool} {ys : List α} (hx : ∀ x ∈ xs, p x = true) (hy : ∀ y ∈ ys.head?, p y = false) :
    (xs ++ ys).takeWhile p = xs := by
  rw [List.takeWhile_append_of_pos hx]
  cases ys with
  | nil => simp
  | cons y ys => simp [hy y rfl]

theorem dropWhile_run {p : α → Bool} {ys : List α} (hx : ∀ x ∈ xs, p x = true) (hy : ∀ y ∈ ys.head?, p y = false) :
    (xs ++ ys).dropWhile p = ys := by
  rw [List.dropWhile_append_of_pos hx]
  cases ys with
  | nil => rfl
  | cons y ys => simp [hy y rfl]

/-! ## Search -/

variable [DecidableEq α]

/-- The first position at which `needle` stands in the text. -/
def search (needle : List α) : List α → Option Nat
  | [] => if needle = [] then some 0 else none
  | x :: xs => if needle <+: x :: xs then some 0 else (search needle xs).map (· + 1)

theorem search_at_start (h : needle <+: xs) : search needle xs = some 0 := by
  cases xs with
  | nil =>
    rw [List.prefix_nil] at h
    simp [search, h]
  | cons x xs => rw [search, if_pos h]

/-- A stretch without the needle's first letter is passed over. -/
theorem search_append {c : α} (ys : List α) (h : c ∉ xs) :
    search (c :: needle) (xs ++ ys) = (search (c :: needle) ys).map (· + xs.length) := by
  induction xs with
  | nil => simp
  | cons x xs ih =>
    have hx : ¬ c :: needle <+: x :: (xs ++ ys) := fun hp => h (by simp [(List.cons_prefix_cons.mp hp).1])
    rw [List.cons_append, search, if_neg hx, ih fun hm => h (List.mem_cons_of_mem _ hm), Option.map_map]
    congr 1

/-! ## Lines -/

/-- Every line followed by the separator. -/
def unlines (sep : α) (ls : List (List α)) : List α := ls.flatMap (· ++ [sep])

omit [DecidableEq α] in
@[simp] theorem unlines_nil (sep : α) : unlines sep [] = [] := rfl

omit [DecidableEq α] in
theorem unlines_cons (sep : α) (l : List α) (ls : List (List α)) : unlines sep (l :: ls) = l ++ sep :: unlines sep ls := by
  simp [unlines]

omit [DecidableEq α] in
theorem unlines_append (sep : α) (ls ms : List (List α)) : unlines sep (ls ++ ms) = unlines sep ls ++ unlines sep ms :=
  List.flatMap_append

/-- The first line of a text that has a separator. -/
theorem first_line {s : List α} (h : (s.takeWhile (· ≠ sep)).length < s.length) : sep ∉ s.takeWhile (· ≠ sep) ∧
      s = s.takeWhile (· ≠ sep) ++ sep :: s.drop ((s.takeWhile (· ≠ sep)).length + 1) := by
  induction s with
  | nil => cases h
  | cons x s ih =>
    by_cases hx : x = sep
    · subst hx
      simp
    · rw [List.takeWhile_cons_of_pos (by simpa using hx)] at *
      obtain ⟨hn, hs⟩ := ih (by simpa using h)
      refine ⟨fun hm => ?_, ?_⟩
      · rcases List.mem_cons.mp hm with he | hm
        · exact hx he.symm
        · exact hn hm
      · rw [List.length_cons, List.drop_succ_cons, List.cons_append, ← hs]

/-- Every text is some lines and a last one that no separator ends. -/
theorem exists_lines (sep : α) (s : List α) :
    ∃ ls last, s = unlines sep ls ++ last ∧ (∀ l ∈ ls, sep ∉ l) ∧ sep ∉ last := by
  induction s with
  | nil => exact ⟨[], [], rfl, fun l hl => absurd hl List.not_mem_nil, List.not_mem_nil⟩
  | cons x s ih =>
    obtain ⟨ls, last, rfl, hls, hlast⟩ := ih
    by_cases hx : x = sep
    · subst hx
      refine ⟨[] :: ls, last, by rw [unlines_cons]; rfl, fun l hl => ?_, hlast⟩
      rcases List.mem_cons.mp hl with rfl | hl
      · exact List.not_mem_nil
      · exact hls l hl
    · have hcons : ∀ l, sep ∉ l → sep ∉ x :: l := fun l hl hm =>
        (List.mem_cons.mp hm).elim (fun he => hx he.symm) hl
      rcases ls with _ | ⟨l, ls⟩
      · exact ⟨[], x :: last, rfl, hls, hcons last hlast⟩
      · refine ⟨(x :: l) :: ls, last, by simp only [unlines_cons, List.cons_append], fun m hm => ?_, hlast⟩
        rcases List.mem_cons.mp hm with rfl | hm
        · exact hcons l (hls l List.mem_cons_self)
        · exact hls m (List.mem_cons_of_mem l hm)

omit [DecidableEq α] in
/-- A needle without separators that starts a line lies within it. -/
theorem prefix_line {l : List α} {rest : List α} (hn : sep ∉ needle) (h : needle <+: l ++ sep :: rest) :
    needle <+: l := by
  rcases List.prefix_or_prefix_of_prefix h (List.prefix_append l _) with hp | hp
  · exact hp
  · obtain ⟨t, rfl⟩ := hp
    rw [List.prefix_append_right_inj] at h
    cases t with
    | nil => simp
    | cons x t =>
      obtain ⟨rfl, -⟩ := List.cons_prefix_cons.mp h
      exact absurd (by simp) hn

/-- Where no line but the first starts with `needle`, a line start with `needle` is
    found at the end of the lines or after them. -/
theorem search_unlines (hn : sep ∉ needle) (rest : List α) (ls : List (List α)) :
    ∀ l : List α, (∀ x ∈ l :: ls, sep ∉ x) → (∀ x ∈ ls, ¬ needle <+: x) →
    search (sep :: needle) (unlines sep (l :: ls) ++ rest) =
      if needle <+: rest then some ((unlines sep (l :: ls)).length - 1)
      else (search (sep :: needle) rest).map (· + (unlines sep (l :: ls)).length) := by
  induction ls with
  | nil =>
    intro l hl _
    rw [unlines_cons, unlines_nil, List.append_assoc, search_append _ (hl l List.mem_cons_self), List.singleton_append, search]
    by_cases hr : needle <+: rest
    · rw [if_pos (List.cons_prefix_cons.mpr ⟨rfl, hr⟩), if_pos hr]
      simp
    · rw [if_neg fun hp => hr (List.cons_prefix_cons.mp hp).2, if_neg hr, Option.map_map]
      congr 1
      funext i
      simp
      omega
  | cons m ls ih =>
    intro l hl hneedle
    have hm : ¬ needle <+: unlines sep (m :: ls) ++ rest := by
      rw [unlines_cons, List.append_assoc]
      exact fun hp => hneedle m List.mem_cons_self (prefix_line hn hp)
    have ih := ih m (fun x hx => hl x (List.mem_cons_of_mem _ hx)) fun x hx => hneedle x (List.mem_cons_of_mem _ hx)
    rw [unlines_cons, List.append_assoc, search_append _ (hl l List.mem_cons_self), List.cons_append, search,
      if_neg fun hp => hm (List.cons_prefix_cons.mp hp).2, ih]
    by_cases hr : needle <+: rest
    · rw [if_pos hr, if_pos hr, unlines_cons sep m]
      simp
      omega
    · rw [if_neg hr, if_neg hr, Option.map_map, Option.map_map]
      congr 1
      funext i
      simp
      omega

/-! ## Cut at the separators

`splitOn` cuts at every separator: the last line may have none behind it. -/

theorem splitOn_sep (sep : α) (s : List α) : (sep :: s).splitOn sep = [] :: s.splitOn sep := by
  rw [List.splitOn_cons_eq_if_modifyHead, if_pos (by simp)]

/-- A letter in front is part of the first line. -/
theorem tail_splitOn_cons {x : α} (h : x ≠ sep) (s : List α) :
    ((x :: s).splitOn sep).tail = (s.splitOn sep).tail := by
  rw [List.splitOn_cons_eq_if_modifyHead, if_neg (by simpa using h)]
  cases s.splitOn sep with
  | nil => rfl
  | cons l ls => rfl

theorem splitOn_eq_cons (sep : α) (s : List α) :
    s.splitOn sep = s.takeWhile (· ≠ sep) :: (s.splitOn sep).tail := by
  induction s with
  | nil => rfl
  | cons x s ih =>
    by_cases hx : x = sep
    · subst hx
      rw [splitOn_sep, List.takeWhile_cons_of_neg (by simp)]
      rfl
    · rw [tail_splitOn_cons hx, List.takeWhile_cons_of_pos (by simpa using hx), List.splitOn_cons_eq_if_modifyHead,
        if_neg (by simpa using hx), ih]
      rfl

/-- A needle without separators starts the first line if it starts the text. -/
theorem prefix_takeWhile (hn : sep ∉ needle) {s : List α} : needle <+: s.takeWhile (· ≠ sep) ↔ needle <+: s := by
  refine ⟨fun h => h.trans (List.takeWhile_prefix _), ?_⟩
  rintro ⟨t, rfl⟩
  have hrun : ∀ x ∈ needle, decide (x ≠ sep) = true := by
    intro x hx
    refine decide_eq_true fun e => hn ?_
    rw [← e]
    exact hx
  rw [List.takeWhile_append_of_pos hrun]
  exact List.prefix_append _ _

end Badnet.Lib

/-
  Badnet.Lib.Tiling — lists of intervals that follow each other without gaps.

  `first` and `last` give the ends of an interval; `Tiles a l b` says that the intervals of `l` cover the numbers from
  `a` up to but not including `b`, in order. Each number lies in one of them (`Tiles.at`).
-/

import Mathlib.Data.List.Basic

namespace Badnet.Lib

variable {α : Type} {first last : α → Nat}

def Tiles (first last : α → Nat) : Nat → List α → Nat → Prop
  | a, [], b => a = b
  | a, x :: l, b => first x = a ∧ a ≤ last x ∧ Tiles first last (last x + 1) l b

variable {a b : Nat} {l : List α}

theorem tiles_append {xs ys : List α} :
    Tiles first last a (xs ++ ys) b ↔ ∃ c, Tiles first last a xs c ∧ Tiles first last c ys b := by
  induction xs generalizing a with
  | nil => simp [Tiles]
  | cons x xs ih =>
    simp only [List.cons_append, Tiles, ih]
    constructor
    · intro ⟨hf, hl, c, hx, hy⟩
      exact ⟨c, ⟨hf, hl, hx⟩, hy⟩
    · intro ⟨c, ⟨hf, hl, hx⟩, hy⟩
      exact ⟨hf, hl, c, hx, hy⟩

theorem Tiles.le (h : Tiles first last a l b) : a ≤ b := by
  induction l generalizing a with
  | nil => exact Nat.le_of_eq h
  | cons x l ih =>
    obtain ⟨-, hl, h⟩ := h
    have := ih h
    omega

theorem Tiles.mem (h : Tiles first last a l b) {x : α} (hx : x ∈ l) :
    a ≤ first x ∧ first x ≤ last x ∧ last x < b := by
  obtain ⟨pre, post, rfl⟩ := List.append_of_mem hx
  obtain ⟨c, hpre, hf, hl, hpost⟩ := tiles_append.mp h
  have hac := hpre.le
  have hlb := hpost.le
  omega

/-- The interval a number lies in. -/
theorem Tiles.at {p : Nat} (h : Tiles first last a l b) (ha : a ≤ p) (hb : p < b) :
    ∃ pre x post, l = pre ++ x :: post ∧ first x ≤ p ∧ p ≤ last x ∧ Tiles first last a pre (first x) ∧
      Tiles first last (last x + 1) post b := by
  induction l generalizing a with
  | nil => exact absurd h (by simp only [Tiles]; omega)
  | cons x l ih =>
    obtain ⟨hf, hl, h⟩ := h
    by_cases hp : p ≤ last x
    · exact ⟨[], x, l, rfl, by omega, hp, hf.symm, h⟩
    · obtain ⟨pre, y, post, rfl, hy, hy', hpre, hpost⟩ := ih h (by omega)
      exact ⟨x :: pre, y, post, rfl, hy, hy', ⟨hf, hl, hpre⟩, hpost⟩

/-- A change that leaves the ends alone. -/
theorem tiles_map {f : α → α} (hf : ∀ x, first (f x) = first x) (hl : ∀ x, last (f x) = last x) :
    Tiles first last a (l.map f) b ↔ Tiles first last a l b := by
  induction l generalizing a with
  | nil => rfl
  | cons x l ih => simp only [List.map_cons, Tiles, hf, hl, ih]

end Badnet.Lib

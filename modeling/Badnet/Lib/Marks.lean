/-
  Badnet.Lib.Marks — two lists that agree where neither is marked.

  A list of marks says which items of a list are left out; two marked lists are `Aligned` when they keep the same items.
  Aligned lists can be put one after another (`Aligned.append`), and taken apart from their ends (`Aligned.drop_left`,
  `Aligned.last`).
-/

import Mathlib.Data.List.Basic

namespace Badnet.Lib

variable {α : Type*}

def kept : List Bool → List α → List α
  | m :: ms, x :: xs => if m then kept ms xs else x :: kept ms xs
  | _, _ => []

variable (xs : List α)

@[simp] theorem kept_nil_left : kept [] xs = [] := by cases xs <;> rfl
@[simp] theorem kept_nil_right (ms : List Bool) : kept ms ([] : List α) = [] := by cases ms <;> rfl
@[simp] theorem kept_cons (m : Bool) (ms : List Bool) (x : α) (xs : List α) :
    kept (m :: ms) (x :: xs) = if m then kept ms xs else x :: kept ms xs := rfl

theorem kept_append {ms ns : List Bool} {xs ys : List α} (h : ms.length = xs.length) :
    kept (ms ++ ns) (xs ++ ys) = kept ms xs ++ kept ns ys := by
  induction ms generalizing xs with
  | nil =>
    obtain rfl := List.length_eq_zero_iff.mp h.symm
    rfl
  | cons m ms ih =>
    rcases xs with _ | ⟨x, xs⟩
    · cases h
    · have := @ih xs (by simpa using h)
      cases m <;> simp [this]

theorem kept_all : kept (List.replicate xs.length true) xs = [] := by
  induction xs with
  | nil => rfl
  | cons x xs ih => simp [List.replicate_succ, ih]

theorem kept_none : kept (List.replicate xs.length false) xs = xs := by
  induction xs with
  | nil => rfl
  | cons x xs ih => simp [List.replicate_succ, ih]

theorem kept_sublist (ms : List Bool) (xs : List α) : (kept ms xs).Sublist xs := by
  induction xs generalizing ms with
  | nil => rw [kept_nil_right]
  | cons x xs ih =>
    rcases ms with _ | ⟨m, ms⟩
    · exact List.nil_sublist _
    · cases m
      · exact (ih ms).cons_cons x
      · exact (ih ms).cons x

/-- Marks on all positions but one keep the item there. -/
theorem kept_all_but_one (x : α) (ys : List α) :
    kept ((List.range (xs ++ x :: ys).length).map fun i => some i != some xs.length) (xs ++ x :: ys) = [x] := by
  have hmarks : ((List.range (xs ++ x :: ys).length).map fun i => some i != some xs.length) =
      List.replicate xs.length true ++ false :: List.replicate ys.length true := by
    refine List.ext_getElem (by simp) fun i h1 h2 => ?_
    simp only [List.getElem_map, List.getElem_range, List.getElem_append, List.length_replicate,
      List.getElem_replicate, List.getElem_cons]
    split
    · simp; omega
    · split
      · simp; omega
      · simp; omega
  rw [hmarks, kept_append (by simp), kept_all, kept_cons, kept_all]
  rfl

/-- The marks fit the lists, and the same items are left unmarked in both. -/
structure Aligned (ms : List Bool) (xs : List α) (ns : List Bool) (ys : List α) : Prop where
  left : ms.length = xs.length
  right : ns.length = ys.length
  same : kept ms xs = kept ns ys

namespace Aligned

variable {ms ns ms' ns' : List Bool} {xs ys xs' ys' : List α}

theorem symm (h : Aligned ms xs ns ys) : Aligned ns ys ms xs := ⟨h.right, h.left, h.same.symm⟩

theorem append (h : Aligned ms xs ns ys) (h' : Aligned ms' xs' ns' ys') :
    Aligned (ms ++ ms') (xs ++ xs') (ns ++ ns') (ys ++ ys') := by
  refine ⟨by simp [h.left, h'.left], by simp [h.right, h'.right], ?_⟩
  rw [kept_append h.left, kept_append h.right, h.same, h'.same]

/-- A list is aligned with itself without marks. -/
theorem unmarked (xs : List α) : Aligned (List.replicate xs.length false) xs (List.replicate xs.length false) xs :=
  ⟨by simp, by simp, rfl⟩

theorem nil : Aligned [] ([] : List α) [] [] := ⟨rfl, rfl, rfl⟩

/-- A marked last item of the first list does not count. -/
theorem drop_left {x : α} (h : Aligned (ms ++ [true]) (xs ++ [x]) ns ys) : Aligned ms xs ns ys := by
  have hlen : ms.length = xs.length := by simpa using h.left
  refine ⟨hlen, h.right, ?_⟩
  have := h.same
  rw [kept_append hlen] at this
  simpa using this

/-- Unmarked last items are equal. -/
theorem last {x y : α} (h : Aligned (ms ++ [false]) (xs ++ [x]) (ns ++ [false]) (ys ++ [y])) :
    x = y ∧ Aligned ms xs ns ys := by
  have hl : ms.length = xs.length := by simpa using h.left
  have hr : ns.length = ys.length := by simpa using h.right
  have hs := h.same
  rw [kept_append hl, kept_append hr] at hs
  obtain ⟨hk, hxy⟩ := List.append_inj' hs rfl
  exact ⟨by simpa using hxy, hl, hr, hk⟩

/-- An unmarked last item needs an item on the other side. -/
theorem not_nil_left {y : α} (h : Aligned [] ([] : List α) (ns ++ [false]) (ys ++ [y])) : False := by
  have hr : ns.length = ys.length := by simpa using h.right
  have hs := h.same
  rw [kept_append hr] at hs
  simp at hs

end Aligned

end Badnet.Lib

/-
  Badnet.Lib.Heap — heaps in an array: every item stands below its parent, which is in place `(i - 1) / 2`.

  While an item moves, everything is in order but the item at `k` and its parent (`UpReady`), or but the item at `k` and
  its children (`DownReady`). Moving the item up, or down to the least child, keeps that (`UpReady.move`,
  `DownReady.move`); where it stops there is a heap, whose top is a least item (`Heap.top_le`).
-/

import Mathlib.Order.Defs.Unbundled

namespace Badnet.Lib

variable {α : Type} {le : α → α → Prop} {f : Nat → Option α} {k : Nat}

def parent (i : Nat) : Nat := (i - 1) / 2

theorem parent_lt {i : Nat} (hi : 0 < i) : parent i < i := by
  unfold parent
  omega

/-- What is at `i`, if anything, is in order with its parent. -/
def Below (le : α → α → Prop) (f : Nat → Option α) (i : Nat) : Prop :=
  ∀ p x, f (parent i) = some p → f i = some x → le p x

def Heap (le : α → α → Prop) (f : Nat → Option α) : Prop := ∀ i, 0 < i → Below le f i

/-- The children of `k` are in order with its parent. -/
def Bridged (le : α → α → Prop) (f : Nat → Option α) (k : Nat) : Prop :=
  0 < k → ∀ i, 0 < i → parent i = k → ∀ g x, f (parent k) = some g → f i = some x → le g x

/-- Two places are exchanged. -/
def exchanged (f : Nat → Option α) (i j : Nat) (l : Nat) : Option α :=
  if l = i then f j else if l = j then f i else f l

theorem exchanged_left (i j : Nat) : exchanged f i j i = f j := if_pos rfl

theorem exchanged_right (i j : Nat) : exchanged f i j j = f i := by
  unfold exchanged
  by_cases h : j = i
  · rw [if_pos h, h]
  · rw [if_neg h, if_pos rfl]

theorem exchanged_other {i j l : Nat} (hi : l ≠ i) (hj : l ≠ j) : exchanged f i j l = f l := by
  unfold exchanged
  rw [if_neg hi, if_neg hj]

/-! ## Up -/

structure UpReady (le : α → α → Prop) (f : Nat → Option α) (k : Nat) : Prop where
  below : ∀ i, 0 < i → i ≠ k → Below le f i
  bridged : Bridged le f k

theorem UpReady.finish (h : UpReady le f k) (hk : 0 < k → Below le f k) : Heap le f := by
  intro i hi
  by_cases hik : i = k
  · exact hik ▸ hk (hik ▸ hi)
  · exact h.below i hi hik

theorem UpReady.move [IsTrans α le] (h : UpReady le f k) (hk : 0 < k) {x p : α} (hx : f k = some x)
    (hp : f (parent k) = some p) (hle : le x p) : UpReady le (exchanged f (parent k) k) (parent k) := by
  have hlt := parent_lt hk
  constructor
  · intro i hi hik a b ha hb
    by_cases heq : i = k
    · rw [heq, exchanged_left, hx] at ha
      rw [heq, exchanged_right, hp] at hb
      cases ha
      cases hb
      exact hle
    rw [exchanged_other hik heq] at hb
    by_cases hchild : parent i = k
    · rw [hchild, exchanged_right, hp] at ha
      cases ha
      exact h.bridged hk i hi hchild p b hp hb
    by_cases hsibling : parent i = parent k
    · rw [hsibling, exchanged_left, hx] at ha
      cases ha
      exact IsTrans.trans _ _ _ hle (h.below i hi heq p b (hsibling ▸ hp) hb)
    · rw [exchanged_other hsibling hchild] at ha
      exact h.below i hi heq a b ha hb
  · intro hpos i hi hik g b hg hb
    have hup := parent_lt hpos
    have hgp : le g p := by
      rw [exchanged_other (by omega) (by omega)] at hg
      exact h.below (parent k) hpos (by omega) g p hg hp
    by_cases heq : i = k
    · rw [heq, exchanged_right, hp] at hb
      cases hb
      exact hgp
    · have hne : i ≠ parent k := fun e => absurd (parent_lt hi) (by omega)
      rw [exchanged_other hne heq] at hb
      exact IsTrans.trans _ _ _ hgp (h.below i hi heq p b (hik ▸ hp) hb)

/-! ## Down -/

structure DownReady (le : α → α → Prop) (f : Nat → Option α) (k : Nat) : Prop where
  below : ∀ i, 0 < i → parent i ≠ k → Below le f i
  bridged : Bridged le f k

theorem DownReady.finish (h : DownReady le f k) (hk : ∀ i, 0 < i → parent i = k → Below le f i) : Heap le f := by
  intro i hi
  by_cases hik : parent i = k
  · exact hk i hi hik
  · exact h.below i hi hik

/-- The item goes down in exchange for a child that is no greater than it and than any other child. -/
theorem DownReady.move (h : DownReady le f k) {c : Nat} (hc : 0 < c) (hck : parent c = k) {x y : α} (hx : f k = some x)
    (hy : f c = some y) (hle : le y x) (hleast : ∀ i z, 0 < i → parent i = k → f i = some z → le y z) :
    DownReady le (exchanged f k c) c := by
  have hlt := parent_lt hc
  constructor
  · intro i hi hic a b ha hb
    by_cases heq : i = c
    · rw [heq, hck, exchanged_left, hy] at ha
      rw [heq, exchanged_right, hx] at hb
      cases ha
      cases hb
      exact hle
    by_cases hgap : i = k
    · have hup := parent_lt hi
      rw [exchanged_other (by omega) (by omega), hgap] at ha
      rw [hgap, exchanged_left, hy] at hb
      cases hb
      exact h.bridged (hgap ▸ hi) c hc hck a y ha hy
    rw [exchanged_other hgap heq] at hb
    by_cases hsibling : parent i = k
    · rw [hsibling, exchanged_left, hy] at ha
      cases ha
      exact hleast i b hi hsibling hb
    · rw [exchanged_other hsibling hic] at ha
      exact h.below i hi hsibling a b ha hb
  · intro _ i hi hic g b hg hb
    have hup := parent_lt hi
    rw [hck, exchanged_left, hy] at hg
    rw [exchanged_other (by omega) (by omega)] at hb
    cases hg
    exact h.below i hi (by omega) y b (hic ▸ hy) hb

/-! ## The top -/

/-- In an array without holes the top of a heap is a least item. -/
theorem Heap.top_le [Std.Refl le] [IsTrans α le] (h : Heap le f)
    (hfull : ∀ i, f i ≠ none → f (parent i) ≠ none) {top : α} (htop : f 0 = some top) :
    ∀ i x, f i = some x → le top x := by
  intro i
  induction i using Nat.strongRecOn with
  | ind i ih =>
    intro x hx
    rcases Nat.eq_zero_or_pos i with rfl | hi
    · rw [htop] at hx
      cases hx
      exact Std.Refl.refl top
    · obtain ⟨p, hp⟩ := Option.ne_none_iff_exists'.mp (hfull i (by rw [hx]; exact Option.some_ne_none x))
      exact IsTrans.trans _ _ _ (ih (parent i) (parent_lt hi) p hp) (h i hi p x hp hx)

end Badnet.Lib

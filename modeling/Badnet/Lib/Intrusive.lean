/-
  Badnet.Lib.Intrusive — collections whose members store their own place in them.

  Removing a member by moving the last one into its place takes out exactly that member (`swapRemove_perm`), and the
  stored positions are right after it when the moved member alone is given its new one (`Positioned.swapRemove`); a
  search by key finds the one member with that key when keys are distinct (`find?_key_iff`); a count and a sum change by
  what their one changed member says (`countP_change`, `sum_change`).
-/

import Mathlib.Algebra.Ring.Nat
import Mathlib.Data.List.Nodup
import Mathlib.Data.List.Perm.Basic

namespace Badnet.Lib

variable {α κ : Type}

/-! ## Removal by moving the last member -/

def swapRemove (l : List α) (i : Nat) : List α :=
  match l[l.length - 1]? with
  | none => l
  | some last => (l.set i last).dropLast

variable {l : List α} {i : Nat} {a : α} {pos : α → Int}

theorem getElem?_swapRemove (hi : i < l.length) (j : Nat) :
    (swapRemove l i)[j]? = if j < l.length - 1 then (if j = i then l[l.length - 1]? else l[j]?) else none := by
  have hlast : l[l.length - 1]? = some l[l.length - 1] := List.getElem?_eq_getElem (by omega)
  rw [swapRemove, hlast]
  simp only
  rw [List.getElem?_dropLast, List.length_set]
  by_cases hj : j < l.length - 1
  · rw [if_pos hj, if_pos hj, List.getElem?_set]
    by_cases hij : i = j
    · rw [if_pos hij, if_pos (by omega), if_pos hij.symm]
    · rw [if_neg hij, if_neg (Ne.symm hij)]
  · rw [if_neg hj, if_neg hj]

/-- Exactly one occurrence of the member at `i` goes. -/
theorem swapRemove_perm (ha : l[i]? = some a) : (a :: swapRemove l i).Perm l := by
  obtain ⟨hi, rfl⟩ := List.getElem?_eq_some_iff.mp ha
  rcases List.eq_nil_or_concat' l with rfl | ⟨init, last, rfl⟩
  · cases hi
  have hlen : (init ++ [last]).length - 1 = init.length := by simp
  have hlast : (init ++ [last])[(init ++ [last]).length - 1]? = some last := by rw [hlen]; simp
  rw [swapRemove, hlast]
  simp only
  by_cases h : i < init.length
  · rw [List.set_append_left _ _ h, List.dropLast_concat, List.getElem_append_left h]
    have hset := List.set_perm_cons_eraseIdx h last
    have herase := List.getElem_cons_eraseIdx_perm h
    exact ((hset.cons _).trans (List.Perm.swap _ _ _)).trans ((herase.cons _).trans (List.perm_append_singleton _ _).symm)
  · have hi' : i = init.length := by simp at hi; omega
    subst hi'
    rw [List.set_append_right _ _ (Nat.le_refl _)]
    simpa using (List.perm_append_singleton last init).symm

/-! ## Members that store their position -/

def Positioned (pos : α → Int) (l : List α) : Prop := ∀ (i : Nat) (a : α), l[i]? = some a → pos a = i

theorem Positioned.nodup (h : Positioned pos l) : l.Nodup := by
  rw [List.nodup_iff_getElem?_ne_getElem?]
  intro i j hij hj he
  have hj' := List.getElem?_eq_getElem hj
  have := h i _ (he.trans hj')
  have := h j _ hj'
  omega

theorem Positioned.congr {pos' : α → Int} (h : Positioned pos l) (he : ∀ a ∈ l, pos' a = pos a) :
    Positioned pos' l := by
  intro i a ha
  rw [he a (List.mem_of_getElem? ha)]
  exact h i a ha

theorem Positioned.append (h : Positioned pos l) (ha : pos a = l.length) : Positioned pos (l ++ [a]) := by
  intro i b hb
  rcases Nat.lt_trichotomy i l.length with hi | rfl | hi
  · rw [List.getElem?_append_left hi] at hb
    exact h i b hb
  · simp only [List.getElem?_concat_length, Option.some.injEq] at hb
    rw [← hb]
    exact ha
  · rw [List.getElem?_eq_none (by rw [List.length_append, List.length_singleton]; omega)] at hb
    cases hb

/-- The moved member is given its new position, and the other ones keep theirs. -/
theorem Positioned.swapRemove {pos' : α → Int} (h : Positioned pos l)
    (ha : l[i]? = some a) (hmoved : ∀ b, (swapRemove l i)[i]? = some b → pos' b = i)
    (hother : ∀ b, b ≠ a → (Badnet.Lib.swapRemove l i)[i]? ≠ some b → pos' b = pos b) :
    Positioned pos' (Badnet.Lib.swapRemove l i) := by
  intro j b hb
  by_cases hji : j = i
  · rw [hji] at hb ⊢
    exact hmoved b hb
  have hi : i < l.length := (List.getElem?_eq_some_iff.mp ha).1
  have hget := getElem?_swapRemove hi j
  rw [hb, if_neg hji] at hget
  split at hget
  · next hj =>
    have hposb := h j b hget.symm
    rw [hother b, hposb]
    · intro he
      have hposa := h i a ha
      rw [he] at hposb
      omega
    · intro hm
      have hlast := getElem?_swapRemove hi i
      rw [hm, if_pos rfl] at hlast
      split at hlast
      · have hposl := h _ b hlast.symm
        omega
      · cases hlast
  · cases hget

/-! ## Search by a stored key -/

/-- With distinct keys, a search finds the member with the key. -/
theorem find?_key_iff [DecidableEq κ] {key : α → κ} (hinj : ∀ a ∈ l, ∀ b ∈ l, key a = key b → a = b) {k : κ} :
    l.find? (fun b => key b = k) = some a ↔ a ∈ l ∧ key a = k := by
  refine ⟨fun h => ?_, fun h => ?_⟩
  · have hk := List.find?_some h
    rw [decide_eq_true_eq] at hk
    exact ⟨List.mem_of_find?_eq_some h, hk⟩
  · obtain ⟨ha, hk⟩ := h
    rcases hf : l.find? (fun b => key b = k) with _ | b
    · have hnone := List.find?_eq_none.mp hf a ha
      exact absurd (decide_eq_true hk) hnone
    · have hb := List.find?_some hf
      rw [decide_eq_true_eq] at hb
      rw [hinj b (List.mem_of_find?_eq_some hf) a ha (hb.trans hk.symm)]

/-! ## Counts -/

/-- One member changes: the count gains what it has now and loses what it had. -/
theorem countP_change (hnd : l.Nodup) (ha : a ∈ l) {p q : α → Bool} (hsame : ∀ b, b ≠ a → q b = p b) :
    l.countP q + (if p a then 1 else 0) = l.countP p + (if q a then 1 else 0) := by
  classical
  have hperm := List.perm_cons_erase ha
  have hrest : (l.erase a).countP q = (l.erase a).countP p := by
    refine List.countP_congr fun b hb => ?_
    have hne : b ≠ a := fun he => hnd.not_mem_erase (he ▸ hb)
    rw [hsame b hne]
  rw [hperm.countP_eq q, hperm.countP_eq p, List.countP_cons, List.countP_cons, hrest]
  omega

/-- The same for a sum over the members. -/
theorem sum_change (hnd : l.Nodup) (ha : a ∈ l) {f g : α → Nat} (hsame : ∀ b, b ≠ a → g b = f b) :
    (l.map g).sum + f a = (l.map f).sum + g a := by
  classical
  have hperm := List.perm_cons_erase ha
  have hrest : (l.erase a).map g = (l.erase a).map f := by
    refine List.map_congr_left fun b hb => ?_
    exact hsame b fun he => hnd.not_mem_erase (he ▸ hb)
  rw [(hperm.map g).sum_nat, (hperm.map f).sum_nat, List.map_cons, List.map_cons, List.sum_cons, List.sum_cons, hrest]
  omega

end Badnet.Lib

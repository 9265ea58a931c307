/-
  Badnet.Lib.Runs — the runs of consecutive numbers of a list, as pairs of their first and
  last number.

  Writing the runs out gives the list back (`flatMap_runs`), so the runs determine it. A
  stretch of consecutive numbers with a gap behind it is the first run (`runs_range'`); the
  runs of an ascending list are apart by more than one (`runs_apart`).
-/

import Mathlib.Data.List.Basic

namespace Badnet.Lib

def runs : List Nat → List (Nat × Nat)
  | [] => []
  | v :: vs =>
    match runs vs with
    | [] => [(v, v)]
    | r :: rs => if v + 1 = r.1 then (v, r.2) :: rs else (v, v) :: r :: rs

/-- A run goes on from its first number. -/
theorem runs_cons (v : Nat) (vs : List Nat) : ∃ hi rs, runs (v :: vs) = (v, hi) :: rs := by
  rw [runs]
  cases runs vs with
  | nil => exact ⟨_, _, rfl⟩
  | cons r rs =>
    by_cases h : v + 1 = r.1
    · exact ⟨r.2, rs, if_pos h⟩
    · exact ⟨v, r :: rs, if_neg h⟩

theorem runs_le {vs : List Nat} : ∀ r ∈ runs vs, r.1 ≤ r.2 := by
  induction vs with
  | nil => simp [runs]
  | cons v vs ih =>
    rw [runs]
    cases hr : runs vs with
    | nil => simp
    | cons r rs =>
      rw [hr] at ih
      obtain ⟨hr, hrs⟩ := List.forall_mem_cons.mp ih
      by_cases h : v + 1 = r.1
      · simp only [if_pos h, List.forall_mem_cons]
        exact ⟨by omega, hrs⟩
      · simp only [if_neg h, List.forall_mem_cons]
        exact ⟨Nat.le_refl _, hr, hrs⟩

theorem mem_runs {vs : List Nat} : ∀ r ∈ runs vs, r.1 ∈ vs ∧ r.2 ∈ vs := by
  induction vs with
  | nil => simp [runs]
  | cons v vs ih =>
    rw [runs]
    cases hr : runs vs with
    | nil => simp
    | cons r rs =>
      rw [hr] at ih
      obtain ⟨⟨h1, h2⟩, hrs⟩ := List.forall_mem_cons.mp ih
      have hrest : ∀ x ∈ rs, x.1 ∈ v :: vs ∧ x.2 ∈ v :: vs :=
        fun x hx => ⟨List.mem_cons_of_mem _ (hrs x hx).1, List.mem_cons_of_mem _ (hrs x hx).2⟩
      by_cases h : v + 1 = r.1
      · simp only [if_pos h, List.forall_mem_cons]
        exact ⟨⟨List.mem_cons_self, List.mem_cons_of_mem _ h2⟩, hrest⟩
      · simp only [if_neg h, List.forall_mem_cons]
        exact ⟨⟨List.mem_cons_self, List.mem_cons_self⟩, ⟨List.mem_cons_of_mem _ h1, List.mem_cons_of_mem _ h2⟩, hrest⟩

theorem flatMap_runs (vs : List Nat) : ((runs vs).flatMap fun r => List.range' r.1 (r.2 + 1 - r.1)) = vs := by
  induction vs with
  | nil => rfl
  | cons v vs ih =>
    have hle : ∀ r ∈ runs vs, r.1 ≤ r.2 := runs_le
    rw [runs]
    cases hr : runs vs with
    | nil =>
      rw [hr] at ih
      simp [← ih]
    | cons r rs =>
      rw [hr] at ih hle
      have hr := hle r List.mem_cons_self
      by_cases h : v + 1 = r.1
      · simp only [if_pos h, List.flatMap_cons] at ih ⊢
        rw [show r.2 + 1 - v = (r.2 + 1 - r.1) + 1 by omega, List.range'_succ, h, List.cons_append, ih]
      · simp only [if_neg h]
        rw [List.flatMap_cons, ih]
        simp

theorem runs_injective {vs ws : List Nat} (h : runs vs = runs ws) : vs = ws := by
  rw [← flatMap_runs vs, h, flatMap_runs]

theorem runs_range' {a n : Nat} {rest : List Nat} (h : ∀ x ∈ rest, a + n + 1 < x) :
    runs (List.range' a (n + 1) ++ rest) = (a, a + n) :: runs rest := by
  induction n generalizing a with
  | zero =>
    rw [List.range'_one, List.singleton_append, runs]
    cases rest with
    | nil => rfl
    | cons x rest =>
      obtain ⟨hi, rs, hr⟩ := runs_cons x rest
      have hx := h x List.mem_cons_self
      simp only [hr]
      rw [if_neg (by omega)]
      rfl
  | succ n ih =>
    have ih := ih (a := a + 1) (fun x hx => by have := h x hx; omega)
    rw [List.range'_succ, List.cons_append, runs, ih]
    simp only [if_true]
    rw [show a + 1 + n = a + (n + 1) by omega]

theorem runs_apart {vs : List Nat} (h : vs.Pairwise (· < ·)) : (runs vs).Pairwise fun r r' => r.2 + 1 < r'.1 := by
  induction h with
  | nil => exact List.Pairwise.nil
  | @cons v vs hv _ ih =>
    have hle : ∀ r ∈ runs vs, r.1 ≤ r.2 := runs_le
    have hmem : ∀ r ∈ runs vs, r.1 ∈ vs ∧ r.2 ∈ vs := mem_runs
    rw [runs]
    cases hr : runs vs with
    | nil => simp
    | cons r rs =>
      rw [hr] at ih hle hmem
      have hvr := hv r.1 (hmem r List.mem_cons_self).1
      have hrr := hle r List.mem_cons_self
      obtain ⟨hfirst, hrest⟩ := List.pairwise_cons.mp ih
      by_cases hm : v + 1 = r.1
      · simp only [if_pos hm]
        exact List.pairwise_cons.mpr ⟨hfirst, hrest⟩
      · simp only [if_neg hm]
        refine List.pairwise_cons.mpr ⟨fun x hx => ?_, ih⟩
        rcases List.mem_cons.mp hx with rfl | hx
        · show v + 1 < x.1
          omega
        · have := hfirst x hx
          show v + 1 < x.1
          omega

end Badnet.Lib

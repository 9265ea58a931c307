/-
  Badnet.Lib.Bisect — where a halving search comes to.

  A search of the `len` positions from `lo` probes the middle one and goes on in one of the halves. `probes i lo len`
  are the positions probed before position `i` is. A search for `d` comes to position `i` exactly if each of them holds
  a smaller element where it lies before `i` and a larger one where it lies after (`Leads`). A list without repetitions
  is found throughout (`BisectOrdered`) only if it is ascending (`bisectOrdered_iff_sorted`).
-/

import Mathlib.Order.Lattice
import Mathlib.Data.List.Basic

namespace Badnet.Lib

def probes (i lo len : Nat) : List Nat :=
  if len = 0 then []
  else if i = lo + (len - 1) / 2 then []
  else if lo + (len - 1) / 2 < i then
    (lo + (len - 1) / 2) :: probes i (lo + (len - 1) / 2 + 1) (len - 1 - (len - 1) / 2)
  else (lo + (len - 1) / 2) :: probes i lo ((len - 1) / 2)
termination_by len
decreasing_by
  · omega
  · omega

/-- The middle position of a range within the list. -/
theorem mid_getElem? {α : Type} {l : List α} {lo len : Nat} (hlen : 0 < len) (hl : lo + len ≤ l.length) :
    ∃ x, l[lo + (len - 1) / 2]? = some x :=
  ⟨_, List.getElem?_eq_getElem (by omega)⟩

theorem pairwise_getElem? {α : Type} {R : α → α → Prop} {l : List α} (h : l.Pairwise R) {i j : Nat} {x y : α}
    (hx : l[i]? = some x) (hy : l[j]? = some y) (hij : i < j) : R x y := by
  obtain ⟨hi, rfl⟩ := List.getElem?_eq_some_iff.mp hx
  obtain ⟨hj, rfl⟩ := List.getElem?_eq_some_iff.mp hy
  exact List.pairwise_iff_getElem.mp h i j hi hj hij

variable {κ : Type} [LinearOrder κ]

/-- Every probe on the way to `i` sends a search for `d` on towards `i`. -/
def Leads (l : List κ) (d : κ) (i lo len : Nat) : Prop :=
  ∀ m ∈ probes i lo len, ∀ x, l[m]? = some x → (m < i → x < d) ∧ (i < m → d < x)

def BisectOrdered (l : List κ) : Prop := ∀ d ∈ l, ∃ i, l[i]? = some d ∧ Leads l d i 0 l.length

section

variable {l : List κ} {d x : κ} {i lo len : Nat}

theorem leads_mid : Leads l d (lo + (len - 1) / 2) lo len := by
  intro m hm
  rw [probes] at hm
  simp at hm

theorem leads_right (hlen : 0 < len) (hx : l[lo + (len - 1) / 2]? = some x) (hi : lo + (len - 1) / 2 < i) :
    Leads l d i lo len ↔ x < d ∧ Leads l d i (lo + (len - 1) / 2 + 1) (len - 1 - (len - 1) / 2) := by
  have hp : probes i lo len =
      (lo + (len - 1) / 2) :: probes i (lo + (len - 1) / 2 + 1) (len - 1 - (len - 1) / 2) := by
    rw [probes, if_neg (by omega), if_neg (by omega), if_pos hi]
  unfold Leads
  rw [hp]
  simp only [List.mem_cons, forall_eq_or_imp, hx, Option.some.injEq, forall_eq', hi, forall_const,
    Nat.not_lt_of_lt hi, false_implies, and_true]

theorem leads_left (hlen : 0 < len) (hx : l[lo + (len - 1) / 2]? = some x) (hi : i < lo + (len - 1) / 2) :
    Leads l d i lo len ↔ d < x ∧ Leads l d i lo ((len - 1) / 2) := by
  have hp : probes i lo len = (lo + (len - 1) / 2) :: probes i lo ((len - 1) / 2) := by
    rw [probes, if_neg (by omega), if_neg (by omega), if_neg (by omega)]
  unfold Leads
  rw [hp]
  simp only [List.mem_cons, forall_eq_or_imp, hx, Option.some.injEq, forall_eq', hi, forall_const,
    Nat.not_lt_of_lt hi, false_implies, true_and]

/-- The probes of the range lead a search for `d` to one of its positions. -/
def Reaches (l : List κ) (d : κ) (lo len : Nat) : Prop :=
  ∃ i, lo ≤ i ∧ i < lo + len ∧ l[i]? = some d ∧ Leads l d i lo len

theorem not_reaches_zero : ¬ Reaches l d lo 0 := by
  rintro ⟨i, h1, h2, -⟩
  omega

theorem reaches_mid (hlen : 0 < len) (hx : l[lo + (len - 1) / 2]? = some d) : Reaches l d lo len :=
  ⟨_, by omega, by omega, hx, leads_mid⟩

theorem reaches_right (hlen : 0 < len) (hx : l[lo + (len - 1) / 2]? = some x) (hxd : x < d) :
    Reaches l d lo len ↔ Reaches l d (lo + (len - 1) / 2 + 1) (len - 1 - (len - 1) / 2) := by
  constructor
  · rintro ⟨i, h1, h2, hi, hp⟩
    rcases Nat.lt_trichotomy (lo + (len - 1) / 2) i with hmi | hmi | hmi
    · exact ⟨i, by omega, by omega, hi, ((leads_right hlen hx hmi).mp hp).2⟩
    · rw [hmi, hi] at hx
      cases hx
      exact absurd hxd (lt_irrefl _)
    · exact absurd hxd (lt_asymm ((leads_left hlen hx hmi).mp hp).1)
  · rintro ⟨i, h1, h2, hi, hp⟩
    exact ⟨i, by omega, by omega, hi, (leads_right hlen hx (by omega)).mpr ⟨hxd, hp⟩⟩

theorem reaches_left (hlen : 0 < len) (hx : l[lo + (len - 1) / 2]? = some x) (hdx : d < x) :
    Reaches l d lo len ↔ Reaches l d lo ((len - 1) / 2) := by
  constructor
  · rintro ⟨i, h1, h2, hi, hp⟩
    rcases Nat.lt_trichotomy (lo + (len - 1) / 2) i with hmi | hmi | hmi
    · exact absurd hdx (lt_asymm ((leads_right hlen hx hmi).mp hp).1)
    · rw [hmi, hi] at hx
      cases hx
      exact absurd hdx (lt_irrefl _)
    · exact ⟨i, by omega, by omega, hi, ((leads_left hlen hx hmi).mp hp).2⟩
  · rintro ⟨i, h1, h2, hi, hp⟩
    exact ⟨i, by omega, by omega, hi, (leads_left hlen hx (by omega)).mpr ⟨hdx, hp⟩⟩

theorem reaches_all : Reaches l d 0 l.length ↔ ∃ i, l[i]? = some d ∧ Leads l d i 0 l.length := by
  constructor
  · rintro ⟨i, -, -, hi, hp⟩
    exact ⟨i, hi, hp⟩
  · rintro ⟨i, hi, hp⟩
    obtain ⟨hlt, -⟩ := List.getElem?_eq_some_iff.mp hi
    exact ⟨i, by omega, by omega, hi, hp⟩

end

/-! ## Ordered lists -/

/-- The probes find what a range of a non-descending list holds. -/
theorem reaches_of_sorted {l : List κ} (h : l.Pairwise (· ≤ ·)) {d : κ} {j : Nat} (hj : l[j]? = some d) (lo len : Nat)
    (hl : lo + len ≤ l.length) (hlo : lo ≤ j) (hhi : j < lo + len) : Reaches l d lo len := by
  induction len using Nat.strongRecOn generalizing lo with
  | ind len ih =>
    have hlen : 0 < len := by omega
    obtain ⟨x, hx⟩ := mid_getElem? hlen hl
    rcases lt_trichotomy x d with hlt | rfl | hgt
    · apply (reaches_right hlen hx hlt).mpr
      have hmj : lo + (len - 1) / 2 < j := by
        rcases Nat.lt_trichotomy (lo + (len - 1) / 2) j with hmj | hmj | hmj
        · exact hmj
        · rw [hmj, hj] at hx
          cases hx
          exact absurd hlt (lt_irrefl _)
        · exact absurd hlt (not_lt_of_ge (pairwise_getElem? h hj hx hmj))
      exact ih _ (by omega) _ (by omega) (by omega) (by omega)
    · exact reaches_mid hlen hx
    · apply (reaches_left hlen hx hgt).mpr
      have hmj : j < lo + (len - 1) / 2 := by
        rcases Nat.lt_trichotomy (lo + (len - 1) / 2) j with hmj | hmj | hmj
        · exact absurd hgt (not_lt_of_ge (pairwise_getElem? h hx hj hmj))
        · rw [hmj, hj] at hx
          cases hx
          exact absurd hgt (lt_irrefl _)
        · exact hmj
      exact ih _ (by omega) _ (by omega) hlo hmj

theorem bisectOrdered_of_sorted {l : List κ} (h : l.Pairwise (· ≤ ·)) : BisectOrdered l := by
  intro d hd
  obtain ⟨j, hj⟩ := List.getElem?_of_mem hd
  obtain ⟨hlt, -⟩ := List.getElem?_eq_some_iff.mp hj
  exact reaches_all.mp (reaches_of_sorted h hj 0 l.length (by omega) (by omega) (by omega))

/-- Two positions the probes lead to are in order: the ways to them part at a probe
    between them. -/
theorem lt_of_leads {l : List κ} {a b : κ} {i j : Nat} (hi : l[i]? = some a) (hj : l[j]? = some b) (hij : i < j)
    (lo len : Nat) (hl : lo + len ≤ l.length) (hlo : lo ≤ i) (hhi : j < lo + len) (ha : Leads l a i lo len)
    (hb : Leads l b j lo len) : a < b := by
  induction len using Nat.strongRecOn generalizing lo with
  | ind len ih =>
    have hlen : 0 < len := by omega
    obtain ⟨x, hx⟩ := mid_getElem? hlen hl
    rcases Nat.lt_trichotomy (lo + (len - 1) / 2) i with hmi | hmi | hmi
    · obtain ⟨-, ha⟩ := (leads_right hlen hx hmi).mp ha
      obtain ⟨-, hb⟩ := (leads_right hlen hx (Nat.lt_trans hmi hij)).mp hb
      exact ih (len - 1 - (len - 1) / 2) (by omega) (lo + (len - 1) / 2 + 1) (by omega) (by omega) (by omega) ha hb
    · rw [hmi, hi] at hx
      cases hx
      exact ((leads_right hlen (hmi ▸ hi) (hmi ▸ hij)).mp hb).1
    · obtain ⟨hax, ha⟩ := (leads_left hlen hx hmi).mp ha
      rcases Nat.lt_trichotomy (lo + (len - 1) / 2) j with hmj | hmj | hmj
      · exact lt_trans hax ((leads_right hlen hx hmj).mp hb).1
      · rw [hmj, hj] at hx
        cases hx
        exact hax
      · obtain ⟨-, hb⟩ := (leads_left hlen hx hmj).mp hb
        exact ih ((len - 1) / 2) (by omega) lo (by omega) hlo hmj ha hb

/-- Without repetitions, only an ascending list has every element found. -/
theorem bisectOrdered_iff_sorted {l : List κ} (hnd : l.Nodup) : BisectOrdered l ↔ l.Pairwise (· < ·) := by
  constructor
  · intro h
    have hlead : ∀ i a, l[i]? = some a → Leads l a i 0 l.length := by
      intro i a hi
      obtain ⟨j, hj, hp⟩ := h a (List.mem_of_getElem? hi)
      obtain ⟨hlt, -⟩ := List.getElem?_eq_some_iff.mp hj
      rwa [(List.getElem?_inj hlt hnd).mp (hj.trans hi.symm)] at hp
    refine List.pairwise_iff_getElem.mpr fun i j hi hj hij => ?_
    have hi' := List.getElem?_eq_getElem hi
    have hj' := List.getElem?_eq_getElem hj
    exact lt_of_leads hi' hj' hij 0 l.length (by omega) (by omega) (by omega) (hlead i _ hi') (hlead j _ hj')
  · intro h
    exact bisectOrdered_of_sorted (h.imp le_of_lt)

end Badnet.Lib

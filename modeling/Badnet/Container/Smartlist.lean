/-
  Badnet.Container.Smartlist — the searches and joins of `lib/container/smartlist.c` and `smartlist.h`.

  `smartlist_bsearch` finds a key exactly if the probes of the halving lead to a position that holds it
  (`smartlistBsearch_found`), whatever the order of the list. `SMARTLIST_FOREACH_JOIN` walks two lists with one index
  each (`foreachJoin_at`).
-/

import Badnet.Lib.Bisect

namespace Badnet.Container

open Lib

variable {α β κ ν : Type}

/-! ## `smartlist_bsearch` -/

section

variable (compare : κ → α → Int) (key : κ) (sl : List α)

/-- `smartlist_bsearch_idx` from its `while` loop on; `none` is a failed assertion. -/
def bsearchLoop (lo hi : Nat) : Option (Nat × Bool) :=
  if lo ≤ hi then
    match sl[lo + (hi - lo) / 2]? with
    | none => none
    | some member =>
      if compare key member = 0 then some (lo + (hi - lo) / 2, true)
      else if compare key member > 0 then bsearchLoop (lo + (hi - lo) / 2 + 1) hi
      else if lo + (hi - lo) / 2 > 0 then bsearchLoop lo (lo + (hi - lo) / 2 - 1)
      else some (0, false)
  else if lo = hi + 1 ∧ lo ≤ sl.length then
    -- the element after the place of the key, or the last one
    if lo < sl.length then
      if sl[lo]?.all (compare key · < 0) then some (lo, false) else none
    else if sl[sl.length - 1]?.all (compare key · > 0) then some (lo, false) else none
  else none
termination_by hi + 1 - lo
decreasing_by
  · omega
  · omega

/-- The index and `found_out`. -/
def smartlistBsearchIdx : Option (Nat × Bool) :=
  if sl.length = 0 then some (0, false) else bsearchLoop compare key sl 0 (sl.length - 1)

/-- The member that matches the key, `some none` for NULL. -/
def smartlistBsearch : Option (Option α) :=
  (smartlistBsearchIdx compare key sl).map fun r => if r.2 then sl[r.1]? else none

end

theorem map_mid {sl : List α} {f : α → ν} {x : α} {lo hi : Nat} (hx : sl[lo + (hi - lo) / 2]? = some x) :
    (sl.map f)[lo + (hi + 1 - lo - 1) / 2]? = some (f x) := by
  rw [show hi + 1 - lo - 1 = hi - lo by omega, List.getElem?_map, hx]
  rfl

/-- On the members of `sl`, the comparison with `key` is that of `k` with `f`. -/
def Compares [LinearOrder ν] (compare : κ → α → Int) (key : κ) (k : ν) (f : α → ν) (sl : List α) : Prop :=
  ∀ x ∈ sl, (compare key x = 0 ↔ f x = k) ∧ (0 < compare key x ↔ f x < k)

section

variable [LinearOrder ν] {compare : κ → α → Int} {key : κ} {sl : List α} {k : ν} {f : α → ν} {x : α}

theorem Compares.neg_iff (h : Compares compare key k f sl) (hx : x ∈ sl) : compare key x < 0 ↔ k < f x := by
  obtain ⟨h0, hpos⟩ := h x hx
  rcases lt_trichotomy (f x) k with hlt | heq | hgt
  · have := hpos.mpr hlt
    exact ⟨fun hneg => by omega, fun hgt => absurd hlt (lt_asymm hgt)⟩
  · have := h0.mpr heq
    exact ⟨fun hneg => by omega, fun hgt => absurd heq (ne_of_gt hgt)⟩
  · have hne : compare key x ≠ 0 := fun e => absurd (h0.mp e) (ne_of_gt hgt)
    have hnp : ¬ 0 < compare key x := fun e => absurd (hpos.mp e) (lt_asymm hgt)
    exact ⟨fun _ => hgt, fun _ => by omega⟩

/-- The loop fails no assertion, and ends at a match exactly if the probes lead to one. The element after the range
is above the key, the one before it below. -/
theorem bsearchLoop_spec (h : Compares compare key k f sl) (lo hi : Nat) (hhi : hi < sl.length) (hlo : lo ≤ hi + 1)
    (hafter : ∀ x, sl[hi + 1]? = some x → compare key x < 0)
    (hbefore : 0 < lo → ∀ x, sl[lo - 1]? = some x → 0 < compare key x) :
    ∃ r, bsearchLoop compare key sl lo hi = some r ∧ (r.2 = true → ∃ x, sl[r.1]? = some x ∧ f x = k) ∧
      (r.2 = true ↔ Reaches (sl.map f) k lo (hi + 1 - lo)) := by
  fun_induction bsearchLoop compare key sl lo hi with
  | case1 lo hi hle hnone =>
    rw [List.getElem?_eq_none_iff] at hnone
    omega
  | case2 lo hi hle x hx h0 =>
    have hxk := (h x (List.mem_of_getElem? hx)).1.mp h0
    exact ⟨_, rfl, fun _ => ⟨x, hx, hxk⟩, iff_of_true rfl (reaches_mid (by omega) (hxk ▸ map_mid hx))⟩
  | case3 lo hi hle x hx h0 hpos ih =>
    have hxk := (h x (List.mem_of_getElem? hx)).2.mp hpos
    obtain ⟨r, hr, hfound, hiff⟩ := ih hhi (by omega) hafter (fun _ y hy => by
      rw [Nat.add_sub_cancel, hx] at hy
      cases hy
      exact hpos)
    have hstep := reaches_right (show 0 < hi + 1 - lo by omega) (map_mid hx) hxk
    rw [show hi + 1 - lo - 1 = hi - lo by omega] at hstep
    rw [show hi + 1 - (lo + (hi - lo) / 2 + 1) = hi - lo - (hi - lo) / 2 by omega] at hiff
    exact ⟨r, hr, hfound, hiff.trans hstep.symm⟩
  | case4 lo hi hle x hx h0 hpos hmid ih =>
    have hneg : compare key x < 0 := by omega
    have hxk := (h.neg_iff (List.mem_of_getElem? hx)).mp hneg
    obtain ⟨r, hr, hfound, hiff⟩ := ih (by omega) (by omega) (fun y hy => by
      rw [Nat.sub_add_cancel hmid, hx] at hy
      cases hy
      exact hneg) hbefore
    have hstep := reaches_left (show 0 < hi + 1 - lo by omega) (map_mid hx) hxk
    rw [show hi + 1 - lo - 1 = hi - lo by omega] at hstep
    rw [show lo + (hi - lo) / 2 - 1 + 1 - lo = (hi - lo) / 2 by omega] at hiff
    exact ⟨r, hr, hfound, hiff.trans hstep.symm⟩
  | case5 lo hi hle x hx h0 hpos hmid =>
    have hxk := (h.neg_iff (List.mem_of_getElem? hx)).mp (by omega)
    refine ⟨_, rfl, by simp, iff_of_false (by simp) ?_⟩
    rw [reaches_left (by omega) (map_mid hx) hxk, show (hi + 1 - lo - 1) / 2 = 0 by omega]
    exact not_reaches_zero
  | case6 lo hi hle hend hlt hall =>
    refine ⟨_, rfl, by simp, iff_of_false (by simp) ?_⟩
    rw [show hi + 1 - lo = 0 by omega]
    exact not_reaches_zero
  | case7 lo hi hle hend hlt hall =>
    refine absurd ?_ hall
    rw [hend.1, List.getElem?_eq_getElem (hend.1 ▸ hlt)]
    simpa using hafter _ (List.getElem?_eq_getElem (hend.1 ▸ hlt))
  | case8 lo hi hle hend hlt hall =>
    refine ⟨_, rfl, by simp, iff_of_false (by simp) ?_⟩
    rw [show hi + 1 - lo = 0 by omega]
    exact not_reaches_zero
  | case9 lo hi hle hend hlt hall =>
    refine absurd ?_ hall
    have hb := hbefore (by omega)
    rw [show lo - 1 = sl.length - 1 by omega] at hb
    rw [List.getElem?_eq_getElem (show sl.length - 1 < sl.length by omega)]
    simpa using hb _ (List.getElem?_eq_getElem (by omega))
  | case10 lo hi hle hend => exact absurd ⟨by omega, by omega⟩ hend

/-- The search returns a member with the key, and does so exactly if the probes lead to
    one. -/
theorem smartlistBsearch_found (h : Compares compare key k f sl) :
    ∃ r, smartlistBsearch compare key sl = some r ∧ (∀ x, r = some x → x ∈ sl ∧ f x = k) ∧
      (r.isSome ↔ Reaches (sl.map f) k 0 sl.length) := by
  unfold smartlistBsearch smartlistBsearchIdx
  by_cases hlen : sl.length = 0
  · rw [if_pos hlen]
    refine ⟨none, rfl, by simp, iff_of_false (by simp) ?_⟩
    rw [hlen]
    exact not_reaches_zero
  · rw [if_neg hlen]
    obtain ⟨r, hr, hfound, hiff⟩ := bsearchLoop_spec h 0 (sl.length - 1) (by omega) (by omega)
      (fun x hx => by rw [Nat.sub_add_cancel (by omega), List.getElem?_eq_none (by omega)] at hx; cases hx)
      (fun h0 => absurd h0 (by omega))
    rw [show sl.length - 1 + 1 - 0 = sl.length by omega] at hiff
    rw [hr]
    refine ⟨_, rfl, ?_, ?_⟩
    · intro x hx
      simp only at hx
      split at hx
      · rename_i hr2
        obtain ⟨y, hy, hyk⟩ := hfound hr2
        rw [hy] at hx
        cases hx
        exact ⟨List.mem_of_getElem? hy, hyk⟩
      · cases hx
    · rw [← hiff]
      by_cases hr2 : r.2 = true
      · obtain ⟨y, hy, -⟩ := hfound hr2
        simp [hr2, hy]
      · simp [hr2]

end

/-! ## `SMARTLIST_FOREACH_JOIN` -/

/-- For every member of the second list, the member of the first one it is matched with.
    `sl1` is the first list from its index on; the index stays at a match. -/
def foreachJoin (cmpexpr : α → β → Int) : List α → List β → List (Option α × β)
  | _, [] => []
  | sl1, var2 :: sl2 =>
    let rest := sl1.dropWhile (cmpexpr · var2 < 0)
    (rest.head?.filter (cmpexpr · var2 = 0), var2) :: foreachJoin cmpexpr rest sl2

theorem foreachJoin_snd (cmpexpr : α → β → Int) (sl1 : List α) (sl2 : List β) :
    (foreachJoin cmpexpr sl1 sl2).map Prod.snd = sl2 := by
  induction sl2 generalizing sl1 with
  | nil => rfl
  | cons b sl2 ih => rw [foreachJoin, List.map_cons, ih]

section

variable [LinearOrder ν] {cmpexpr : α → β → Int} {f : α → ν} {g : β → ν}

/-- The comparison is that of `f` with `g`. -/
def JoinCompares (cmpexpr : α → β → Int) (f : α → ν) (g : β → ν) (sl1 : List α) (sl2 : List β) : Prop :=
  ∀ a ∈ sl1, ∀ b ∈ sl2, (cmpexpr a b = 0 ↔ f a = g b) ∧ (cmpexpr a b < 0 ↔ f a < g b)

/-- The match of a member `b` that comes after the members `pre`: the first one that is not smaller, if it has the
key of `b` and no member of `pre` is greater. -/
def joinMatch (f : α → ν) (g : β → ν) (sl1 : List α) (pre : List β) (b : β) : Option α :=
  if ∀ p ∈ pre, g p ≤ g b then (sl1.find? (g b ≤ f ·)).filter (f · = g b) else none

theorem head?_dropWhile_lt (sl : List α) (k : ν) : (sl.dropWhile (f · < k)).head? = sl.find? (k ≤ f ·) := by
  induction sl with
  | nil => rfl
  | cons a sl ih =>
    by_cases h : f a < k
    · rw [List.dropWhile_cons_of_pos (by simpa using h), List.find?_cons_of_neg (by simpa using h), ih]
    · rw [List.dropWhile_cons_of_neg (by simpa using h), List.find?_cons_of_pos (by simpa using h)]
      rfl

/-- Skipping the members below `k` first changes nothing for a key that is not below. -/
theorem find?_dropWhile_lt (sl : List α) {k v : ν} (h : k ≤ v) :
    (sl.dropWhile (f · < k)).find? (v ≤ f ·) = sl.find? (v ≤ f ·) := by
  induction sl with
  | nil => rfl
  | cons a sl ih =>
    by_cases ha : f a < k
    · rw [List.dropWhile_cons_of_pos (by simpa using ha), ih,
        List.find?_cons_of_neg (by simpa using lt_of_lt_of_le ha h)]
    · rw [List.dropWhile_cons_of_neg (by simpa using ha)]

variable {sl1 : List α} {b : β}

theorem joinMatch_eq_some {pre : List β} {x : α} : joinMatch f g sl1 pre b = some x ↔
      (∀ p ∈ pre, g p ≤ g b) ∧ f x = g b ∧ ∃ as bs, sl1 = as ++ x :: bs ∧ ∀ a ∈ as, f a < g b := by
  unfold joinMatch
  by_cases hpre : ∀ p ∈ pre, g p ≤ g b
  · rw [if_pos hpre, Option.filter_eq_some_iff, List.find?_eq_some_iff_append]
    constructor
    · rintro ⟨⟨-, as, bs, hsl, has⟩, hx⟩
      exact ⟨hpre, of_decide_eq_true hx, as, bs, hsl, fun a ha => by simpa using has a ha⟩
    · rintro ⟨-, hx, as, bs, hsl, has⟩
      exact ⟨⟨by simpa using le_of_eq hx.symm, as, bs, hsl, fun a ha => by simpa using has a ha⟩, decide_eq_true hx⟩
  · rw [if_neg hpre]
    exact ⟨nofun, fun h => absurd h.1 hpre⟩

theorem joinMatch_cons (sl1 : List α) (p : β) (pre : List β) (b : β) :
    joinMatch f g sl1 (p :: pre) b = joinMatch f g (sl1.dropWhile (f · < g p)) pre b := by
  unfold joinMatch
  by_cases hp : g p ≤ g b
  · simp only [List.mem_cons, forall_eq_or_imp, hp, true_and, find?_dropWhile_lt sl1 hp]
  · have hlt : g b < g p := lt_of_not_ge hp
    rw [if_neg (fun h => hp (h p (by simp)))]
    split
    · symm
      rw [Option.filter_eq_none_iff]
      intro x hx hxb
      -- the members left are not below `p`, which is above `b`
      have hrest : sl1.dropWhile (f · < g p) ≠ [] := List.ne_nil_of_mem (List.mem_of_find?_eq_some hx)
      have hhead := head?_dropWhile_lt (f := f) sl1 (g p)
      obtain ⟨y, ys, hy⟩ := List.exists_cons_of_ne_nil hrest
      rw [hy] at hhead hx
      have hyp : g p ≤ f y := by simpa using List.find?_some hhead.symm
      rw [List.find?_cons_of_pos (by simpa using le_of_lt (lt_of_lt_of_le hlt hyp))] at hx
      cases hx
      rw [decide_eq_true_eq] at hxb
      exact absurd (hxb ▸ hyp) hp
    · rfl

theorem JoinCompares.dropWhile_eq {sl2 : List β} (h : JoinCompares cmpexpr f g sl1 sl2)
    (hb : b ∈ sl2) : sl1.dropWhile (cmpexpr · b < 0) = sl1.dropWhile (f · < g b) := by
  induction sl1 with
  | nil => rfl
  | cons a sl1 ih =>
    rw [List.dropWhile_cons, List.dropWhile_cons, ih fun x hx => h x (List.mem_cons_of_mem _ hx),
      decide_eq_decide.mpr (h a (by simp) b hb).2]

/-- The member of the second list after the members `pre` is matched as `joinMatch` says. -/
theorem foreachJoin_at {pre : List β} {post : List β} (h : JoinCompares cmpexpr f g sl1 (pre ++ b :: post)) :
    (foreachJoin cmpexpr sl1 (pre ++ b :: post))[pre.length]? = some (joinMatch f g sl1 pre b, b) := by
  induction pre generalizing sl1 with
  | nil =>
    rw [List.nil_append, foreachJoin, h.dropWhile_eq (by simp)]
    simp only [List.length_nil, List.getElem?_cons_zero]
    rw [head?_dropWhile_lt, joinMatch, if_pos (by simp)]
    cases hx : sl1.find? (g b ≤ f ·) with
    | none => rfl
    | some x =>
      have hcmp := (h x (List.mem_of_find?_eq_some hx) b (by simp)).1
      simp [Option.filter, hcmp]
  | cons p pre ih =>
    rw [List.cons_append, foreachJoin, h.dropWhile_eq (by simp), joinMatch_cons]
    simp only [List.length_cons, List.getElem?_cons_succ]
    apply ih
    intro a ha c hc
    exact h a (List.dropWhile_subset _ ha) c (List.mem_cons_of_mem _ hc)

end

end Badnet.Container

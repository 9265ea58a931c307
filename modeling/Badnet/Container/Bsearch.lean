/-
  Badnet.Container.Bsearch — `smartlist_bsearch_idx` with its bounds and assertions (`lib/container/smartlist.c`).

  Every access to the list is checked against its ends, and every assertion is made. What the search of
  Badnet.Container.Smartlist takes for a failed assertion is one (`searchIdx_toOption`). On a list that is ordered with
  respect to the key no fault occurs, and the index is that of a match or the place for the key
  (`smartlist_bsearch_idx_exact`).
-/

import Badnet.Container.Smartlist

namespace Badnet.Container

variable {α κ : Type}

/-! ## The search -/

inductive BsearchFault where
  | assertion
  | outOfRange
  deriving DecidableEq, Repr

def bsearchAssert (p : Prop) [Decidable p] : Except BsearchFault Unit := if p then .ok () else .error .assertion

section
variable (compare : κ → α → Int) (key : κ) (sl : List α)

/-- The comparison of the key with `sl->list[i]`. -/
def compareAt (i : Int) : Except BsearchFault Int :=
  if 0 ≤ i then
    match sl[i.toNat]? with
    | none => .error .outOfRange
    | some member => .ok (compare key member)
  else .error .outOfRange

/-- `smartlist_bsearch_idx` from its `while` loop on. -/
def searchLoop (lo hi : Int) : Except BsearchFault (Int × Bool) :=
  if _h : lo ≤ hi then do
    let diff := hi - lo
    let mid := lo + diff / 2
    let cmp ← compareAt compare key sl mid
    if cmp = 0 then return (mid, true)
    else if cmp > 0 then do
      bsearchAssert (mid < sl.length)
      searchLoop (mid + 1) hi
    else do
      bsearchAssert (cmp < 0)
      if mid > 0 then searchLoop lo (mid - 1)
      else do
        bsearchAssert (mid = lo)
        bsearchAssert (mid = 0)
        return (0, false)
  else do
    bsearchAssert (lo = hi + 1)
    bsearchAssert (lo ≥ 0)
    bsearchAssert (lo ≤ sl.length)
    bsearchAssert (hi ≥ 0)
    bsearchAssert (hi ≤ sl.length)
    if lo < sl.length then do
      let cmp ← compareAt compare key sl lo
      bsearchAssert (cmp < 0)
    else do
      let cmp ← compareAt compare key sl (sl.length - 1)
      bsearchAssert (cmp > 0)
    return (lo, false)
termination_by (hi + 1 - lo).toNat
decreasing_by
  · omega
  · omega

/-- The index and `*found_out`. -/
def searchIdx : Except BsearchFault (Int × Bool) :=
  if sl.length = 0 then return (0, false)
  else do
    bsearchAssert (sl.length > 0)
    searchLoop compare key sl 0 (sl.length - 1)

end

section
variable {compare : κ → α → Int} {key : κ} {sl : List α}

theorem bsearchAssert_of {p : Prop} [Decidable p] (h : p) : bsearchAssert p = .ok () := if_pos h

variable {x : α} {idx : Nat}

theorem compareAt_of {i : Nat} (hx : sl[i]? = some x) : compareAt compare key sl i = .ok (compare key x) := by
  rw [compareAt, if_pos (Int.natCast_nonneg i), Int.toNat_natCast, hx]

/-! ## Ordered lists -/

/-- The members below the key come first, then those that match it, then those above it. -/
def OrderedFor (compare : κ → α → Int) (key : κ) (sl : List α) : Prop :=
  ∃ below matching above, sl = below ++ (matching ++ above) ∧ (∀ x ∈ below, 0 < compare key x) ∧
    (∀ x ∈ matching, compare key x = 0) ∧ ∀ x ∈ above, compare key x < 0

/-- A member before one below the key is below it, and one behind a member above the key is above it. -/
theorem OrderedFor.pairwise (h : OrderedFor compare key sl) :
    sl.Pairwise fun x y => (0 < compare key y → 0 < compare key x) ∧ (compare key x < 0 → compare key y < 0) := by
  obtain ⟨below, matching, above, rfl, hbelow, hmatching, habove⟩ := h
  have hclass : ∀ {l : List α} {P : Int → Prop} (hl : ∀ x ∈ l, P (compare key x))
      (hP : ∀ a b, P a → P b → (0 < b → 0 < a) ∧ (a < 0 → b < 0)),
      l.Pairwise fun x y => (0 < compare key y → 0 < compare key x) ∧ (compare key x < 0 → compare key y < 0) := by
    intro l P hl hP
    exact List.pairwise_iff_forall_sublist.mpr fun {x y} hxy =>
      hP _ _ (hl x (hxy.subset (by simp))) (hl y (hxy.subset (by simp)))
  refine List.pairwise_append.mpr ⟨hclass (P := fun c => 0 < c) hbelow fun a b ha hb => ⟨fun _ => ha, fun h => by omega⟩, ?_, ?_⟩
  · refine List.pairwise_append.mpr ⟨hclass (P := fun c => c = 0) hmatching fun a b ha hb => ⟨fun h => by omega, fun h => by omega⟩,
      hclass (P := fun c => c < 0) habove fun a b ha hb => ⟨fun h => by omega, fun _ => hb⟩, ?_⟩
    intro x hx y hy
    have hy := habove y hy
    exact ⟨fun h => by omega, fun h => by omega⟩
  · intro x hx y hy
    exact ⟨fun _ => hbelow x hx, fun h => by have := hbelow x hx; omega⟩

/-- What holds at the head of the loop: the comment of the source. -/
structure Bounds (compare : κ → α → Int) (key : κ) (sl : List α) (lo hi : Int) : Prop where
  lo_nonneg : 0 ≤ lo
  hi_nonneg : 0 ≤ hi
  lo_le : lo ≤ hi + 1
  hi_lt : hi < sl.length
  below : ∀ (j : Nat) (x : α), (j : Int) < lo → sl[j]? = some x → 0 < compare key x
  above : ∀ (j : Nat) (x : α), hi < (j : Int) → sl[j]? = some x → compare key x < 0

/-- What the search gives: a match, or the place between the members below the key and those above it. -/
structure Found (compare : κ → α → Int) (key : κ) (sl : List α) (idx : Nat) (found : Bool) : Prop where
  hit : found = true → ∃ x, sl[idx]? = some x ∧ compare key x = 0
  le_length : idx ≤ sl.length
  below : found = false → ∀ x ∈ sl.take idx, 0 < compare key x
  above : found = false → ∀ x ∈ sl.drop idx, compare key x < 0

theorem below_mid (h : OrderedFor compare key sl) {mid : Nat} (hx : sl[mid]? = some x) (hcmp : 0 < compare key x)
    (j : Nat) (y : α) (hj : j ≤ mid) (hy : sl[j]? = some y) : 0 < compare key y := by
  rcases Nat.lt_or_eq_of_le hj with hlt | rfl
  · exact (Lib.pairwise_getElem? h.pairwise hy hx hlt).1 hcmp
  · rw [hy] at hx
    cases hx
    exact hcmp

theorem above_mid (h : OrderedFor compare key sl) {mid : Nat} (hx : sl[mid]? = some x) (hcmp : compare key x < 0)
    (j : Nat) (y : α) (hj : mid ≤ j) (hy : sl[j]? = some y) : compare key y < 0 := by
  rcases Nat.lt_or_eq_of_le hj with hlt | rfl
  · exact (Lib.pairwise_getElem? h.pairwise hx hy hlt).2 hcmp
  · rw [hy] at hx
    cases hx
    exact hcmp

/-- The place of the key, by what stands on both sides of it. -/
theorem found_place (hle : idx ≤ sl.length) (hbelow : ∀ (j : Nat) (x : α), j < idx → sl[j]? = some x → 0 < compare key x)
    (habove : ∀ (j : Nat) (x : α), idx ≤ j → sl[j]? = some x → compare key x < 0) : Found compare key sl idx false where
  hit := by
    intro h
    cases h
  le_length := hle
  below := by
    intro _ x hx
    obtain ⟨j, hj, hget⟩ := List.mem_take_iff_getElem.mp hx
    exact hbelow j x (by omega) (by rw [← hget]; exact List.getElem?_eq_getElem _)
  above := by
    intro _ x hx
    obtain ⟨j, hj, hget⟩ := List.mem_drop_iff_getElem.mp hx
    exact habove (idx + j) x (by omega) (by rw [← hget]; exact List.getElem?_eq_getElem _)

/-- From bounds that hold, the loop ends without a failed assertion. -/
theorem bsearchLoop_found (h : OrderedFor compare key sl) (lo hi : Nat) (hb : Bounds compare key sl lo hi) :
    ∃ r, bsearchLoop compare key sl lo hi = some r ∧ Found compare key sl r.1 r.2 := by
  fun_induction bsearchLoop compare key sl lo hi with
  | case1 lo hi hle hnone =>
    have hlt := hb.hi_lt
    rw [List.getElem?_eq_none_iff] at hnone
    omega
  | case2 lo hi hle x hx h0 =>
    obtain ⟨hlt, -⟩ := List.getElem?_eq_some_iff.mp hx
    exact ⟨_, rfl, fun _ => ⟨x, hx, h0⟩, Nat.le_of_lt hlt, fun h => (by cases h), fun h => (by cases h)⟩
  | case3 lo hi hle x hx h0 hpos ih =>
    obtain ⟨hlo, hhi, -, hlt, hbelow, habove⟩ := hb
    exact ih ⟨by omega, hhi, by omega, hlt, fun j y hj hy => below_mid h hx hpos j y (by omega) hy, habove⟩
  | case4 lo hi hle x hx h0 hpos hmid ih =>
    obtain ⟨hlo, hhi, -, hlt, hbelow, habove⟩ := hb
    have hneg : compare key x < 0 := by omega
    exact ih ⟨hlo, by omega, by omega, by omega, hbelow, fun j y hj hy => above_mid h hx hneg j y (by omega) hy⟩
  | case5 lo hi hle x hx h0 hpos hmid =>
    refine ⟨_, rfl, found_place (Nat.zero_le _) (fun j y hj => absurd hj (Nat.not_lt_zero j)) fun j y _ hy => ?_⟩
    exact above_mid h hx (by omega) j y (by omega) hy
  | case6 lo hi hle hend hlt hall | case8 lo hi hle hend hlt hall =>
    obtain ⟨-, -, -, -, hbelow, habove⟩ := hb
    exact ⟨_, rfl, found_place hend.2 (fun j y hj hy => hbelow j y (by omega) hy) fun j y hj hy => habove j y (by omega) hy⟩
  | case7 lo hi hle hend hlt hall =>
    have hx := List.getElem?_eq_getElem hlt
    exact absurd (by simpa [hx] using hb.above lo _ (by omega) hx) hall
  | case9 lo hi hle hend hlt hall =>
    have hhi := hb.hi_lt
    have hx := List.getElem?_eq_getElem (show sl.length - 1 < sl.length by omega)
    exact absurd (by simpa [hx] using hb.below (sl.length - 1) _ (by omega) hx) hall
  | case10 lo hi hle hend =>
    have hlast := hb.lo_le
    have hlt := hb.hi_lt
    exact absurd ⟨by omega, by omega⟩ hend

theorem smartlistBsearchIdx_found (h : OrderedFor compare key sl) :
    ∃ r, smartlistBsearchIdx compare key sl = some r ∧ Found compare key sl r.1 r.2 := by
  by_cases hlen : sl.length = 0
  · refine ⟨_, if_pos hlen, found_place (Nat.zero_le _) (fun j y hj => absurd hj (Nat.not_lt_zero j)) fun j y hj hy => ?_⟩
    rw [List.eq_nil_of_length_eq_zero hlen] at hy
    cases hy
  · rw [smartlistBsearchIdx, if_neg hlen]
    refine bsearchLoop_found h 0 (sl.length - 1) ⟨Int.le_refl 0, by omega, by omega, by omega, fun j y hj => absurd hj (by omega),
      fun j y hj hy => ?_⟩
    obtain ⟨hlt, -⟩ := List.getElem?_eq_some_iff.mp hy
    omega

/-! ## The search with its bounds and assertions -/

/-- The two loops agree from bounds that the search can have. -/
theorem searchLoop_toOption (lo hi : Nat) (hhi : hi < sl.length) (hle : lo ≤ hi + 1) :
    (searchLoop compare key sl lo hi).toOption = (bsearchLoop compare key sl lo hi).map fun r => ((r.1 : Int), r.2) := by
  induction hn : hi + 1 - lo using Nat.strong_induction_on generalizing lo hi with
  | _ n ih =>
    rw [searchLoop, bsearchLoop]
    by_cases hrange : lo ≤ hi
    · have hmid : (lo : Int) + (hi - lo) / 2 = ((lo + (hi - lo) / 2 : Nat) : Int) := by omega
      have hmidlt : lo + (hi - lo) / 2 < sl.length := by omega
      have hx := List.getElem?_eq_getElem hmidlt
      rw [dif_pos (Int.ofNat_le.mpr hrange), if_pos hrange]
      simp only [hmid, compareAt_of hx, hx, bind, Except.bind]
      generalize hcmp : compare key sl[lo + (hi - lo) / 2] = cmp
      by_cases hzero : cmp = 0
      · rw [if_pos hzero, if_pos hzero]
        rfl
      · rw [if_neg hzero, if_neg hzero]
        by_cases hpos : cmp > 0
        · rw [if_pos hpos, if_pos hpos, bsearchAssert_of (Int.ofNat_lt.mpr hmidlt)]
          exact ih _ (by omega) (lo + (hi - lo) / 2 + 1) hi hhi (by omega) rfl
        · rw [if_neg hpos, if_neg hpos, bsearchAssert_of (show cmp < 0 by omega)]
          by_cases hfirst : lo + (hi - lo) / 2 > 0
          · have hpred : ((lo + (hi - lo) / 2 : Nat) : Int) - 1 = ((lo + (hi - lo) / 2 - 1 : Nat) : Int) := by omega
            rw [if_pos hfirst]
            simp only [if_pos (show ((lo + (hi - lo) / 2 : Nat) : Int) > 0 by omega), hpred]
            exact ih _ (by omega) lo (lo + (hi - lo) / 2 - 1) (by omega) (by omega) rfl
          · rw [if_neg hfirst]
            simp only [if_neg (show ¬ ((lo + (hi - lo) / 2 : Nat) : Int) > 0 by omega),
              bsearchAssert_of (show ((lo + (hi - lo) / 2 : Nat) : Int) = lo by omega),
              bsearchAssert_of (show ((lo + (hi - lo) / 2 : Nat) : Int) = 0 by omega)]
            rfl
    · have hend : lo = hi + 1 := by omega
      rw [dif_neg (by omega), if_neg hrange, if_pos (show lo = hi + 1 ∧ lo ≤ sl.length by omega)]
      simp only [bind, Except.bind, bsearchAssert_of (show (lo : Int) = hi + 1 by omega),
        bsearchAssert_of (show (lo : Int) ≥ 0 by omega), bsearchAssert_of (show (lo : Int) ≤ sl.length by omega),
        bsearchAssert_of (show (hi : Int) ≥ 0 by omega), bsearchAssert_of (show (hi : Int) ≤ sl.length by omega)]
      by_cases hinside : lo < sl.length
      · have hx := List.getElem?_eq_getElem hinside
        rw [if_pos hinside, hx]
        simp only [if_pos (Int.ofNat_lt.mpr hinside), compareAt_of hx, Option.all_some, decide_eq_true_eq, bsearchAssert]
        by_cases hcmp : compare key sl[lo] < 0
        · rw [if_pos hcmp, if_pos hcmp]
          rfl
        · rw [if_neg hcmp, if_neg hcmp]
          rfl
      · have hlast : (sl.length : Int) - 1 = ((sl.length - 1 : Nat) : Int) := by omega
        have hx := List.getElem?_eq_getElem (show sl.length - 1 < sl.length by omega)
        rw [if_neg hinside, hx]
        simp only [if_neg (show ¬ (lo : Int) < sl.length by omega), hlast, compareAt_of hx, Option.all_some, decide_eq_true_eq,
          bsearchAssert]
        by_cases hcmp : compare key sl[sl.length - 1] > 0
        · rw [if_pos hcmp, if_pos hcmp]
          rfl
        · rw [if_neg hcmp, if_neg hcmp]
          rfl

/-- `none` there is a fault here, and all else is the same. -/
theorem searchIdx_toOption (compare : κ → α → Int) (key : κ) (sl : List α) :
    (searchIdx compare key sl).toOption = (smartlistBsearchIdx compare key sl).map fun r => ((r.1 : Int), r.2) := by
  unfold searchIdx smartlistBsearchIdx
  by_cases hlen : sl.length = 0
  · rw [if_pos hlen, if_pos hlen]
    rfl
  · have hlast : (sl.length : Int) - 1 = ((sl.length - 1 : Nat) : Int) := by omega
    rw [if_neg hlen, if_neg hlen]
    simp only [bind, Except.bind, bsearchAssert_of (Nat.pos_of_ne_zero hlen), hlast]
    exact searchLoop_toOption 0 (sl.length - 1) (by omega) (by omega)

theorem searchIdx_found (h : OrderedFor compare key sl) :
    ∃ (idx : Nat) (found : Bool), searchIdx compare key sl = .ok ((idx : Int), found) ∧ Found compare key sl idx found := by
  obtain ⟨r, hr, hf⟩ := smartlistBsearchIdx_found h
  have hsame := searchIdx_toOption compare key sl
  rw [hr] at hsame
  cases heq : searchIdx compare key sl with
  | error => simp [heq, Except.toOption] at hsame
  | ok found =>
    rw [heq] at hsame
    exact ⟨r.1, r.2, congrArg Except.ok (Option.some.inj hsame), hf⟩

/-! ## Inserting at the place -/

/-- The members before the place stay before the new one, those behind it behind. -/
theorem Found.insert_pairwise (hf : Found compare key sl idx false) {R : α → α → Prop}
    (hbelow : ∀ y ∈ sl, 0 < compare key y → R y x) (habove : ∀ y ∈ sl, compare key y < 0 → R x y) (hsl : sl.Pairwise R) :
    (sl.take idx ++ x :: sl.drop idx).Pairwise R := by
  have hb : ∀ y ∈ sl.take idx, R y x := fun y hy => hbelow y (List.mem_of_mem_take hy) (hf.below rfl y hy)
  have ha : ∀ y ∈ sl.drop idx, R x y := fun y hy => habove y (List.mem_of_mem_drop hy) (hf.above rfl y hy)
  have hparts := hsl
  rw [← List.take_append_drop idx sl, List.pairwise_append] at hparts
  obtain ⟨htake, hdrop, hcross⟩ := hparts
  refine List.pairwise_append.mpr ⟨htake, List.pairwise_cons.mpr ⟨ha, hdrop⟩, fun y hy z hz => ?_⟩
  rcases List.mem_cons.mp hz with rfl | hz
  · exact hb y hy
  · exact hcross y hy z hz

theorem Found.insert_ordered (hf : Found compare key sl idx false) (hx : compare key x = 0) :
    OrderedFor compare key (sl.take idx ++ x :: sl.drop idx) :=
  ⟨sl.take idx, [x], sl.drop idx, rfl, hf.below rfl, List.forall_mem_singleton.mpr hx, hf.above rfl⟩

/-- The place is the first index of a member above the key. -/
theorem Found.idx_eq (hf : Found compare key sl idx false) : idx = sl.findIdx fun x => compare key x < 0 := by
  have hlen : (sl.take idx).length = idx := List.length_take_of_le hf.le_length
  have hbefore : (sl.take idx).findIdx (fun x => decide (compare key x < 0)) = idx := by
    rw [List.findIdx_eq_length_of_false fun x hx => ?_, hlen]
    have hpos := hf.below rfl x hx
    exact decide_eq_false (by omega)
  have hbehind : (sl.drop idx).findIdx (fun x => decide (compare key x < 0)) = 0 := by
    cases hdrop : sl.drop idx with
    | nil => rfl
    | cons x rest =>
      have hneg := hf.above rfl x (hdrop ▸ List.mem_cons_self)
      rw [List.findIdx_cons, decide_eq_true hneg]
      rfl
  calc idx = (sl.take idx ++ sl.drop idx).findIdx fun x => decide (compare key x < 0) := by
        rw [List.findIdx_append, hbefore, hlen, if_neg (Nat.lt_irrefl idx), hbehind, Nat.zero_add]
    _ = sl.findIdx fun x => decide (compare key x < 0) := by rw [List.take_append_drop]

/-- On a list that is ordered for the key nothing fails: the search gives a match if there is one, and otherwise the
first member above the key, where the key can be inserted. -/
theorem smartlist_bsearch_idx_exact (h : OrderedFor compare key sl) :
    ∃ (idx : Nat) (found : Bool), searchIdx compare key sl = .ok ((idx : Int), found) ∧
      (found = true ↔ ∃ x ∈ sl, compare key x = 0) ∧
      (found = true → ∃ x, sl[idx]? = some x ∧ compare key x = 0) ∧
      (found = false → idx = (sl.findIdx fun x => compare key x < 0) ∧ idx ≤ sl.length ∧
        (∀ x, compare key x = 0 → OrderedFor compare key (sl.take idx ++ x :: sl.drop idx)) ∧
        ∀ (R : α → α → Prop) (x : α), (∀ y ∈ sl, 0 < compare key y → R y x) → (∀ y ∈ sl, compare key y < 0 → R x y) →
          sl.Pairwise R → (sl.take idx ++ x :: sl.drop idx).Pairwise R) := by
  obtain ⟨idx, found, heq, hf⟩ := searchIdx_found h
  refine ⟨idx, found, heq, ?_, hf.hit, ?_⟩
  · cases found with
    | true =>
      obtain ⟨x, hx, hcmp⟩ := hf.hit rfl
      exact iff_of_true rfl ⟨x, List.mem_of_getElem? hx, hcmp⟩
    | false =>
      refine iff_of_false (by decide) fun ⟨x, hx, hcmp⟩ => ?_
      rw [← List.take_append_drop idx sl] at hx
      rcases List.mem_append.mp hx with hx | hx
      · have hpos := hf.below rfl x hx
        omega
      · have hneg := hf.above rfl x hx
        omega
  · intro hnot
    subst hnot
    exact ⟨hf.idx_eq, hf.le_length, fun x hx => hf.insert_ordered hx, fun R x hbelow habove => hf.insert_pairwise hbelow habove⟩

/-- The place of 5 among 1, 3, 3 and 8. -/
theorem smartlist_bsearch_idx_of_numbers :
    searchIdx (fun (key : Int) (member : Int) => key - member) 5 [1, 3, 3, 8] = .ok (3, false) := by
  obtain ⟨idx, found, heq, hiff, -, hplace⟩ := @smartlist_bsearch_idx_exact Int Int (fun key member => key - member) 5
    [1, 3, 3, 8] ⟨[1, 3, 3], [], [8], rfl, by simp, by simp, by simp⟩
  have hfound : found = false := by
    refine Bool.eq_false_iff.mpr fun h => ?_
    obtain ⟨x, hx, hcmp⟩ := hiff.mp h
    simp only [List.mem_cons, List.not_mem_nil, or_false] at hx
    omega
  have hidx : idx = 3 := (hplace hfound).1
  rw [heq, hfound, hidx]
  rfl

end

end Badnet.Container

/-
  Badnet.Lib.Lexicographic — comparing by one thing and then by another.

  A comparison that goes on to a second one where the first finds no difference (`andThen`) orders a set if and only if
  the second orders each class of the first (`totalPreorderOn_andThen_iff`). Lists that are sorted by a comparison that
  orders their members have the same classes in the same order (`SortedFrom.sameClasses`).
-/

import Badnet.Lib.Comparison
import Badnet.Lib.Sorting

namespace Badnet.Lib

variable {α β : Type} {D : α → Prop} {c c' : α → α → Int}

/-! ## Total preorders on a set -/

namespace TotalPreorderOn

section

variable (h : TotalPreorderOn D c)
include h

variable {x y z : α}

theorem refl (hx : D x) : c x x = 0 := by
  have := sign_opposite_iff.mp (h.opposite x x hx hx)
  omega

theorem zero_symm (hx : D x) (hy : D y) (hxy : c x y = 0) : c y x = 0 := by
  have := sign_opposite_iff.mp (h.opposite x y hx hy)
  omega

theorem le_of_not_lt (hx : D x) (hy : D y) (hxy : ¬ c x y < 0) : c y x ≤ 0 := by
  have := sign_opposite_iff.mp (h.opposite x y hx hy)
  omega

/-- Nothing goes between two that are not told apart. -/
theorem zero_trans (hx : D x) (hy : D y) (hz : D z) (hxy : c x y = 0) (hyz : c y z = 0) : c x z = 0 := by
  have hyx := h.zero_symm hx hy hxy
  have hzy := h.zero_symm hy hz hyz
  have hle := h.trans x y z hx hy hz (by omega) (by omega)
  have hge := h.trans z y x hz hy hx (by omega) (by omega)
  have := sign_opposite_iff.mp (h.opposite x z hx hz)
  omega

theorem lt_of_lt_of_le (hx : D x) (hy : D y) (hz : D z) (hxy : c x y < 0) (hyz : c y z ≤ 0) : c x z < 0 := by
  by_contra hnot
  have hzx := h.le_of_not_lt hx hz hnot
  have hyx := h.trans y z x hy hz hx hyz hzx
  have := sign_opposite_iff.mp (h.opposite x y hx hy)
  omega

theorem lt_of_le_of_lt (hx : D x) (hy : D y) (hz : D z) (hxy : c x y ≤ 0) (hyz : c y z < 0) : c x z < 0 := by
  by_contra hnot
  have hzx := h.le_of_not_lt hx hz hnot
  have hzy := h.trans z x y hz hx hy hzx hxy
  have := sign_opposite_iff.mp (h.opposite y z hy hz)
  omega

/-- What is said of one may be said of another that it is not told apart from. -/
theorem zero_congr {x' y' : α} (hx : D x) (hy : D y) (hx' : D x') (hy' : D y') (hxx : c x x' = 0)
    (hyy : c y y' = 0) : c x y = 0 ↔ c x' y' = 0 := by
  have hxx' := h.zero_symm hx hx' hxx
  have hyy' := h.zero_symm hy hy' hyy
  constructor
  · intro hxy
    exact h.zero_trans hx' hx hy' hxx' (h.zero_trans hx hy hy' hxy hyy)
  · intro hxy
    exact h.zero_trans hx hx' hy hxx (h.zero_trans hx' hy' hy hxy hyy')

theorem congr (heq : ∀ x y, D x → D y → c' x y = c x y) : TotalPreorderOn D c' where
  opposite x y hx hy := by
    rw [heq x y hx hy, heq y x hy hx]
    exact h.opposite x y hx hy
  trans x y z hx hy hz := by
    rw [heq x y hx hy, heq y z hy hz, heq x z hx hz]
    exact h.trans x y z hx hy hz

theorem mono {E : α → Prop} (hle : ∀ x, E x → D x) : TotalPreorderOn E c where
  opposite x y hx hy := h.opposite x y (hle x hx) (hle y hy)
  trans x y z hx hy hz := h.trans x y z (hle x hx) (hle y hy) (hle z hz)

end

end TotalPreorderOn

theorem totalPreorderOn_congr (heq : ∀ x y, D x → D y → c' x y = c x y) : TotalPreorderOn D c' ↔ TotalPreorderOn D c :=
  ⟨fun h => h.congr fun x y hx hy => (heq x y hx hy).symm, fun h => h.congr heq⟩

/-- A comparison of what the items stand for. -/
theorem totalPreorderOn_image_iff (f : β → α) (E : β → Prop) :
    TotalPreorderOn E (fun x y => c (f x) (f y)) ↔ TotalPreorderOn (fun a => ∃ x, E x ∧ f x = a) c := by
  constructor
  · intro h
    constructor
    · rintro _ _ ⟨x, hx, rfl⟩ ⟨y, hy, rfl⟩
      exact h.opposite x y hx hy
    · rintro _ _ _ ⟨x, hx, rfl⟩ ⟨y, hy, rfl⟩ ⟨z, hz, rfl⟩
      exact h.trans x y z hx hy hz
  · intro h
    exact ⟨fun x y hx hy => h.opposite _ _ ⟨x, hx, rfl⟩ ⟨y, hy, rfl⟩,
      fun x y z hx hy hz => h.trans _ _ _ ⟨x, hx, rfl⟩ ⟨y, hy, rfl⟩ ⟨z, hz, rfl⟩⟩

/-! ## One comparison and then another -/

def andThen (c c' : α → α → Int) (x y : α) : Int := if c x y ≠ 0 then c x y else c' x y

variable {x y : α}

theorem andThen_of_zero (h : c x y = 0) : andThen c c' x y = c' x y := if_neg fun hne => hne h

theorem andThen_of_ne (h : c x y ≠ 0) : andThen c c' x y = c x y := if_pos h

theorem andThen_assoc (c c' c'' : α → α → Int) : andThen (andThen c c') c'' = andThen c (andThen c' c'') := by
  funext x y
  by_cases h : c x y = 0
  · rw [andThen_of_zero h]
    by_cases h' : c' x y = 0
    · rw [andThen_of_zero h', andThen_of_zero ((andThen_of_zero h).trans h')]
    · have hne : andThen c c' x y ≠ 0 := by rwa [andThen_of_zero h]
      rw [andThen_of_ne h', andThen_of_ne hne, andThen_of_zero h]
  · have hne : andThen c c' x y ≠ 0 := by rwa [andThen_of_ne h]
    rw [andThen_of_ne hne, andThen_of_ne h, andThen_of_ne h]

/-- The class of an item: those that the comparison does not tell from it. -/
def ClassOf (D : α → Prop) (c : α → α → Int) (r : α) (x : α) : Prop := D x ∧ c r x = 0

theorem TotalPreorderOn.zero_of_class (h : TotalPreorderOn D c) {r : α} (hr : D r) (hx : ClassOf D c r x)
    (hy : ClassOf D c r y) : c x y = 0 := h.zero_trans hx.1 hr hy.1 (h.zero_symm hr hx.1 hx.2) hy.2

theorem TotalPreorderOn.andThen (h : TotalPreorderOn D c) (h' : ∀ r, D r → TotalPreorderOn (ClassOf D c r) c') :
    TotalPreorderOn D (andThen c c') where
  opposite x y hx hy := by
    have hopp := h.opposite x y hx hy
    by_cases hxy : c x y = 0
    · rw [andThen_of_zero hxy, andThen_of_zero (h.zero_symm hx hy hxy)]
      exact (h' x hx).opposite x y ⟨hx, h.refl hx⟩ ⟨hy, hxy⟩
    · have hyx : c y x ≠ 0 := fun hyx => hxy (h.zero_symm hy hx hyx)
      rw [andThen_of_ne hxy, andThen_of_ne hyx]
      exact hopp
  trans x y z hx hy hz hxy hyz := by
    by_cases hxy0 : c x y = 0 <;> by_cases hyz0 : c y z = 0
    · rw [andThen_of_zero hxy0] at hxy
      rw [andThen_of_zero hyz0] at hyz
      rw [andThen_of_zero (h.zero_trans hx hy hz hxy0 hyz0)]
      exact (h' y hy).trans x y z ⟨hx, h.zero_symm hx hy hxy0⟩ ⟨hy, h.refl hy⟩ ⟨hz, hyz0⟩ hxy hyz
    · rw [andThen_of_ne hyz0] at hyz
      have hlt := h.lt_of_le_of_lt hx hy hz (Int.le_of_eq hxy0) (by omega)
      rw [andThen_of_ne (Int.ne_of_lt hlt)]
      exact Int.le_of_lt hlt
    · rw [andThen_of_ne hxy0] at hxy
      have hlt := h.lt_of_lt_of_le hx hy hz (by omega) (Int.le_of_eq hyz0)
      rw [andThen_of_ne (Int.ne_of_lt hlt)]
      exact Int.le_of_lt hlt
    · rw [andThen_of_ne hxy0] at hxy
      rw [andThen_of_ne hyz0] at hyz
      have hlt := h.lt_of_lt_of_le hx hy hz (by omega) hyz
      rw [andThen_of_ne (Int.ne_of_lt hlt)]
      exact Int.le_of_lt hlt

/-- The two together order a set if the second orders each class of the first, and only then. -/
theorem totalPreorderOn_andThen_iff (h : TotalPreorderOn D c) :
    TotalPreorderOn D (andThen c c') ↔ ∀ r, D r → TotalPreorderOn (ClassOf D c r) c' := by
  constructor
  · intro hthen r hr
    refine (hthen.mono fun x hx => hx.1).congr fun x y hx hy => ?_
    exact (andThen_of_zero (h.zero_of_class hr hx hy)).symm
  · exact h.andThen

/-! ## Sorted lists -/

variable {l l' a b : List α}

/-- The same classes in the same order. -/
def SameClasses (c : α → α → Int) : List α → List α → Prop := List.Forall₂ fun x y => c x y = 0

/-- How many members of a list come before an item. -/
def rankIn (c : α → α → Int) (l : List α) (x : α) : Nat := l.countP fun y => decide (c y x < 0)

/-- Among the members of the list, the ranks are in the order of the comparison. -/
theorem rankIn_le_iff (h : TotalPreorderOn D c) (hl : ∀ x ∈ l, D x) (hx : x ∈ l) (hy : y ∈ l) :
    c x y ≤ 0 ↔ rankIn c l x ≤ rankIn c l y := by
  constructor
  · intro hxy
    refine List.countP_mono_left fun z hz hzx => ?_
    exact decide_eq_true (h.lt_of_lt_of_le (hl z hz) (hl x hx) (hl y hy) (of_decide_eq_true hzx) hxy)
  · intro hrank
    by_contra hnot
    have hyx : c y x < 0 := by
      have := sign_opposite_iff.mp (h.opposite x y (hl x hx) (hl y hy))
      omega
    -- what comes before `y` comes before `x`, and so does `y` itself
    obtain ⟨front, back, rfl⟩ := List.append_of_mem hy
    have hmono : ∀ part : List α, (∀ z ∈ part, D z) → rankIn c part y ≤ rankIn c part x := fun part hpart =>
      List.countP_mono_left fun z hz hzy =>
        decide_eq_true (h.lt_of_lt_of_le (hpart z hz) (hl y hy) (hl x hx) (of_decide_eq_true hzy) (Int.le_of_lt hyx))
    have hfront := hmono front fun z hz => hl z (List.mem_append_left _ hz)
    have hback := hmono back fun z hz => hl z (List.mem_append_right _ (List.mem_cons_of_mem _ hz))
    have hself : ¬ c y y < 0 := by
      rw [h.refl (hl y hy)]
      decide
    simp only [rankIn, List.countP_append, List.countP_cons, decide_eq_true hyx, decide_eq_false hself] at hrank hfront hback
    simp only [if_true, Bool.false_eq_true, if_false] at hrank
    omega

theorem forall₂_of_map_eq {R : α → α → Prop} {f : α → Nat} (hR : ∀ x ∈ a, ∀ y ∈ b, f x = f y → R x y)
    (h : a.map f = b.map f) : List.Forall₂ R a b := by
  induction a generalizing b with
  | nil =>
    rw [List.map_nil] at h
    rw [List.map_eq_nil_iff.mp h.symm]
    exact .nil
  | cons x a ih =>
    cases b with
    | nil => cases h
    | cons y b =>
      obtain ⟨hxy, hab⟩ := List.cons.inj h
      refine .cons (hR x List.mem_cons_self y List.mem_cons_self hxy) (ih (fun z hz w hw => ?_) hab)
      exact hR z (List.mem_cons_of_mem _ hz) w (List.mem_cons_of_mem _ hw)

/-- However two lists with the same members are sorted, their classes stand in the same order. -/
theorem SortedFrom.sameClasses (h : TotalPreorderOn D c) (hl : ∀ x ∈ l, D x) (hperm : l.Perm l') (ha : SortedFrom c l a)
    (hb : SortedFrom c l' b) : SameClasses c a b := by
  have hmem : ∀ x, x ∈ a ∨ x ∈ b → x ∈ l := by
    rintro x (hx | hx)
    · exact ha.perm.mem_iff.mp hx
    · exact hperm.mem_iff.mpr (hb.perm.mem_iff.mp hx)
  have hsorted : ∀ {m : List α}, (∀ x ∈ m, x ∈ l) → (m.Pairwise fun x y => c x y ≤ 0) →
      (m.map (rankIn c l)).Pairwise fun i j => i ≤ j := by
    intro m hm hpair
    refine List.pairwise_map.mpr (hpair.imp_of_mem fun {x y} hx hy hxy => ?_)
    exact (rankIn_le_iff h hl (hm x hx) (hm y hy)).mp hxy
  have hranks : a.map (rankIn c l) = b.map (rankIn c l) := by
    refine ((ha.perm.trans (hperm.trans hb.perm.symm)).map _).eq_of_pairwise (fun i j _ _ hij hji => Nat.le_antisymm hij hji)
      (hsorted (fun x hx => hmem x (.inl hx)) ha.ordered) (hsorted (fun x hx => hmem x (.inr hx)) hb.ordered)
  refine forall₂_of_map_eq (fun x hx y hy hxy => ?_) hranks
  have hxl := hmem x (.inl hx)
  have hyl := hmem y (.inr hy)
  have hle := (rankIn_le_iff h hl hxl hyl).mpr (Nat.le_of_eq hxy)
  have hge := (rankIn_le_iff h hl hyl hxl).mpr (Nat.le_of_eq hxy.symm)
  have := sign_opposite_iff.mp (h.opposite x y (hl x hxl) (hl y hyl))
  omega

/-! ## Sorting what is ordered -/

/-- A function that sorts every list whose members the comparison orders, as `qsort` does. -/
def IsQsort (c : α → α → Int) (sort : List α → List α) : Prop :=
  ∀ l, TotalPreorderOn (· ∈ l) c → SortedFrom c l (sort l)

theorem pairwise_insertionSort_key (f : α → Nat) (l : List α) :
    (l.insertionSort fun x y => f x ≤ f y).Pairwise fun x y => f x ≤ f y := by
  have : Std.Total fun x y : α => f x ≤ f y := ⟨fun x y => Nat.le_total _ _⟩
  have : IsTrans α fun x y => f x ≤ f y := ⟨fun _ _ _ => Nat.le_trans⟩
  exact List.pairwise_insertionSort _ l

/-- Sorting by a number whose order is finer than the comparison. -/
theorem insertionSort_finer (h : TotalPreorderOn (· ∈ l) c) (f : α → Nat)
    (hf : ∀ x ∈ l, ∀ y ∈ l, f x ≤ f y → rankIn c l x ≤ rankIn c l y) :
    SortedFrom c l (l.insertionSort fun x y => f x ≤ f y) := by
  have hperm := List.perm_insertionSort (fun x y => f x ≤ f y) l
  refine ⟨hperm, (pairwise_insertionSort_key f l).imp_of_mem fun {x y} hx hy hle => ?_⟩
  have hx' := hperm.mem_iff.mp hx
  have hy' := hperm.mem_iff.mp hy
  exact (rankIn_le_iff h (fun _ hz => hz) hx' hy').mpr (hf x hx' y hy' hle)

def rankSort (c : α → α → Int) (l : List α) : List α := l.insertionSort fun x y => rankIn c l x ≤ rankIn c l y

theorem rankSort_isQsort (c : α → α → Int) : IsQsort c (rankSort c) := fun l h =>
  insertionSort_finer h (rankIn c l) fun _ _ _ _ hle => hle

/-- Every order that a sort may give is given by some sort. -/
theorem SortedFrom.exists_qsort (h : SortedFrom c l a) : ∃ sort, IsQsort c sort ∧ sort l = a := by
  classical
  refine ⟨Function.update (rankSort c) l a, fun m hm => ?_, Function.update_self ..⟩
  by_cases heq : m = l
  · subst heq
    rw [Function.update_self]
    exact h
  · rw [Function.update_of_ne heq]
    exact rankSort_isQsort c m hm

/-- The members of one class come out in any order. -/
theorem SortedFrom.exists_arranged (h : TotalPreorderOn (· ∈ l) c) {r : α} {mid : List α} (hr : r ∈ l)
    (hmid : mid.Perm (l.filter fun z => c r z = 0)) :
    ∃ pre post, SortedFrom c l (pre ++ (mid ++ post)) ∧ (∀ z ∈ pre, c r z ≠ 0) ∧ ∀ z ∈ post, c r z ≠ 0 := by
  have hsorted := rankSort_isQsort c l h
  have hmem : ∀ z ∈ rankSort c l, z ∈ l := fun z hz => hsorted.perm.mem_iff.mp hz
  have hopp : ∀ z ∈ l, (c r z < 0 ↔ 0 < c z r) ∧ (0 < c r z ↔ c z r < 0) := fun z hz =>
    sign_opposite_iff.mp (h.opposite r z hr hz)
  have hpre : ∀ z ∈ (rankSort c l).filter (fun z => 0 < c r z), z ∈ l ∧ 0 < c r z := fun z hz =>
    ⟨hmem z (List.mem_filter.mp hz).1, of_decide_eq_true (List.mem_filter.mp hz).2⟩
  have hpost : ∀ z ∈ (rankSort c l).filter (fun z => c r z < 0), z ∈ l ∧ c r z < 0 := fun z hz =>
    ⟨hmem z (List.mem_filter.mp hz).1, of_decide_eq_true (List.mem_filter.mp hz).2⟩
  have hmiddle : ∀ z ∈ mid, z ∈ l ∧ c r z = 0 := fun z hz =>
    ⟨(List.mem_filter.mp (hmid.mem_iff.mp hz)).1, of_decide_eq_true (List.mem_filter.mp (hmid.mem_iff.mp hz)).2⟩
  refine ⟨_, _, ⟨?_, ?_⟩, fun z hz => (hpre z hz).2.ne', fun z hz => (hpost z hz).2.ne⟩
  · have hsplit := List.filter_append_perm (fun z => decide (0 < c r z)) (rankSort c l)
    have hrest := List.filter_append_perm (fun z => decide (c r z = 0)) ((rankSort c l).filter fun z => !decide (0 < c r z))
    rw [List.filter_filter, List.filter_filter] at hrest
    have hzero : (rankSort c l).filter (fun z => decide (c r z = 0) && !decide (0 < c r z)) =
        (rankSort c l).filter fun z => c r z = 0 := by
      refine List.filter_congr fun z _ => ?_
      by_cases hz : c r z = 0 <;> simp [hz]
    have hneg : (rankSort c l).filter (fun z => (!decide (c r z = 0)) && !decide (0 < c r z)) =
        (rankSort c l).filter fun z => c r z < 0 := by
      refine List.filter_congr fun z _ => ?_
      rw [← decide_not, ← decide_not, ← Bool.decide_and]
      exact decide_eq_decide.mpr (by omega)
    rw [hzero, hneg] at hrest
    have hmid' := hmid.trans (hsorted.perm.symm.filter _)
    exact (((hmid'.append_right _).trans hrest).append_left _).trans (hsplit.trans hsorted.perm)
  · refine List.pairwise_append.mpr ⟨hsorted.ordered.filter _, List.pairwise_append.mpr
      ⟨List.pairwise_of_forall_mem_list fun x hx y hy => ?_, hsorted.ordered.filter _, fun x hx y hy => ?_⟩, fun x hx y hy => ?_⟩
    · obtain ⟨hxl, hx⟩ := hmiddle x hx
      obtain ⟨hyl, hy⟩ := hmiddle y hy
      exact Int.le_of_eq (h.zero_trans hxl hr hyl (h.zero_symm hr hxl hx) hy)
    · obtain ⟨hxl, hx⟩ := hmiddle x hx
      obtain ⟨hyl, hy⟩ := hpost y hy
      exact h.trans x r y hxl hr hyl (Int.le_of_eq (h.zero_symm hr hxl hx)) (Int.le_of_lt hy)
    · obtain ⟨hxl, hx⟩ := hpre x hx
      have hxr := ((hopp x hxl).2.mp hx)
      rcases List.mem_append.mp hy with hy | hy
      · obtain ⟨hyl, hy⟩ := hmiddle y hy
        exact h.trans x r y hxl hr hyl (Int.le_of_lt hxr) (Int.le_of_eq hy)
      · obtain ⟨hyl, hy⟩ := hpost y hy
        exact h.trans x r y hxl hr hyl (Int.le_of_lt hxr) (Int.le_of_lt hy)

end Badnet.Lib

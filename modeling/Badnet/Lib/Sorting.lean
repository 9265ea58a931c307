/-
  Badnet.Lib.Sorting — sorting with a comparison that looks at a key of the members only.

  `qsort` puts the members in some order in which the keys do not decrease (`IsSort`). Members that all have different
  keys come out the same by any sort and from any order (`sorted_filter`); two members with equal keys can come out side
  by side either way round (`exists_swapped`), but a stable sort leaves them as they stand (`insertionSort_stable`).
-/

import Mathlib.Data.List.Pairwise
import Mathlib.Data.List.Sort

namespace Badnet.Lib

variable {α κ : Type} [LinearOrder κ] {cmp : α → α → Int} {key : α → κ} {l l' a b : List α}

/-- The comparison is that of the keys. -/
def Compares (cmp : α → α → Int) (key : α → κ) : Prop := ∀ x y, cmp x y ≤ 0 ↔ key x ≤ key y

structure SortedFrom (cmp : α → α → Int) (l a : List α) : Prop where
  perm : a.Perm l
  ordered : a.Pairwise fun x y => cmp x y ≤ 0

/-- A function that sorts, as `qsort` does. -/
def IsSort (cmp : α → α → Int) (sort : List α → List α) : Prop := ∀ l, SortedFrom cmp l (sort l)

theorem SortedFrom.keys (h : SortedFrom cmp l a) (hcmp : Compares cmp key) : a.Pairwise fun x y => key x ≤ key y :=
  h.ordered.imp fun {x y} hle => (hcmp x y).mp hle

/-- Members that have different keys come out the same. -/
theorem sorted_filter {p : α → Bool} (hcmp : Compares cmp key) (hl : l.Perm l') (ha : SortedFrom cmp l a)
    (hb : SortedFrom cmp l' b) (hkey : ∀ x ∈ l, ∀ y ∈ l, p x = true → p y = true → key x = key y → x = y) :
    a.filter p = b.filter p := by
  have hperm : (a.filter p).Perm (b.filter p) := (ha.perm.trans (hl.trans hb.perm.symm)).filter p
  refine hperm.eq_of_pairwise (fun x y hx hy hxy hyx => ?_) ((ha.keys hcmp).filter p) ((hb.keys hcmp).filter p)
  obtain ⟨hxa, hpx⟩ := List.mem_filter.mp hx
  obtain ⟨hyb, hpy⟩ := List.mem_filter.mp hy
  exact hkey x (ha.perm.mem_iff.mp hxa) y (hl.symm.mem_iff.mp (hb.perm.mem_iff.mp hyb)) hpx hpy (le_antisymm hxy hyx)

/-- When all keys are different, there is one way to sort. -/
theorem SortedFrom.unique (hcmp : Compares cmp key) (hl : l.Perm l') (ha : SortedFrom cmp l a) (hb : SortedFrom cmp l' b)
    (hkey : l.Pairwise fun x y => key x ≠ key y) : a = b := by
  have hsymm : Std.Symm fun x y : α => key x ≠ key y := ⟨fun _ _ h => h.symm⟩
  have hsame : ∀ x ∈ l, ∀ y ∈ l, key x = key y → x = y := by
    intro x hx y hy heq
    by_contra hne
    exact hkey.forall hx hy hne heq
  have hfilter := @sorted_filter α κ _ cmp key l l' a b (fun _ => true) hcmp hl ha hb fun x hx y hy _ _ => hsame x hx y hy
  rwa [List.filter_true, List.filter_true] at hfilter

theorem Compares.total (hcmp : Compares cmp key) : Std.Total fun x y : α => cmp x y ≤ 0 := by
  constructor
  intro x y
  rw [hcmp, hcmp]
  exact le_total _ _

theorem Compares.isTrans (hcmp : Compares cmp key) : IsTrans α fun x y => cmp x y ≤ 0 := by
  constructor
  intro x y z hxy hyz
  rw [hcmp] at *
  exact le_trans hxy hyz

theorem insertionSort_isSort [DecidableRel fun x y => cmp x y ≤ 0] (hcmp : Compares cmp key) :
    IsSort cmp (List.insertionSort fun x y => cmp x y ≤ 0) := by
  have := hcmp.total
  have := hcmp.isTrans
  exact fun l => ⟨List.perm_insertionSort _ l, List.pairwise_insertionSort _ l⟩

/-- Every order that a sort may give is given by some sort. -/
theorem SortedFrom.exists_sort (hcmp : Compares cmp key) (h : SortedFrom cmp l a) :
    ∃ sort, IsSort cmp sort ∧ sort l = a := by
  classical
  refine ⟨Function.update (List.insertionSort fun x y => cmp x y ≤ 0) l a, fun m => ?_, Function.update_self ..⟩
  by_cases hm : m = l
  · subst hm
    rw [Function.update_self]
    exact h
  · rw [Function.update_of_ne hm]
    exact insertionSort_isSort hcmp m

/-- Two members with equal keys come out side by side, either way round. -/
theorem exists_swapped (hcmp : Compares cmp key) {x y : α} {rest : List α} (hl : l.Perm (x :: y :: rest))
    (hkey : key x = key y) :
    ∃ pre post, SortedFrom cmp l (pre ++ x :: y :: post) ∧ SortedFrom cmp l (pre ++ y :: x :: post) := by
  classical
  let sorted := rest.insertionSort fun x y => cmp x y ≤ 0
  let below : α → Bool := fun z => key z < key x
  have hsorted : SortedFrom cmp rest sorted := insertionSort_isSort hcmp rest
  have hsplit : (sorted.filter below ++ sorted.filter fun z => !below z).Perm rest :=
    (List.filter_append_perm below sorted).trans hsorted.perm
  have hpre : ∀ z ∈ sorted.filter below, key z < key x := fun z hz => of_decide_eq_true (List.mem_filter.mp hz).2
  have hpost : ∀ z ∈ sorted.filter (fun z => !below z), key x ≤ key z := by
    intro z hz
    simpa [below] using (List.mem_filter.mp hz).2
  have hordered : ∀ u v : α, key u = key x → key v = key x →
      (sorted.filter below ++ u :: v :: sorted.filter fun z => !below z).Pairwise fun x y => cmp x y ≤ 0 := by
    intro u v hu hv
    refine List.pairwise_append.mpr ⟨hsorted.ordered.filter _, List.pairwise_cons.mpr ⟨fun z hz => ?_,
      List.pairwise_cons.mpr ⟨fun z hz => ?_, hsorted.ordered.filter _⟩⟩, fun w hw z hz => ?_⟩
    · rw [hcmp, hu]
      rcases List.mem_cons.mp hz with rfl | hz
      · exact hv.ge
      · exact hpost z hz
    · rw [hcmp, hv]
      exact hpost z hz
    · rw [hcmp]
      refine le_trans (hpre w hw).le ?_
      rcases List.mem_cons.mp hz with rfl | hz
      · exact hu.ge
      rcases List.mem_cons.mp hz with rfl | hz
      · exact hv.ge
      · exact hpost z hz
  have hmiddle : (x :: y :: (sorted.filter below ++ sorted.filter fun z => !below z)).Perm l :=
    ((hsplit.cons y).cons x).trans hl.symm
  refine ⟨_, _, ⟨?_, hordered x y rfl hkey.symm⟩, ⟨?_, hordered y x hkey.symm rfl⟩⟩
  · exact (List.perm_middle.trans (List.perm_middle.cons x)).trans hmiddle
  · exact ((List.perm_middle.trans (List.perm_middle.cons y)).trans (List.Perm.swap x y _)).trans hmiddle

/-- Members with equal keys stay as they stand. -/
theorem insertionSort_stable [DecidableRel fun x y => cmp x y ≤ 0] (hcmp : Compares cmp key) (k : κ) (l : List α) :
    (l.insertionSort fun x y => cmp x y ≤ 0).filter (key · = k) = l.filter (key · = k) := by
  have := hcmp.total
  have := hcmp.isTrans
  have hsub : List.Sublist (l.filter (key · = k)) (l.insertionSort fun x y => cmp x y ≤ 0) := by
    refine List.sublist_insertionSort (List.pairwise_of_forall_mem_list fun x hx y hy => ?_) List.filter_sublist
    have hx := of_decide_eq_true (List.mem_filter.mp hx).2
    have hy := of_decide_eq_true (List.mem_filter.mp hy).2
    rw [hcmp, hx, hy]
  have hlen : (l.filter (key · = k)).length = ((l.insertionSort fun x y => cmp x y ≤ 0).filter (key · = k)).length :=
    ((List.perm_insertionSort _ l).filter _).length_eq.symm
  have hsub' := hsub.filter (key · = k)
  simp only [List.filter_filter, Bool.and_self] at hsub'
  exact (hsub'.eq_of_length hlen).symm

omit [LinearOrder κ] in
/-- A test that holds of a first part of a list only. -/
theorem takeWhile_eq_filter {p : α → Bool} (h : l.Pairwise fun x y => p y = true → p x = true) :
    l.takeWhile p = l.filter p := by
  induction l with
  | nil => rfl
  | cons a l ih =>
    obtain ⟨ha, hl⟩ := List.pairwise_cons.mp h
    by_cases hp : p a = true
    · rw [List.takeWhile_cons_of_pos hp, List.filter_cons_of_pos hp, ih hl]
    · have hnone : l.filter p = [] := List.filter_eq_nil_iff.mpr fun b hb hpb => hp (ha b hb hpb)
      rw [List.takeWhile_cons_of_neg hp, List.filter_cons_of_neg hp, hnone]

omit [LinearOrder κ] in
theorem dropWhile_eq_filter {p : α → Bool} (h : l.Pairwise fun x y => p y = true → p x = true) :
    l.dropWhile p = l.filter fun x => !p x := by
  induction l with
  | nil => rfl
  | cons a l ih =>
    obtain ⟨ha, hl⟩ := List.pairwise_cons.mp h
    by_cases hp : p a = true
    · rw [List.dropWhile_cons_of_pos hp, List.filter_cons_of_neg (by simp [hp]), ih hl]
    · have hall : ∀ x ∈ a :: l, (!p x) = true := by
        rintro x (_ | ⟨_, hx⟩)
        · simpa using hp
        · simpa using fun hpx => hp (ha x hx hpx)
      rw [List.dropWhile_cons_of_neg hp, List.filter_eq_self.mpr hall]

end Badnet.Lib

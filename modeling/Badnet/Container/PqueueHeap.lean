/-
  Badnet.Container.PqueueHeap — whether the heaps of `smartlist_pqueue_*` stay heaps (`lib/container/smartlist.c`).

  `smartlist_pqueue_remove` puts the last item in the place of the one removed and moves it down only. So over any
  sequence of operations `smartlist_pqueue_assert_ok` holds exactly if every removal takes the top, the last item or one
  whose parent is not greater than the last item, and no item is added twice (`heap_stays_ok_iff`).
-/

import Badnet.Container.Pqueue
import Badnet.Lib.Comparison
import Badnet.Lib.Heap
import Badnet.Lib.Run

namespace Badnet.Container

open Lib

variable {α : Type} [DecidableEq α]

/-! ## Sequences of operations -/

/-- `MAX_CAPACITY`, which is `INT_MAX`. -/
def MAX_CAPACITY : Nat := 2147483647

inductive PqueueOp (α : Type) where
  | add (item : α)
  | pop
  | remove (item : α)

section

variable (compare : α → α → Int)

section

variable (q : Pqueue α)

/-- None is a failed assertion. `smartlist_add` asserts that there is room. -/
def pqueueStep : PqueueOp α → Option (Pqueue α)
  | .add item => if q.list.length + 1 ≤ MAX_CAPACITY then some (smartlistPqueueAdd compare q item) else none
  | .pop => (smartlistPqueuePop compare q).map (·.2)
  | .remove item => smartlistPqueueRemove compare q item

def emptyPqueue : Pqueue α := ⟨[], fun _ => -1⟩

/-- That no assertion of `smartlist_pqueue_assert_ok` fails. -/
def AssertOk : Prop :=
  ∀ i < q.list.length, ∀ x ∈ q.list[i]?, (0 < i → ∀ p ∈ q.list[(i - 1) / 2]?, compare p x ≤ 0) ∧ q.idx x = i

/-- That a pop gives a least item. -/
def PopsLeast : Prop :=
  ∀ r ∈ smartlistPqueuePop compare q, r.1 ∈ q.list ∧ ∀ x ∈ q.list, compare r.1 x ≤ 0

def HeapOk : Prop := AssertOk compare q ∧ PopsLeast compare q

/-- The last item may stand in the place `i`. -/
def Refills (i : Nat) : Prop :=
  i + 1 = q.list.length ∨ i = 0 ∨ ∀ p ∈ q.list[(i - 1) / 2]?, ∀ last ∈ q.list.getLast?, compare p last ≤ 0

/-- What an operation has to meet. -/
def Fits : PqueueOp α → Prop
  | .add item => item ∉ q.list
  | .pop => True
  | .remove item => Refills compare q (q.idx item).toNat

end

end

instance (compare : α → α → Int) (q : Pqueue α) : Decidable (AssertOk compare q) :=
  inferInstanceAs (Decidable (∀ i < q.list.length, ∀ x ∈ q.list[i]?, _))

instance (compare : α → α → Int) (q : Pqueue α) : Decidable (PopsLeast compare q) :=
  inferInstanceAs (Decidable (∀ r ∈ smartlistPqueuePop compare q, _))

instance (compare : α → α → Int) (q : Pqueue α) (op : PqueueOp α) : Decidable (Fits compare q op) :=
  match op with
  | .add item => inferInstanceAs (Decidable (item ∉ q.list))
  | .pop => inferInstanceAs (Decidable True)
  | .remove _ => inferInstanceAs (Decidable (_ ∨ _ ∨ _))

/-! ## The order of the list -/

/-- The list as an array. -/
def Pqueue.at (q : Pqueue α) (i : Nat) : Option α := q.list[i]?

variable {q : Pqueue α} {i : Nat} {last : α}

omit [DecidableEq α] in
theorem at_some (hi : i < q.list.length) : ∃ x, q.at i = some x :=
  ⟨q.list[i], List.getElem?_eq_getElem hi⟩

omit [DecidableEq α] in
theorem lt_of_at {x : α} (h : q.at i = some x) : i < q.list.length :=
  (List.getElem?_eq_some_iff.mp h).1

omit [DecidableEq α] in
theorem at_parent_of_at (h : q.at i ≠ none) : q.at (parent i) ≠ none := by
  obtain ⟨x, hx⟩ := Option.ne_none_iff_exists'.mp h
  have hlt := lt_of_at hx
  obtain ⟨p, hp⟩ := @at_some _ q (parent i) (by unfold parent; omega)
  rw [hp]
  exact Option.some_ne_none p

theorem at_exchange {j : Nat} (hi : i < q.list.length) (hj : j < q.list.length) :
    (q.exchange i j).at = exchanged q.at i j := by
  funext k
  have hlist : (q.exchange i j).list = (q.list.set i q.list[j]).set j q.list[i] := by
    unfold Pqueue.exchange
    rw [List.getElem?_eq_getElem hi, List.getElem?_eq_getElem hj]
    simp only [updateIdx_list]
  have hk : (q.exchange i j).at k = ((q.list.set i q.list[j]).set j q.list[i])[k]? := by rw [← hlist]; rfl
  have hfi : q.at i = some q.list[i] := List.getElem?_eq_getElem hi
  have hfj : q.at j = some q.list[j] := List.getElem?_eq_getElem hj
  rw [hk, exchanged, hfi, hfj]
  by_cases hkj : k = j
  · rw [hkj, List.getElem?_set_self (by rwa [List.length_set]), if_pos rfl]
    by_cases hji : j = i
    · rw [if_pos hji]
      simp only [hji]
    · rw [if_neg hji]
  rw [List.getElem?_set_ne (Ne.symm hkj), if_neg hkj]
  by_cases hki : k = i
  · rw [hki, List.getElem?_set_self hi, if_pos rfl]
  · rw [List.getElem?_set_ne (Ne.symm hki), if_neg hki]
    rfl

theorem exchange_perm (q : Pqueue α) (i j : Nat) : (q.exchange i j).list.Perm q.list := by
  unfold Pqueue.exchange
  cases hi : q.list[i]? with
  | none => rfl
  | some a =>
    cases hj : q.list[j]? with
    | none => rfl
    | some b =>
      obtain ⟨hi', rfl⟩ := List.getElem?_eq_some_iff.mp hi
      obtain ⟨hj', rfl⟩ := List.getElem?_eq_some_iff.mp hj
      simp only [updateIdx_list]
      exact List.set_set_perm hi' hj'

theorem siftUp_perm (compare : α → α → Int) (q : Pqueue α) (i : Nat) : (siftUp compare q i).list.Perm q.list := by
  fun_induction siftUp compare q i with
  | case1 q => rfl
  | case2 q i hne x p hx hp hlt ih => exact ih.trans (exchange_perm ..)
  | case3 => rfl
  | case4 => rfl

/-! ## Moving an item -/

variable {compare : α → α → Int}

theorem siftUp_heap (hc : TotalPreorder compare)
    (h : UpReady (NotGreater compare) q.at i) : Heap (NotGreater compare) (siftUp compare q i).at := by
  have := hc.isTrans
  fun_induction siftUp compare q i with
  | case1 q => exact h.finish fun hpos => absurd hpos (Nat.lt_irrefl 0)
  | case2 q i hne x p hp hx hlt ih =>
    have hmove := h.move (Nat.pos_of_ne_zero hne) hx hp (Int.le_of_lt hlt)
    have hat := at_exchange (lt_of_at hp) (lt_of_at hx)
    exact ih (hat ▸ hmove)
  | case3 q i hne x p hp hx hlt =>
    refine h.finish fun _ a b ha hb => ?_
    obtain rfl : p = a := Option.some.inj (hp.symm.trans ha)
    obtain rfl : x = b := Option.some.inj (hx.symm.trans hb)
    exact hc.notGreater_of_not_lt hlt
  | case4 q i hne hnone => exact h.finish fun _ a b ha hb => absurd ha (hnone b a hb)

theorem child_iff {c : Nat} : 0 < c ∧ parent c = i ↔ c = 2 * i + 1 ∨ c = 2 * i + 2 := by
  unfold parent
  omega

omit [DecidableEq α] in
/-- The best of an item and its children is one of them, and not greater than any. -/
theorem bestIdx_least (hc : TotalPreorder compare) (hlen : q.list.length ≤ MAX_CAPACITY)
    {x : α} (hx : q.at i = some x) :
    ∃ y, q.at (bestIdx compare q.list i) = some y ∧ NotGreater compare y x ∧
      (bestIdx compare q.list i = i ∨ 0 < bestIdx compare q.list i ∧ parent (bestIdx compare q.list i) = i) ∧
      ∀ c z, 0 < c → parent c = i → q.at c = some z → NotGreater compare y z := by
  have := hc.isTrans
  by_cases hmax : MAX_PARENT_IDX < i
  · have hbest : bestIdx compare q.list i = i := if_pos hmax
    rw [hbest]
    refine ⟨x, hx, hc.refl x, .inl rfl, fun c z hpos hpar hz => ?_⟩
    have hlt := lt_of_at hz
    have hci := child_iff.mp ⟨hpos, hpar⟩
    simp only [MAX_PARENT_IDX, MAX_CAPACITY] at hmax hlen
    omega
  cases hleft : q.at (2 * i + 1) with
  | none =>
    have hbest : bestIdx compare q.list i = i := by
      rw [bestIdx, if_neg hmax]
      simp only [show q.list[i]? = some x from hx, show q.list[2 * i + 1]? = none from hleft]
    rw [hbest]
    refine ⟨x, hx, hc.refl x, .inl rfl, fun c z hpos hpar hz => ?_⟩
    have hlt := lt_of_at hz
    have hge : q.list.length ≤ 2 * i + 1 := List.getElem?_eq_none_iff.mp hleft
    have hci := child_iff.mp ⟨hpos, hpar⟩
    omega
  | some left =>
    -- the better one of the item and its left child
    obtain ⟨best, y, hbest, hy, hplace, hyx, hyl⟩ : ∃ best y,
        (if compare x left < 0 then i else 2 * i + 1) = best ∧ q.at best = some y ∧
          (best = i ∨ best = 2 * i + 1) ∧ NotGreater compare y x ∧ NotGreater compare y left := by
      by_cases hlt : compare x left < 0
      · exact ⟨i, x, if_pos hlt, hx, .inl rfl, hc.refl x, Int.le_of_lt hlt⟩
      · exact ⟨2 * i + 1, left, if_neg hlt, hleft, .inr rfl, hc.notGreater_of_not_lt hlt, hc.refl left⟩
    have hchildren : ∀ {w : α}, NotGreater compare w left → (∀ z, q.at (2 * i + 2) = some z → NotGreater compare w z) →
        ∀ c z, 0 < c → parent c = i → q.at c = some z → NotGreater compare w z := by
      intro w hl hr c z hpos hpar hz
      rcases child_iff.mp ⟨hpos, hpar⟩ with rfl | rfl
      · rw [hleft] at hz
        cases hz
        exact hl
      · exact hr z hz
    have hstay : best = i ∨ 0 < best ∧ parent best = i :=
      hplace.imp id fun h => child_iff.mpr (.inl h)
    cases hright : q.at (2 * i + 2) with
    | none =>
      have heq : bestIdx compare q.list i = best := by
        rw [bestIdx, if_neg hmax]
        simp only [show q.list[i]? = some x from hx, show q.list[2 * i + 1]? = some left from hleft, hbest,
          show q.list[2 * i + 2]? = none from hright]
      rw [heq]
      exact ⟨y, hy, hyx, hstay, hchildren hyl fun z hz => absurd (hright.symm.trans hz) (by simp)⟩
    | some right =>
      have heq : bestIdx compare q.list i = if compare right y < 0 then 2 * i + 2 else best := by
        rw [bestIdx, if_neg hmax]
        simp only [show q.list[i]? = some x from hx, show q.list[2 * i + 1]? = some left from hleft, hbest,
          show q.list[2 * i + 2]? = some right from hright, show q.list[best]? = some y from hy]
      rw [heq]
      by_cases hlt : compare right y < 0
      · have hry : NotGreater compare right y := Int.le_of_lt hlt
        rw [if_pos hlt]
        refine ⟨right, hright, IsTrans.trans _ _ _ hry hyx, .inr (child_iff.mpr (.inr rfl)),
          hchildren (IsTrans.trans _ _ _ hry hyl) fun z hz => ?_⟩
        rw [hright] at hz
        cases hz
        exact hc.refl right
      · rw [if_neg hlt]
        refine ⟨y, hy, hyx, hstay, hchildren hyl fun z hz => ?_⟩
        rw [hright] at hz
        cases hz
        exact hc.notGreater_of_not_lt hlt

theorem smartlistHeapify_heap (hc : TotalPreorder compare) (hlen : q.list.length ≤ MAX_CAPACITY) (hi : i < q.list.length)
    (h : DownReady (NotGreater compare) q.at i) :
    Heap (NotGreater compare) (smartlistHeapify compare q i).at := by
  fun_induction smartlistHeapify compare q i with
  | case1 q i hstop =>
    obtain ⟨x, hx⟩ := at_some hi
    obtain ⟨y, hy, -, -, hleast⟩ := bestIdx_least hc hlen hx
    rw [hstop, hx] at hy
    cases hy
    refine h.finish fun c hpos hpar a b ha hb => ?_
    rw [hpar, hx] at ha
    cases ha
    exact hleast c b hpos hpar hb
  | case2 q i hmove ih =>
    obtain ⟨x, hx⟩ := at_some hi
    obtain ⟨y, hy, hyx, hplace, hleast⟩ := bestIdx_least hc hlen hx
    obtain ⟨hpos, hpar⟩ := hplace.resolve_left hmove
    have hdown := h.move hpos hpar hx hy hyx hleast
    rw [← at_exchange hi (lt_of_at hy)] at hdown
    rw [Pqueue.length_exchange] at ih
    exact ih hlen (lt_of_at hy) hdown

/-! ## The operations -/

theorem add_heap (hc : TotalPreorder compare) (h : Heap (NotGreater compare) q.at) (item : α) :
    Heap (NotGreater compare) (smartlistPqueueAdd compare q item).at := by
  have hat : ∀ k, (Pqueue.updateIdx { q with list := q.list ++ [item] } q.list.length).at k =
      (q.list ++ [item])[k]? := by
    intro k
    rw [Pqueue.at, updateIdx_list]
  refine siftUp_heap hc ⟨fun i hpos hne a b ha hb => ?_, fun _ i hpos hpar g b _ hb => ?_⟩
  · rw [hat] at ha hb
    have hi := (List.getElem?_eq_some_iff.mp hb).1
    have hlt := parent_lt hpos
    rw [List.length_append, List.length_singleton] at hi
    rw [List.getElem?_append_left (by omega)] at ha hb
    exact h i hpos a b ha hb
  · rw [hat] at hb
    have hi := (List.getElem?_eq_some_iff.mp hb).1
    have hlt := parent_lt hpos
    rw [List.length_append, List.length_singleton] at hi
    omega

omit [DecidableEq α] in
/-- What is left when the last item has taken the place `i`. -/
theorem at_filled {list : List α} (hlast : list.getLast? = some last) {k : Nat} (hi : i < list.length) :
    ((list.getLast?.elim list (list.set i ·)).dropLast)[k]? =
      if k + 1 < list.length then if k = i then some last else list[k]? else none := by
  rw [hlast, Option.elim_some, List.getElem?_dropLast, List.length_set]
  by_cases hk : k + 1 < list.length
  · rw [if_pos hk, if_pos (by omega)]
    by_cases hki : k = i
    · rw [if_pos hki, hki, List.getElem?_set_self hi]
    · rw [if_neg hki, List.getElem?_set_ne (Ne.symm hki)]
  · rw [if_neg hk, if_neg (by omega)]

omit [DecidableEq α] in
/-- Everything is in order but what now stands in the place `i`. -/
theorem filled_ready (hc : TotalPreorder compare) {r : Pqueue α} (h : Heap (NotGreater compare) q.at)
    (hi : i < q.list.length)
    (hr : ∀ k, r.at k = if k + 1 < q.list.length then if k = i then some last else q.at k else none)
    (hfits : ∀ p, 0 < i → q.at (parent i) = some p → NotGreater compare p last) :
    DownReady (NotGreater compare) r.at i := by
  have := hc.isTrans
  have hkept : ∀ {k x}, k ≠ i → r.at k = some x → q.at k = some x := by
    intro k x hne hx
    rw [hr, if_neg hne] at hx
    by_cases hk : k + 1 < q.list.length
    · rwa [if_pos hk] at hx
    · rw [if_neg hk] at hx
      cases hx
  constructor
  · intro k hpos hpar a b ha hb
    have ha := hkept hpar ha
    by_cases hki : k = i
    · rw [hr, if_pos hki] at hb
      by_cases hk : k + 1 < q.list.length
      · rw [if_pos hk] at hb
        cases hb
        exact hfits a (hki ▸ hpos) (hki ▸ ha)
      · rw [if_neg hk] at hb
        cases hb
    · exact h k hpos a b ha (hkept hki hb)
  · intro hpos k hk hpar g b hg hb
    have hup := parent_lt hpos
    have hdown := parent_lt hk
    obtain ⟨x, hx⟩ := at_some hi
    have hgx := h i hpos g x (hkept (by omega) hg) hx
    exact IsTrans.trans _ _ _ hgx (h k hk x b (hpar ▸ hx) (hkept (by omega) hb))

/-- An item that is below the parent of its place stays there: it is below the children too. -/
theorem stuck (hc : TotalPreorder compare) {r : Pqueue α} (h : Heap (NotGreater compare) q.at)
    (hlen : r.list.length ≤ MAX_CAPACITY) {p : α} (hi : i + 1 < q.list.length)
    (hr : ∀ k, r.at k = if k + 1 < q.list.length then if k = i then some last else q.at k else none) (hpos : 0 < i)
    (hp : q.at (parent i) = some p) (hnot : ¬NotGreater compare p last) :
    ¬Heap (NotGreater compare) (smartlistHeapify compare r i).at := by
  have := hc.isTrans
  have hri : r.at i = some last := by rw [hr, if_pos hi, if_pos rfl]
  have hup := parent_lt hpos
  have hrp : r.at (parent i) = some p := by rw [hr, if_pos (by omega), if_neg (by omega), hp]
  obtain ⟨y, hy, hyl, hplace, -⟩ := bestIdx_least hc hlen hri
  have hstay : bestIdx compare r.list i = i := by
    refine hplace.resolve_right fun hchild => hnot ?_
    have hdown := parent_lt hchild.1
    rw [hr] at hy
    by_cases hk : bestIdx compare r.list i + 1 < q.list.length
    · rw [if_pos hk, if_neg (by omega)] at hy
      obtain ⟨x, hx⟩ := @at_some _ q i (by omega)
      have hxy := h _ hchild.1 x y (by rw [hchild.2]; exact hx) hy
      exact IsTrans.trans _ _ _ (h i hpos p x hp hx) (IsTrans.trans _ _ _ hxy hyl)
    · rw [if_neg hk] at hy
      cases hy
  rw [smartlistHeapify, if_pos hstay]
  exact fun hheap => hnot (hheap i hpos p last hrp hri)

/-- Taking an item out leaves a heap exactly if the last item may stand in its place. -/
theorem takeOut_heap_iff (hc : TotalPreorder compare) (h : Heap (NotGreater compare) q.at)
    (hlen : q.list.length ≤ MAX_CAPACITY) (item : α) (hi : i < q.list.length) :
    Heap (NotGreater compare) (takeOut compare q item i).at ↔ Refills compare q i := by
  obtain ⟨last, hlast⟩ : ∃ last, q.list.getLast? = some last :=
    Option.ne_none_iff_exists'.mp fun hnone => by
      rw [List.getLast?_eq_none_iff.mp hnone] at hi
      exact absurd hi (Nat.not_lt_zero i)
  let left : Pqueue α :=
    { list := (q.list.getLast?.elim q.list (q.list.set i ·)).dropLast, idx := Function.update q.idx item (-1) }
  have hleft : left.list.length = q.list.length - 1 := by simp [left, hlast]
  have htake : takeOut compare q item i =
      if i = left.list.length then left else smartlistHeapify compare (left.updateIdx i) i := rfl
  have hat : ∀ k, left.at k = if k + 1 < q.list.length then if k = i then some last else q.at k else none :=
    fun k => at_filled hlast hi
  rw [htake]
  by_cases hend : i = left.list.length
  · rw [if_pos hend]
    refine iff_of_true (fun k hpos a b ha hb => ?_) (.inl (by omega))
    have hup := parent_lt hpos
    rw [hat] at ha hb
    by_cases hk : k + 1 < q.list.length
    · rw [if_pos hk, if_neg (by omega)] at hb
      rw [if_pos (by omega), if_neg (by omega)] at ha
      exact h k hpos a b ha hb
    · rw [if_neg hk] at hb
      cases hb
  · rw [if_neg hend]
    have hr : ∀ k, (left.updateIdx i).at k =
        if k + 1 < q.list.length then if k = i then some last else q.at k else none := by
      intro k
      rw [← hat, Pqueue.at, updateIdx_list]
      rfl
    have hlen' : (left.updateIdx i).list.length = q.list.length - 1 := by rw [updateIdx_list, hleft]
    have hiff : Refills compare q i ↔ ∀ p, 0 < i → q.at (parent i) = some p → NotGreater compare p last := by
      constructor
      · rintro (hends | hzero | hle) p hpos hp
        · omega
        · omega
        · exact hle p hp last hlast
      · intro hle
        by_cases hzero : i = 0
        · exact .inr (.inl hzero)
        · refine .inr (.inr fun p hp last' hlast' => ?_)
          obtain rfl : last = last' := Option.some.inj (hlast.symm.trans hlast')
          exact hle p (Nat.pos_of_ne_zero hzero) hp
    rw [hiff]
    constructor
    · intro hheap p hpos hp
      by_contra hnot
      exact stuck hc h (by omega) (by omega) hr hpos hp hnot hheap
    · intro hle
      exact smartlistHeapify_heap hc (by omega) (by omega) (filled_ready hc h hi hr hle)

/-! ## Runs -/

omit [DecidableEq α] in
theorem assertOk_iff (h : Placed q) : AssertOk compare q ↔ Heap (NotGreater compare) q.at := by
  constructor
  · intro hok i hpos p x hp hx
    exact (hok i (lt_of_at hx) x hx).1 hpos p hp
  · intro hheap i _ x hx
    exact ⟨fun hpos p hp => hheap i hpos p x hp hx, h.inside i x hx⟩

omit [DecidableEq α] in
theorem AssertOk.nodup (h : AssertOk compare q) : q.list.Nodup := by
  rw [List.nodup_iff_getElem?_ne_getElem?]
  intro i j hij hj heq
  obtain ⟨x, hx⟩ := at_some hj
  have hi := (h i (by omega) x (heq.trans hx)).2
  have hj := (h j hj x hx).2
  omega

theorem popsLeast (hc : TotalPreorder compare) (h : Heap (NotGreater compare) q.at) : PopsLeast compare q := by
  rintro ⟨top, q'⟩ hpop
  unfold smartlistPqueuePop at hpop
  split at hpop
  next => cases hpop
  next t rest hlist =>
    obtain ⟨rfl, -⟩ := Prod.mk.inj (Option.some.inj hpop)
    have hzero : q.at 0 = some t := by
      rw [Pqueue.at, hlist]
      rfl
    refine ⟨List.mem_of_getElem? hzero, fun x hx => ?_⟩
    obtain ⟨i, hi⟩ := List.mem_iff_getElem?.mp hx
    have := hc.isTrans
    have : Std.Refl (NotGreater compare) := ⟨hc.refl⟩
    exact h.top_le (fun i => at_parent_of_at) hzero i x hi

/-- What goes with the order of the heap: the positions, and the room. -/
structure HeapInv (q : Pqueue α) : Prop where
  placed : Placed q
  room : q.list.length ≤ MAX_CAPACITY

theorem heapOk_iff (hc : TotalPreorder compare) (h : Placed q) :
    HeapOk compare q ↔ Heap (NotGreater compare) q.at :=
  ⟨fun hok => (assertOk_iff h).mp hok.1, fun hheap => ⟨(assertOk_iff h).mpr hheap, popsLeast hc hheap⟩⟩

/-- One operation on a heap in order. -/
theorem pqueueStep_spec (hc : TotalPreorder compare) {q' : Pqueue α} {op : PqueueOp α} (h : HeapInv q)
    (hok : HeapOk compare q) (hs : pqueueStep compare q op = some q') :
    (HeapOk compare q' ↔ Fits compare q op) ∧ (Fits compare q op → HeapInv q') := by
  have hheap := (heapOk_iff hc h.placed).mp hok
  -- an item that is in the list is taken out of its place
  have htaken : ∀ {item : α} {i : Nat}, q.list[i]? = some item →
      (HeapOk compare (takeOut compare q item i) ↔ Refills compare q i) ∧ HeapInv (takeOut compare q item i) := by
    intro item i hitem
    obtain ⟨hplaced, hperm⟩ := takeOut_spec compare h.placed hitem
    have hlen := hperm.length_eq
    have hroom := h.room
    rw [List.length_cons] at hlen
    rw [heapOk_iff hc hplaced, takeOut_heap_iff hc hheap h.room item (lt_of_at hitem)]
    exact ⟨Iff.rfl, hplaced, by omega⟩
  cases op with
  | add item =>
    rw [pqueueStep] at hs
    by_cases hroom : q.list.length + 1 ≤ MAX_CAPACITY
    · rw [if_pos hroom] at hs
      cases hs
      by_cases hmem : item ∈ q.list
      · -- the item would stand in two places
        refine ⟨iff_of_false (fun hok' => ?_) (not_not.mpr hmem), fun hnew => absurd hmem hnew⟩
        have hperm : (smartlistPqueueAdd compare q item).list.Perm (item :: q.list) := by
          refine (siftUp_perm ..).trans ?_
          rw [updateIdx_list]
          exact List.perm_append_singleton ..
        exact (List.nodup_cons.mp (hperm.nodup_iff.mp hok'.1.nodup)).1 hmem
      · obtain ⟨hplaced, hperm⟩ := smartlistPqueueAdd_spec compare h.placed hmem
        have hlen := hperm.length_eq
        rw [List.length_cons] at hlen
        exact ⟨iff_of_true ((heapOk_iff hc hplaced).mpr (add_heap hc hheap item)) hmem,
          fun _ => ⟨hplaced, by omega⟩⟩
    · rw [if_neg hroom] at hs
      cases hs
  | pop =>
    rw [pqueueStep] at hs
    obtain ⟨⟨top, r⟩, hpop, rfl⟩ := Option.map_eq_some_iff.mp hs
    unfold smartlistPqueuePop at hpop
    split at hpop
    next => cases hpop
    next t rest hlist =>
      obtain ⟨rfl, rfl⟩ := Prod.mk.inj (Option.some.inj hpop)
      obtain ⟨hiff, hinv⟩ := @htaken t 0 (by rw [hlist]; rfl)
      exact ⟨iff_of_true (hiff.mpr (.inr (.inl rfl))) trivial, fun _ => hinv⟩
  | remove item =>
    rw [pqueueStep, smartlistPqueueRemove] at hs
    by_cases hneg : q.idx item < 0
    · rw [if_pos hneg] at hs
      cases hs
    rw [if_neg hneg] at hs
    by_cases hitem : q.list[(q.idx item).toNat]? ≠ some item
    · rw [if_pos hitem] at hs
      cases hs
    · rw [if_neg hitem] at hs
      cases hs
      obtain ⟨hiff, hinv⟩ := htaken (not_not.mp hitem)
      exact ⟨hiff, fun _ => hinv⟩

/-- The heap is in order in every state of a run and a pop gives a least item, exactly if every operation adds an
item that is not in the heap, pops, or removes an item in whose place the last one may stand. -/
theorem heap_stays_ok_iff (compare : α → α → Int) (hc : TotalPreorder compare) (ops : List (PqueueOp α)) (q : Pqueue α)
    (hrun : run (pqueueStep compare) emptyPqueue ops = some q) :
    AllStates (pqueueStep compare) (HeapOk compare) emptyPqueue ops ↔
      AllSteps (pqueueStep compare) (Fits compare) emptyPqueue ops := by
  have hplaced : Placed (emptyPqueue : Pqueue α) := ⟨fun i x hx => (by cases hx), fun x _ => rfl⟩
  have hheap : Heap (NotGreater compare) (emptyPqueue : Pqueue α).at := fun i _ p x _ hx => (by cases hx)
  exact allStates_iff_allSteps_inv ⟨hplaced, Nat.zero_le _⟩ ((heapOk_iff hc hplaced).mpr hheap)
    (fun u op v hu hok hs => pqueueStep_spec hc hu hok hs) hrun

def difference (a b : Nat) : Int := (a : Int) - b

theorem difference_orders : TotalPreorder difference :=
  ⟨fun a b _ _ => by unfold difference; rw [← Int.sign_neg]; congr 1; omega,
    fun a b c _ _ _ hab hbc => by unfold difference at *; omega⟩

/-- The removed item's place is below the top. -/
theorem heap_stays_ok_of_two_levels :
    ∃ q, run (pqueueStep difference) emptyPqueue [.add 3, .add 1, .add 2, .remove 3, .pop] = some q ∧
      AllStates (pqueueStep difference) (HeapOk difference) emptyPqueue [.add 3, .add 1, .add 2, .remove 3, .pop] := by
  obtain ⟨q, hq⟩ := Option.isSome_iff_exists.mp (show (run (pqueueStep difference) emptyPqueue
    [.add 3, .add 1, .add 2, .remove 3, .pop]).isSome = true by decide +kernel)
  exact ⟨q, hq, (heap_stays_ok_iff difference difference_orders _ q hq).mpr
    (allSteps_of_check (by decide +kernel))⟩

/-- The last item, 4, takes the place of 11, below 10. Two pops later the top is 10, though 4 is there. -/
theorem removal_of_an_inner_item_breaks_the_heap :
    let ops : List (PqueueOp Nat) := [.add 1, .add 10, .add 2, .add 11, .add 12, .add 20, .add 4, .remove 11]
    TotalPreorder difference ∧
      (∃ q, run (pqueueStep difference) emptyPqueue ops = some q ∧ ¬AssertOk difference q) ∧
      ∃ q, run (pqueueStep difference) emptyPqueue (ops ++ [.pop, .pop]) = some q ∧ ¬PopsLeast difference q := by
  intro ops
  have hremoved : (run (pqueueStep difference) emptyPqueue ops).any (fun q => ¬AssertOk difference q) = true := by
    decide +kernel
  have hpopped : (run (pqueueStep difference) emptyPqueue (ops ++ [.pop, .pop])).any
      (fun q => ¬PopsLeast difference q) = true := by
    decide +kernel
  obtain ⟨q, hq, hbad⟩ := (Option.any_eq_true _ _).mp hremoved
  obtain ⟨r, hr, hworse⟩ := (Option.any_eq_true _ _).mp hpopped
  exact ⟨difference_orders, ⟨q, hq, of_decide_eq_true hbad⟩, r, hr, of_decide_eq_true hworse⟩

end Badnet.Container

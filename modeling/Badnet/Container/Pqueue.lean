/-
  Badnet.Container.Pqueue — heaps in smartlists (`smartlist_pqueue_*` of `lib/container/smartlist.c`).

  A heap is a list, and every item has a field for its position in it, -1 if it is in none. The comparison may be no
  order, and another in every call: the positions stay right (`Placed`) and items are neither lost nor doubled.
-/

import Mathlib.Data.List.Nodup
import Mathlib.Data.List.Perm.Basic
import Mathlib.Logic.Function.Basic

namespace Badnet.Container

variable {α : Type} [DecidableEq α]

/-- The list, and the position field of every item. -/
structure Pqueue (α : Type) where
  list : List α
  idx : α → Int

namespace Pqueue

/-- `UPDATE_IDX`. -/
def updateIdx (q : Pqueue α) (i : Nat) : Pqueue α :=
  match q.list[i]? with
  | none => q
  | some updated => { q with idx := Function.update q.idx updated i }

/-- Two items change places. -/
def exchange (q : Pqueue α) (i j : Nat) : Pqueue α :=
  match q.list[i]?, q.list[j]? with
  | some a, some b => updateIdx (updateIdx { q with list := (q.list.set i b).set j a } i) j
  | _, _ => q

end Pqueue

def MAX_PARENT_IDX : Nat := (2147483647 - 2) / 2

section

variable (compare : α → α → Int)

/-- The best of an item and its children. -/
def bestIdx (list : List α) (idx : Nat) : Nat :=
  if MAX_PARENT_IDX < idx then idx
  else
    match list[idx]?, list[2 * idx + 1]? with
    | some item, some left =>
      let best := if compare item left < 0 then idx else 2 * idx + 1
      match list[2 * idx + 2]?, list[best]? with
      | some right, some x => if compare right x < 0 then 2 * idx + 2 else best
      | _, _ => best
    | _, _ => idx

omit [DecidableEq α] in
theorem bestIdx_spec (compare : α → α → Int) (list : List α) (idx : Nat) :
    bestIdx compare list idx = idx ∨ idx < bestIdx compare list idx ∧ bestIdx compare list idx < list.length := by
  unfold bestIdx
  split
  · exact .inl rfl
  · split
    next item left hitem hleft =>
      obtain ⟨hlt, -⟩ := List.getElem?_eq_some_iff.mp hleft
      have hbest : ∀ p : Prop, [Decidable p] → (if p then idx else 2 * idx + 1) = idx ∨
          idx < (if p then idx else 2 * idx + 1) ∧ (if p then idx else 2 * idx + 1) < list.length := by
        intro p _
        split
        · exact .inl rfl
        · exact .inr ⟨by omega, hlt⟩
      simp only
      split
      next right x hright hx =>
        obtain ⟨hlt', -⟩ := List.getElem?_eq_some_iff.mp hright
        split
        · exact .inr ⟨by omega, hlt'⟩
        · exact hbest _
      · exact hbest _
    · exact .inl rfl

section

variable (q : Pqueue α)

theorem Pqueue.length_exchange (i j : Nat) : (q.exchange i j).list.length = q.list.length := by
  unfold exchange updateIdx
  split
  · split <;> split <;> simp
  · rfl

def smartlistHeapify (compare : α → α → Int) (q : Pqueue α) (idx : Nat) : Pqueue α :=
  if bestIdx compare q.list idx = idx then q
  else smartlistHeapify compare (q.exchange idx (bestIdx compare q.list idx)) (bestIdx compare q.list idx)
termination_by q.list.length - idx
decreasing_by
  rw [Pqueue.length_exchange]
  rcases bestIdx_spec compare q.list idx with h | h <;> omega

/-- The loop of `smartlist_pqueue_add`. -/
def siftUp (compare : α → α → Int) (q : Pqueue α) (idx : Nat) : Pqueue α :=
  if idx = 0 then q
  else
    match q.list[idx]?, q.list[(idx - 1) / 2]? with
    | some x, some p =>
      if compare x p < 0 then siftUp compare (q.exchange ((idx - 1) / 2) idx) ((idx - 1) / 2) else q
    | _, _ => q

def smartlistPqueueAdd (item : α) : Pqueue α :=
  siftUp compare (Pqueue.updateIdx { q with list := q.list ++ [item] } q.list.length) q.list.length

/-- The item at a position goes and the last one takes its place. -/
def takeOut (item : α) (i : Nat) : Pqueue α :=
  let q' : Pqueue α :=
    { list := ((q.list.getLast?.elim q.list (q.list.set i ·))).dropLast, idx := Function.update q.idx item (-1) }
  if i = q'.list.length then q' else smartlistHeapify compare (q'.updateIdx i) i

/-- None is a failed assertion. -/
def smartlistPqueuePop : Option (α × Pqueue α) :=
  match q.list with
  | [] => none
  | top :: _ => some (top, takeOut compare q top 0)

def smartlistPqueueRemove (item : α) : Option (Pqueue α) :=
  if q.idx item < 0 then none
  else if q.list[(q.idx item).toNat]? ≠ some item then none
  else some (takeOut compare q item (q.idx item).toNat)

end

end

/-! ## Positions -/

/-- Every item of the list has its position, every other has none. -/
structure Placed (q : Pqueue α) : Prop where
  inside : ∀ (i : Nat) x, q.list[i]? = some x → q.idx x = i
  outside : ∀ x, x ∉ q.list → q.idx x = -1

namespace Placed

omit [DecidableEq α] in
theorem nodup {q : Pqueue α} (h : Placed q) : q.list.Nodup := by
  rw [List.nodup_iff_getElem?_ne_getElem?]
  intro i j hij hj heq
  obtain ⟨x, hx⟩ : ∃ x, q.list[j]? = some x := ⟨_, List.getElem?_eq_getElem hj⟩
  have hi := h.inside i x (heq.trans hx)
  have hj := h.inside j x hx
  omega

omit [DecidableEq α] in
theorem idx_eq_neg_iff {q : Pqueue α} (h : Placed q) (x : α) : q.idx x = -1 ↔ x ∉ q.list := by
  refine ⟨fun hidx hx => ?_, h.outside x⟩
  obtain ⟨i, hi⟩ := List.mem_iff_getElem?.mp hx
  have hpos := h.inside i x hi
  omega

end Placed

/-- The same while the positions of some places are still to be written. -/
structure PlacedBut (wrong : List Nat) (q : Pqueue α) : Prop where
  nodup : q.list.Nodup
  inside : ∀ (i : Nat) x, i ∉ wrong → q.list[i]? = some x → q.idx x = i
  outside : ∀ x, x ∉ q.list → q.idx x = -1

variable {q : Pqueue α} {i : Nat} {item : α}

omit [DecidableEq α] in
theorem PlacedBut.placed (h : PlacedBut [] q) : Placed q :=
  ⟨fun i x => h.inside i x List.not_mem_nil, h.outside⟩

@[simp] theorem updateIdx_list (q : Pqueue α) (k : Nat) : (q.updateIdx k).list = q.list := by
  unfold Pqueue.updateIdx
  split <;> rfl

theorem PlacedBut.updateIdx {k : Nat} {wrong : List Nat} (h : PlacedBut (k :: wrong) q)
    (hk : k < q.list.length) : PlacedBut wrong (q.updateIdx k) := by
  have hx := List.getElem?_eq_getElem hk
  have hidx : (q.updateIdx k).idx = Function.update q.idx q.list[k] k := by
    unfold Pqueue.updateIdx
    rw [hx]
  refine ⟨by rw [updateIdx_list]; exact h.nodup, fun i x hi hix => ?_, fun x hout => ?_⟩
  · rw [updateIdx_list] at hix
    rw [hidx]
    by_cases hik : i = k
    · rw [hik, hx] at hix
      rw [← Option.some.inj hix, hik, Function.update_self]
    · have hne : x ≠ q.list[k] := by
        intro heq
        have hi' := (List.getElem?_eq_some_iff.mp hix).1
        exact hik ((List.getElem?_inj hi' h.nodup).mp (by rw [hix, hx, heq]))
      rw [Function.update_of_ne hne]
      exact h.inside i x (fun hmem => (List.mem_cons.mp hmem).elim hik hi) hix
  · rw [updateIdx_list] at hout
    have hne : x ≠ q.list[k] := by
      intro heq
      rw [heq] at hout
      exact hout (List.getElem_mem hk)
    rw [hidx, Function.update_of_ne hne]
    exact h.outside x hout

/-! ## The operations -/

/-- A heap that holds the items of another, with their positions. -/
structure Shuffled (q q' : Pqueue α) : Prop where
  placed : Placed q'
  perm : q'.list.Perm q.list

/-- Two items change places. -/
theorem exchange_spec (h : Placed q) {j : Nat} (hi : i < q.list.length) (hj : j < q.list.length) :
    Shuffled q (q.exchange i j) := by
  let swapped : Pqueue α := { q with list := (q.list.set i q.list[j]).set j q.list[i] }
  have hexchange : q.exchange i j = (swapped.updateIdx i).updateIdx j := by
    unfold Pqueue.exchange
    rw [List.getElem?_eq_getElem hi, List.getElem?_eq_getElem hj]
  have hperm : swapped.list.Perm q.list := List.set_set_perm hi hj
  have hswapped : PlacedBut [i, j] swapped := by
    refine ⟨hperm.nodup_iff.mpr h.nodup, fun k x hk hx => ?_, fun x hx => ?_⟩
    · simp only [List.mem_cons, List.not_mem_nil, or_false, not_or] at hk
      simp only [swapped, List.getElem?_set_ne (Ne.symm hk.1), List.getElem?_set_ne (Ne.symm hk.2)] at hx
      exact h.inside k x hx
    · exact h.outside x fun hmem => hx (hperm.mem_iff.mpr hmem)
  have hlen : swapped.list.length = q.list.length := hperm.length_eq
  rw [hexchange]
  refine ⟨((hswapped.updateIdx (by omega)).updateIdx (by rw [updateIdx_list]; omega)).placed, ?_⟩
  rw [updateIdx_list, updateIdx_list]
  exact hperm

variable (compare : α → α → Int)

theorem smartlistHeapify_spec (h : Placed q) (hi : i < q.list.length) :
    Shuffled q (smartlistHeapify compare q i) := by
  fun_induction smartlistHeapify compare q i with
  | case1 q i hbest => exact ⟨h, .refl _⟩
  | case2 q i hbest ih =>
    obtain ⟨-, hlt⟩ := (bestIdx_spec compare q.list i).resolve_left hbest
    have hex := exchange_spec h hi hlt
    have hrest := ih hex.placed (by rw [Pqueue.length_exchange]; exact hlt)
    exact ⟨hrest.placed, hrest.perm.trans hex.perm⟩

theorem siftUp_spec (h : Placed q) (hi : i < q.list.length) : Shuffled q (siftUp compare q i) := by
  fun_induction siftUp compare q i with
  | case1 q => exact ⟨h, .refl _⟩
  | case2 q i hne x p hx hp hlt ih =>
    have hex := exchange_spec h (i := (i - 1) / 2) (by omega) hi
    have hrest := ih hex.placed (by rw [Pqueue.length_exchange]; omega)
    exact ⟨hrest.placed, hrest.perm.trans hex.perm⟩
  | case3 => exact ⟨h, .refl _⟩
  | case4 => exact ⟨h, .refl _⟩

theorem smartlistPqueueAdd_spec (h : Placed q) (hnew : item ∉ q.list) :
    Placed (smartlistPqueueAdd compare q item) ∧ (smartlistPqueueAdd compare q item).list.Perm (item :: q.list) := by
  let longer : Pqueue α := { q with list := q.list ++ [item] }
  have hperm : longer.list.Perm (item :: q.list) := List.perm_append_singleton ..
  have hlonger : PlacedBut [q.list.length] longer := by
    refine ⟨hperm.nodup_iff.mpr (List.nodup_cons.mpr ⟨hnew, h.nodup⟩), fun k x hk hx => ?_, fun x hx => ?_⟩
    · have hne : k ≠ q.list.length := fun e => hk (List.mem_singleton.mpr e)
      have hlt := (List.getElem?_eq_some_iff.mp hx).1
      simp only [longer, List.length_append, List.length_singleton] at hlt
      rw [List.getElem?_append_left (by omega)] at hx
      exact h.inside k x hx
    · exact h.outside x fun hmem => hx (List.mem_append_left _ hmem)
  have hlen : q.list.length < longer.list.length := by simp [longer]
  have hsift := siftUp_spec compare (hlonger.updateIdx hlen).placed (i := q.list.length) (by rw [updateIdx_list]; exact hlen)
  refine ⟨hsift.placed, ?_⟩
  have hlist := hsift.perm
  rw [updateIdx_list] at hlist
  exact hlist.trans hperm

omit [DecidableEq α] in
/-- The last item in the place of another that goes. -/
theorem perm_fill {list : List α} (hitem : list[i]? = some item) :
    list.Perm (item :: (list.getLast?.elim list (list.set i ·)).dropLast) := by
  rcases List.eq_nil_or_concat list with rfl | ⟨init, last, rfl⟩
  · cases hitem
  · rw [List.concat_eq_append] at hitem ⊢
    simp only [List.getLast?_append, List.getLast?_singleton, Option.some_or, Option.elim_some]
    rcases Nat.lt_or_ge i init.length with hi | hi
    · rw [List.getElem?_append_left hi] at hitem
      have hget : init[i] = item := by rw [List.getElem?_eq_getElem hi] at hitem; exact Option.some.inj hitem
      rw [List.set_append_left _ _ hi, List.dropLast_concat]
      have hset : (init.set i last).Perm (last :: init.eraseIdx i) := by
        have hlt : i < (init.set i last).length := by rwa [List.length_set]
        have h := (List.getElem_cons_eraseIdx_perm hlt).symm
        rwa [List.getElem_set_self, List.eraseIdx_set_eq] at h
      have hinit : init.Perm (item :: init.eraseIdx i) := by
        have h := (List.getElem_cons_eraseIdx_perm hi).symm
        rwa [hget] at h
      calc
        List.Perm (init ++ [last]) (last :: init) := List.perm_append_singleton ..
        List.Perm _ (last :: item :: init.eraseIdx i) := hinit.cons last
        List.Perm _ (item :: last :: init.eraseIdx i) := .swap ..
        List.Perm _ (item :: init.set i last) := hset.symm.cons item
    · have hlast : i = init.length := by
        have hlt := (List.getElem?_eq_some_iff.mp hitem).1
        rw [List.length_append, List.length_singleton] at hlt
        omega
      subst hlast
      have hget : last = item := by simpa using hitem
      rw [List.set_append_right _ _ (Nat.le_refl _), hget]
      simp only [Nat.sub_self, List.set_cons_zero, List.dropLast_concat]
      exact List.perm_append_singleton ..

theorem takeOut_spec (h : Placed q) (hitem : q.list[i]? = some item) :
    Placed (takeOut compare q item i) ∧ q.list.Perm (item :: (takeOut compare q item i).list) := by
  let left : Pqueue α :=
    { list := (q.list.getLast?.elim q.list (q.list.set i ·)).dropLast, idx := Function.update q.idx item (-1) }
  have hperm : q.list.Perm (item :: left.list) := perm_fill hitem
  have hnodup := List.nodup_cons.mp (hperm.nodup_iff.mp h.nodup)
  have hlen : q.list.length = left.list.length + 1 := hperm.length_eq
  have hleft : PlacedBut [i] left := by
    refine ⟨hnodup.2, fun k x hk hx => ?_, fun x hx => ?_⟩
    · have hne : x ≠ item := fun e => hnodup.1 (e ▸ List.mem_of_getElem? hx)
      have hki : k ≠ i := fun e => hk (List.mem_singleton.mpr e)
      rw [show left.idx x = q.idx x from Function.update_of_ne hne ..]
      apply h.inside
      simp only [left, List.getElem?_dropLast] at hx
      split at hx
      · revert hx
        cases q.list.getLast? with
        | none => exact id
        | some last =>
          intro hx
          rwa [Option.elim_some, List.getElem?_set_ne (Ne.symm hki)] at hx
      · cases hx
    · by_cases hxi : x = item
      · rw [hxi]
        exact Function.update_self ..
      · rw [show left.idx x = q.idx x from Function.update_of_ne hxi ..]
        exact h.outside x fun hmem => (List.mem_cons.mp (hperm.mem_iff.mp hmem)).elim hxi hx
  have htake : takeOut compare q item i =
      if i = left.list.length then left else smartlistHeapify compare (left.updateIdx i) i := rfl
  rw [htake]
  split
  next hi =>
    refine ⟨⟨fun k x hx => ?_, hleft.outside⟩, hperm⟩
    have hlt := (List.getElem?_eq_some_iff.mp hx).1
    exact hleft.inside k x (fun hk => by rw [List.mem_singleton.mp hk, hi] at hlt; omega) hx
  next hi =>
    have hlt := (List.getElem?_eq_some_iff.mp hitem).1
    have hheap := smartlistHeapify_spec compare (hleft.updateIdx (by omega)).placed (i := i) (by rw [updateIdx_list]; omega)
    have hlist := hheap.perm
    rw [updateIdx_list] at hlist
    exact ⟨hheap.placed, hperm.trans (hlist.symm.cons item)⟩

/-- The top of a heap that is not empty comes off. -/
theorem smartlistPqueuePop_spec (h : Placed q) (hne : q.list ≠ []) :
    ∃ top q', smartlistPqueuePop compare q = some (top, q') ∧ Placed q' ∧ q.list.Perm (top :: q'.list) := by
  unfold smartlistPqueuePop
  split
  next hnil => exact absurd hnil hne
  next top rest hlist =>
    have hspec := takeOut_spec compare h (by rw [hlist]; rfl : q.list[0]? = some top)
    exact ⟨top, takeOut compare q top 0, rfl, hspec⟩

/-- An item of a heap is removed, and no assertion fails. -/
theorem smartlistPqueueRemove_spec (h : Placed q) (hmem : item ∈ q.list) :
    ∃ q', smartlistPqueueRemove compare q item = some q' ∧ Placed q' ∧ q.list.Perm (item :: q'.list) := by
  obtain ⟨i, hi⟩ := List.mem_iff_getElem?.mp hmem
  have hidx : q.idx item = i := h.inside i item hi
  have hnot : ¬ ((i : Int) < 0) := by omega
  refine ⟨takeOut compare q item i, ?_, takeOut_spec compare h hi⟩
  rw [smartlistPqueueRemove, hidx, if_neg hnot, Int.toNat_natCast, if_neg (not_not.mpr hi)]

end Badnet.Container

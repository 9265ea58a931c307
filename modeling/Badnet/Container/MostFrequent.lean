/-
  Badnet.Container.MostFrequent — `smartlist_get_most_frequent_` of `lib/container/smartlist.c`.

  The loop measures the runs of members that compare equal in a sorted list, and returns the first member of the highest
  key among those that appear most often (`smartlistGetMostFrequent_spec`). The key and the count are the same for every
  order of the members (`MostFrequent.unique`), the member itself is not.
-/

import Mathlib.Data.List.Count
import Mathlib.Order.Lattice

namespace Badnet.Container

/-! ## The loop -/

section
variable {α : Type} (compare : α → α → Int)

/-- The loop of `smartlist_get_most_frequent_`: the best run that is over, and the run at hand. -/
def mostFrequentLoop (best : Option α) (bestCount : Nat) (cur : α) (count : Nat) : List α → Option α × Nat
  | [] => if count ≥ bestCount then (some cur, count) else (best, bestCount)
  | item :: sl =>
    if compare cur item = 0 then mostFrequentLoop best bestCount cur (count + 1) sl
    else if count ≥ bestCount then mostFrequentLoop (some cur) count item 1 sl
    else mostFrequentLoop best bestCount item 1 sl

def smartlistGetMostFrequent : List α → Option α × Nat
  | [] => (none, 0)
  | item :: sl => mostFrequentLoop compare none 0 item 1 sl

end

/-! ## Counting -/

section
variable {α κ : Type} [LinearOrder κ] {compare : α → α → Int} {key : α → κ}

/-- A member of the list whose key appears most often, of the highest such key, and the first with this key. -/
structure MostFrequent (key : α → κ) (l : List α) (r : α) (n : Nat) : Prop where
  first : (l.filter (key · = key r)).head? = some r
  count : n = (l.map key).count (key r)
  best : ∀ k ∈ l.map key, (l.map key).count k < n ∨ ((l.map key).count k = n ∧ k ≤ key r)

/-- What the loop has found in the runs that are over. -/
def BestSoFar (key : α → κ) (done : List α) (best : Option α) (bestCount : Nat) : Prop :=
  (done = [] ∧ best = none ∧ bestCount = 0) ∨ ∃ r, best = some r ∧ MostFrequent key done r bestCount

variable {done run : List α} {best : Option α} {bestCount : Nat} {cur : α}

theorem count_keys_append (hrun : ∀ x ∈ run, key x = key cur) (k : κ) :
    ((done ++ run).map key).count k = (done.map key).count k + if k = key cur then run.length else 0 := by
  have hkeys : run.map key = List.replicate run.length (key cur) :=
    List.eq_replicate_iff.mpr ⟨List.length_map .., fun k hk => by
      obtain ⟨x, hx, rfl⟩ := List.mem_map.mp hk
      exact hrun x hx⟩
  rw [List.map_append, List.count_append, hkeys, List.count_replicate]
  by_cases hk : k = key cur
  · simp [hk]
  · rw [if_neg hk, if_neg (by simpa using fun h => hk h.symm)]

/-- A run of higher keys is over: it is the best if there is no longer one. -/
theorem bestSoFar_append (hcur : run.head? = some cur) (hrun : ∀ x ∈ run, key x = key cur)
    (hdone : ∀ x ∈ done, key x < key cur) (h : BestSoFar key done best bestCount) :
    if run.length ≥ bestCount then MostFrequent key (done ++ run) cur run.length
    else ∃ r, best = some r ∧ MostFrequent key (done ++ run) r bestCount := by
  have hcount := @count_keys_append _ _ _ key done run cur hrun
  have hnone : (done.map key).count (key cur) = 0 := by
    rw [List.count_eq_zero]
    intro hmem
    obtain ⟨x, hx, hkey⟩ := List.mem_map.mp hmem
    exact absurd hkey (hdone x hx).ne
  have hkeys : ∀ k ∈ (done ++ run).map key, k = key cur ∨ (k ∈ done.map key ∧ k < key cur) := by
    intro k hk
    obtain ⟨x, hx, rfl⟩ := List.mem_map.mp hk
    rcases List.mem_append.mp hx with hx | hx
    · exact .inr ⟨List.mem_map_of_mem hx, hdone x hx⟩
    · exact .inl (hrun x hx)
  by_cases hge : run.length ≥ bestCount
  · rw [if_pos hge]
    refine ⟨?_, by rw [hcount, hnone, if_pos rfl, Nat.zero_add], fun k hk => ?_⟩
    · have hout : done.filter (key · = key cur) = [] :=
        List.filter_eq_nil_iff.mpr fun x hx => by simpa using (hdone x hx).ne
      have hin : run.filter (key · = key cur) = run := List.filter_eq_self.mpr fun x hx => by simpa using hrun x hx
      rw [List.filter_append, hout, hin, List.nil_append, hcur]
    · rcases hkeys k hk with rfl | ⟨hmem, hlt⟩
      · exact .inr ⟨by rw [hcount, hnone, if_pos rfl, Nat.zero_add], le_rfl⟩
      · have hle : (done.map key).count k ≤ bestCount := by
          rcases h with ⟨rfl, -, -⟩ | ⟨r, -, hbest⟩
          · simp at hmem
          · rcases hbest.best k hmem with hlt | ⟨heq, -⟩
            · exact hlt.le
            · exact heq.le
        rw [hcount, if_neg hlt.ne, Nat.add_zero]
        rcases Nat.lt_or_eq_of_le (Nat.le_trans hle hge) with hless | heq
        · exact .inl hless
        · exact .inr ⟨heq, hlt.le⟩
  · rw [if_neg hge]
    rcases h with ⟨-, -, rfl⟩ | ⟨r, hbest, hfreq⟩
    · exact absurd (Nat.zero_le _) hge
    · have hmem : r ∈ done := by
        have hhead := List.mem_of_mem_head? hfreq.first
        exact (List.mem_filter.mp hhead).1
      have hlt := hdone r hmem
      refine ⟨r, hbest, ?_, ?_, fun k hk => ?_⟩
      · have hout : run.filter (key · = key r) = [] :=
          List.filter_eq_nil_iff.mpr fun x hx => by simpa [hrun x hx] using hlt.ne'
        rw [List.filter_append, hout, List.append_nil, hfreq.first]
      · rw [hcount, if_neg hlt.ne, Nat.add_zero, ← hfreq.count]
      · rcases hkeys k hk with rfl | ⟨hmem, hlt'⟩
        · rw [hcount, hnone, if_pos rfl, Nat.zero_add]
          exact .inl (Nat.not_le.mp hge)
        · rw [hcount, if_neg hlt'.ne, Nat.add_zero]
          exact hfreq.best k hmem

theorem mostFrequentLoop_spec (hcompare : ∀ x y, compare x y = 0 ↔ key x = key y) (sl : List α) :
    ∀ {done run : List α} {best : Option α} {bestCount : Nat} {cur : α}, run.head? = some cur →
      (∀ x ∈ run, key x = key cur) → (∀ x ∈ done, key x < key cur) → BestSoFar key done best bestCount →
      (cur :: sl).Pairwise (fun x y => key x ≤ key y) →
      ∃ r n, mostFrequentLoop compare best bestCount cur run.length sl = (some r, n) ∧
        MostFrequent key (done ++ run ++ sl) r n := by
  induction sl with
  | nil =>
    intro done run best bestCount cur hcur hrun hdone h _
    have hfreq := bestSoFar_append hcur hrun hdone h
    rw [mostFrequentLoop, List.append_nil]
    by_cases hge : run.length ≥ bestCount
    · rw [if_pos hge] at hfreq ⊢
      exact ⟨cur, run.length, rfl, hfreq⟩
    · rw [if_neg hge] at hfreq ⊢
      obtain ⟨r, rfl, hr⟩ := hfreq
      exact ⟨r, bestCount, rfl, hr⟩
  | cons item sl ih =>
    intro done run best bestCount cur hcur hrun hdone h hsorted
    obtain ⟨hle, hsorted'⟩ := List.pairwise_cons.mp hsorted
    have hitem := hle item List.mem_cons_self
    rw [mostFrequentLoop]
    by_cases hsame : compare cur item = 0
    · have hkey := (hcompare cur item).mp hsame
      rw [if_pos hsame]
      have hnext := @ih done (run ++ [item]) best bestCount cur
        (by rw [List.head?_append, hcur]; rfl)
        (by
          intro x hx
          rcases List.mem_append.mp hx with hx | hx
          · exact hrun x hx
          · rw [List.mem_singleton.mp hx, hkey])
        hdone h (List.pairwise_cons.mpr ⟨fun x hx => hle x (List.mem_cons_of_mem _ hx), (List.pairwise_cons.mp hsorted').2⟩)
      simpa using hnext
    · have hlt : key cur < key item := lt_of_le_of_ne hitem fun hkey => hsame ((hcompare cur item).mpr hkey)
      have hfreq := bestSoFar_append hcur hrun hdone h
      have hdone' : ∀ x ∈ done ++ run, key x < key item := by
        intro x hx
        rcases List.mem_append.mp hx with hx | hx
        · exact (hdone x hx).trans hlt
        · rwa [hrun x hx]
      rw [if_neg hsame]
      have hnext : ∀ {best' : Option α} {bestCount' : Nat}, BestSoFar key (done ++ run) best' bestCount' →
          ∃ r n, mostFrequentLoop compare best' bestCount' item 1 sl = (some r, n) ∧
            MostFrequent key (done ++ run ++ item :: sl) r n := by
        intro best' bestCount' hbest
        simpa using @ih _ [item] _ _ item rfl (by simp) hdone' hbest hsorted'
      by_cases hge : run.length ≥ bestCount
      · rw [if_pos hge] at hfreq ⊢
        exact hnext (.inr ⟨cur, rfl, hfreq⟩)
      · rw [if_neg hge] at hfreq ⊢
        exact hnext (.inr hfreq)

/-- In a sorted list the loop finds the first of the members that appear most often. -/
theorem smartlistGetMostFrequent_spec (hcompare : ∀ x y, compare x y = 0 ↔ key x = key y) {l : List α} (hne : l ≠ [])
    (hsorted : l.Pairwise fun x y => key x ≤ key y) :
    ∃ r n, smartlistGetMostFrequent compare l = (some r, n) ∧ MostFrequent key l r n := by
  obtain ⟨item, sl, rfl⟩ := List.exists_cons_of_ne_nil hne
  have hspec := @mostFrequentLoop_spec _ _ _ _ key hcompare sl [] [item] none 0 item
    rfl (by simp) (by simp) (.inl ⟨rfl, rfl, rfl⟩) hsorted
  simpa [smartlistGetMostFrequent] using hspec

theorem MostFrequent.mem {l : List α} {r : α} {n : Nat} (h : MostFrequent key l r n) : r ∈ l :=
  (List.mem_filter.mp (List.mem_of_mem_head? h.first)).1

/-- The key and the count do not depend on the order. -/
theorem MostFrequent.unique {l l' : List α} {r r' : α} {n n' : Nat} (h : MostFrequent key l r n)
    (h' : MostFrequent key l' r' n') (hperm : l.Perm l') : key r = key r' ∧ n = n' := by
  have hcount : ∀ k, (l.map key).count k = (l'.map key).count k := fun k => (hperm.map key).count_eq k
  have hr : key r ∈ l'.map key := List.mem_map_of_mem (hperm.mem_iff.mp h.mem)
  have hr' : key r' ∈ l.map key := List.mem_map_of_mem (hperm.mem_iff.mpr h'.mem)
  have hc := h.count
  have hc' := h'.count
  have hone := h.best _ hr'
  have htwo := h'.best _ hr
  rw [hcount] at hone hc
  rw [← hc'] at hone
  rw [← hc] at htwo
  rcases hone with hlt | ⟨heq, hle⟩
  · omega
  rcases htwo with hlt' | ⟨heq', hle'⟩
  · omega
  · exact ⟨le_antisymm hle' hle, heq'⟩

end

end Badnet.Container

/-
  Badnet.Protover.Compute — `ProtoverVote::compute`, and when its result is the one of C.

  The result is the printed entries of the names with versions, sorted, in every order of iteration
  (`Rust.protoverComputeVote_perm`), where C prints the sorted names. The two are the same exactly if the long strings
  decide no version and no name of the result is another one followed by a digit or a dash (`votes_agree_iff`).
-/

import Badnet.Protover.Vote

namespace Badnet.Protover

open Lib Encoding

namespace Rust

namespace ProtoSet

/-! ## Sets of versions -/

theorem dedup_eq_self {α : Type} [DecidableEq α] {l : List α} (h : l.Pairwise (· ≠ ·)) : dedup l = l := by
  induction h with
  | nil => rfl
  | @cons a l ha _ ih =>
    rw [dedup, ih]
    cases l with
    | nil => rfl
    | cons b l => exact if_neg (ha b List.mem_cons_self)

variable {pairs : List (Nat × Nat)}

/-- Sorted ranges that are apart list their versions in ascending order. -/
theorem pairwise_expand (h : pairs.Pairwise fun r r' => r.2 < r'.1) : (expand ⟨pairs⟩).Pairwise (· < ·) := by
  unfold expand
  rw [List.flatMap, List.pairwise_flatten]
  constructor
  · intro l hl
    obtain ⟨r, -, rfl⟩ := List.mem_map.mp hl
    exact List.pairwise_lt_range' 1
  · rw [List.pairwise_map]
    refine h.imp fun {r r'} hrr x hx y hy => ?_
    have hx := List.mem_range'_1.mp hx
    have hy := List.mem_range'_1.mp hy
    omega

theorem mem_expand {v : Nat} : v ∈ expand ⟨pairs⟩ ↔ ∃ r ∈ pairs, r.1 ≤ v ∧ v ≤ r.2 := by
  simp only [expand, List.mem_flatMap, List.mem_range'_1]
  constructor
  · rintro ⟨r, hr, h1, h2⟩
    exact ⟨r, hr, h1, by omega⟩
  · rintro ⟨r, hr, h1, h2⟩
    exact ⟨r, hr, h1, by omega⟩

theorem length_expand (h : ∀ r ∈ pairs, r.1 ≤ r.2) : (expand ⟨pairs⟩).length = len ⟨pairs⟩ := by
  unfold expand len
  rw [List.length_flatMap]
  congr 1
  apply List.map_congr_left
  intro r hr
  have := h r hr
  rw [List.length_range']
  omega

theorem sorted_apart {rs : List (Nat × Nat)} (hle : ∀ r ∈ rs, r.1 ≤ r.2) (h : RangesOk rs) :
    (sorted rs).Pairwise fun r r' => r.2 < r'.1 := by
  refine (pairwise_sorted rs).imp_of_mem fun {a b} ha hb hab => ?_
  rcases h.2 a (mem_sorted.mp ha) b (mem_sorted.mp hb) with he | h | h
  · exact absurd he hab.2
  · exact h
  · have h1 := hle b (mem_sorted.mp hb)
    have h2 := hab.1
    unfold PairLe at h2
    omega

/-- The set of an entry, written out. -/
theorem expand_sorted {e : Entry} (hb : ∀ r ∈ e.ranges, r.1 ≤ r.2 ∧ r.2 ≤ MAX_PROTOCOL_VERSION)
    (h : RangesOk e.ranges) : expand ⟨sorted e.ranges⟩ = (List.range' 0 64).filter fun v => e.lists v := by
  have hasc := pairwise_expand (sorted_apart (fun r hr => (hb r hr).1) h)
  have hasc' : ((List.range' 0 64).filter fun v => e.lists v).Pairwise (· < ·) := (List.pairwise_lt_range' 1).filter _
  apply List.Perm.eq_of_pairwise' (r := (· < ·))
  · exact hasc
  · exact hasc'
  · rw [List.perm_ext_iff_of_nodup (hasc.imp Nat.ne_of_lt) (hasc'.imp Nat.ne_of_lt)]
    intro v
    rw [mem_expand, List.mem_filter, List.mem_range'_1]
    constructor
    · rintro ⟨r, hr, hv⟩
      have hl : e.lists v = true := List.any_eq_true.mpr ⟨r, mem_sorted.mp hr, decide_eq_true hv⟩
      exact ⟨⟨Nat.zero_le _, lists_le hb hl⟩, hl⟩
    · rintro ⟨-, hl⟩
      obtain ⟨r, hr, hv⟩ := List.any_eq_true.mp hl
      exact ⟨r, mem_sorted.mpr hr, of_decide_eq_true hv⟩

/-! ## From versions to ranges -/

/-- The loop goes to the end of the run. -/
theorem findRangeLoop_eq (hasRange : Bool) (rangeEnd index : Nat) (l : List Nat) :
    ∃ k rest, l = List.range' (rangeEnd + 1) k ++ rest ∧ rest.head? ≠ some (rangeEnd + k + 1) ∧
      findRangeLoop hasRange rangeEnd index l = (hasRange || decide (0 < k), rangeEnd + k, index + k) := by
  induction l generalizing hasRange rangeEnd index with
  | nil => exact ⟨0, [], rfl, by simp, by simp [findRangeLoop]⟩
  | cons n l ih =>
    rw [findRangeLoop]
    by_cases hn : n = rangeEnd + 1
    · obtain ⟨k, rest, rfl, hrest, heq⟩ := ih true n (index + 1)
      subst hn
      refine ⟨k + 1, rest, ?_, ?_, ?_⟩
      · rw [List.range'_succ, List.cons_append]
      · rwa [show rangeEnd + (k + 1) + 1 = rangeEnd + 1 + k + 1 by omega]
      · rw [if_neg (by simp), heq]
        simp only [Bool.true_or, Nat.zero_lt_succ, decide_true, Bool.or_true, Prod.mk.injEq, true_and]
        omega
    · refine ⟨0, n :: l, rfl, ?_, ?_⟩
      · simpa using hn
      · rw [if_pos hn]
        simp

/-- Of an ascending list, the pairs are the runs. -/
theorem versionPairs_eq {v : List Nat} (h : v.Pairwise (· < ·)) : versionPairs v = runs v := by
  induction hn : v.length using Nat.strongRecOn generalizing v with
  | ind n ih =>
    subst hn
    cases v with
    | nil =>
      rw [versionPairs]
      rfl
    | cons first l =>
      obtain ⟨k, rest, hl, hrest, heq⟩ := findRangeLoop_eq false first 0 l
      have hrange : findRange (first :: l) = (decide (0 < k), first + k, k) := by
        show findRangeLoop false first 0 l = _
        rw [heq]
        simp
      have hall : first :: l = List.range' first (k + 1) ++ rest := by
        rw [hl, List.range'_succ, List.cons_append]
      have hgap : ∀ x ∈ rest, first + k + 1 < x := by
        intro x hx
        rw [hall, List.pairwise_append] at h
        obtain ⟨-, hr, hcross⟩ := h
        have hlt := hcross (first + k) (List.mem_range'_1.mpr ⟨by omega, by omega⟩)
        cases rest with
        | nil => cases hx
        | cons y rest =>
          have hy := hlt y List.mem_cons_self
          have hne : y ≠ first + k + 1 := fun e => hrest (by rw [e]; rfl)
          rcases List.mem_cons.mp hx with rfl | hx
          · omega
          · have := (List.pairwise_cons.mp hr).1 x hx
            omega
      have hr : rest.Pairwise (· < ·) := by
        rw [hall, List.pairwise_append] at h
        exact h.2.1
      have hlen : rest.length < (first :: l).length := by
        rw [hall, List.length_append, List.length_range']
        omega
      have hrec := ih rest.length hlen hr rfl
      have hruns : runs (first :: l) = (first, first + k) :: runs rest := by
        rw [hall]
        exact runs_range' hgap
      rw [versionPairs, hrange, hruns, ← hrec]
      by_cases hk : 0 < k
      · have hget : (first :: l).getD k 0 = first + k := by
          rw [hall, List.getD_eq_getElem?_getD, List.getElem?_append_left (by simp)]
          simp
        have hdrop : l.drop k = rest := by
          rw [hl, List.drop_left' (by simp)]
        simp only [decide_eq_true hk, if_true, hget, hdrop]
      · have hk0 : k = 0 := by omega
        subst hk0
        rw [List.range'_zero, List.nil_append] at hl
        subst hl
        simp

/-- Versions in some order make the set of the runs of the ascending list. -/
theorem ofVersions_eq {v w : List Nat} (hperm : v.Perm w) (hasc : w.Pairwise (· < ·))
    (hw : ∀ x ∈ w, 0 < x ∧ x ≤ MAX_PROTOCOL_VERSION) : ofVersions v = ⟨runs w⟩ := by
  have hsort : v.insertionSort (· ≤ ·) = w := by
    refine List.Perm.eq_of_pairwise' (r := (· ≤ ·)) (List.pairwise_insertionSort _ v) (hasc.imp Nat.le_of_lt) ?_
    exact (List.perm_insertionSort _ v).trans hperm
  have happ := runs_apart hasc
  have hbound : ∀ r ∈ runs w, r.1 ≤ MAX_PROTOCOL_VERSION ∧ r.2 ≤ MAX_PROTOCOL_VERSION := fun r hr =>
    ⟨(hw _ (mem_runs r hr).1).2, (hw _ (mem_runs r hr).2).2⟩
  have hok : RangesOk (runs w) := by
    refine ⟨fun r hr => (hw _ (mem_runs r hr).1).1, fun r hr r' hr' => ?_⟩
    by_cases he : r = r'
    · exact .inl he
    · have hap : (runs w).Pairwise Apart := happ.imp fun h => .inl (by omega)
      exact .inr (hap.forall hr hr' he)
  have hsorted : sorted (runs w) = runs w := by
    have hlt : (runs w).Pairwise fun r r' => r.1 < r'.1 := by
      refine happ.imp_of_mem fun {r r'} hr _ h => ?_
      have := runs_le r hr
      omega
    have hle : (runs w).Pairwise PairLe := hlt.imp fun h => .inl h
    unfold sorted
    rw [hle.insertionSort_eq, dedup_eq_self]
    exact hlt.imp fun h e => by rw [e] at h; exact Nat.lt_irrefl _ h
  have hslice := fromSlice_eq hbound
  rw [if_pos ⟨fun r hr => runs_le r hr, hok⟩, hsorted] at hslice
  unfold ofVersions
  rw [hsort, dedup_eq_self (hasc.imp Nat.ne_of_lt), versionPairs_eq hasc]
  cases hf : fromSlice (runs w) with
  | error e =>
    rw [hf] at hslice
    cases hslice
  | ok set =>
    rw [hf] at hslice
    exact Option.some.inj hslice

end ProtoSet

/-! ## Counting -/

variable (all : HashMap Text (HashMap Nat Nat))

/-- How often the version of the protocol was counted. -/
def countOf (n : Text) (v : Nat) : Nat :=
  (HashMap.get ((HashMap.get all n).getD []) v).getD 0

theorem get_countVersions (m : HashMap Nat Nat) (versions : List Nat) (v : Nat) :
    (HashMap.get (countVersions m versions) v).getD 0 = (HashMap.get m v).getD 0 + versions.count v := by
  induction versions generalizing m with
  | nil => rfl
  | cons x versions ih =>
    have hfold : countVersions m (x :: versions) =
        countVersions (HashMap.insert m x ((HashMap.get m x).getD 0 + 1)) versions := rfl
    rw [hfold, ih, HashMap.get_insert, List.count_cons]
    by_cases hx : x = v
    · subst hx
      simp
      omega
    · simp [hx]

variable (l : List (Text × ProtoSet))

/-- The protocols of one vote, in some order. -/
def countProtocols : HashMap Text (HashMap Nat Nat) :=
  l.foldl (fun all e => HashMap.insert all e.1 (countVersions ((HashMap.get all e.1).getD []) e.2.expand)) all

theorem countOf_countProtocols (n : Text) (v : Nat) :
    countOf (countProtocols all l) n v =
      countOf all n v + (l.map fun e => if e.1 = n then e.2.expand.count v else 0).sum := by
  induction l generalizing all with
  | nil => rfl
  | cons e l ih =>
    have hfold : countProtocols all (e :: l) =
        countProtocols (HashMap.insert all e.1 (countVersions ((HashMap.get all e.1).getD []) e.2.expand)) l := rfl
    rw [hfold, ih, List.map_cons, List.sum_cons, ← Nat.add_assoc]
    congr 1
    unfold countOf
    rw [HashMap.get_insert]
    by_cases he : e.1 = n
    · subst he
      rw [if_pos rfl, if_pos rfl, Option.getD_some, get_countVersions]
    · rw [if_neg he, if_neg he, Nat.add_zero]

/-- A list counts a version it has once. -/
theorem sum_count {es : List Entry} (h : GoodList es) (n : Text) (v : Nat) :
    ((es.map ofEntry).map fun e => if e.1 = n then e.2.expand.count v else 0).sum = if listsIn es n v then 1 else 0 := by
  have hcount : ∀ e ∈ es, (ofEntry e).2.expand.count v = if e.lists v = true then 1 else 0 := by
    intro e he
    show (ProtoSet.expand ⟨ProtoSet.sorted e.ranges⟩).count v = _
    rw [ProtoSet.expand_sorted (h.bounds e he) (h.ok e he)]
    have hnodup : ((List.range' 0 64).filter fun v => e.lists v).Nodup := (List.nodup_range' 1).filter _
    have hmem : v ∈ ((List.range' 0 64).filter fun v => e.lists v) ↔ e.lists v = true := by
      rw [List.mem_filter, List.mem_range'_1]
      exact ⟨And.right, fun hl => ⟨⟨Nat.zero_le _, lists_le (h.bounds e he) hl⟩, hl⟩⟩
    rw [hnodup.count]
    simp only [hmem]
  have hnodup := h.nodup
  clear h
  induction es with
  | nil => rfl
  | cons e es ih =>
    obtain ⟨hce, hces⟩ := List.forall_mem_cons.mp hcount
    obtain ⟨hn, hnodup⟩ := List.nodup_cons.mp hnodup
    rw [List.map_cons, List.map_cons, List.sum_cons, ih hces hnodup, hce, listsIn_cons]
    show (if e.name = n then _ else 0) + _ = _
    by_cases hen : e.name = n
    · subst hen
      rw [listsIn_eq_false hn]
      simp
    · simp [hen]

/-- The map of a list without repeated names. -/
def ofEntries (es : List Entry) : UnvalidatedProtoEntry := insertAll [] (es.map ofEntry)

theorem ofEntries_eq {es : List Entry} (h : GoodList es) : ofEntries es = (es.map ofEntry).reverse := by
  have hnodup : ((es.map ofEntry).map Prod.fst).Nodup := by
    rw [List.map_map]
    exact h.nodup
  rw [ofEntries, insertAll_eq hnodup (by simp), List.append_nil]

theorem perm_iter_ofEntries (order : IterOrder) {es : List Entry} (h : GoodList es) :
    (order.iter (ofEntries es)).Perm (es.map ofEntry) := by
  have hperm := order.perm (ofEntries es)
  rw [ofEntries_eq h] at hperm ⊢
  exact hperm.trans (List.reverse_perm _)

end Rust

/-- How many versions the entries list. -/
def versionCount (es : List Entry) : Nat := (es.map fun e => ((List.range' 0 64).filter fun v => e.lists v).length).sum

/-- The list is counted in Rust. -/
def Short (es : List Entry) : Prop := versionCount es ≤ Rust.MAX_PROTOCOLS_TO_EXPAND

instance (es : List Entry) : Decidable (Short es) := inferInstanceAs (Decidable (_ ≤ _))

namespace Rust

variable (order : IterOrder)

theorem len_ofEntries {es : List Entry} (h : GoodList es) :
    UnvalidatedProtoEntry.len order (ofEntries es) = versionCount es := by
  unfold UnvalidatedProtoEntry.len versionCount
  rw [((perm_iter_ofEntries order h).map _).sum_nat, List.map_map]
  congr 1
  apply List.map_congr_left
  intro e he
  have hle : ∀ r ∈ ProtoSet.sorted e.ranges, r.1 ≤ r.2 := fun r hr => (h.bounds e he r (ProtoSet.mem_sorted.mp hr)).1
  rw [← ProtoSet.expand_sorted (h.bounds e he) (h.ok e he), ProtoSet.length_expand hle]
  rfl

variable (all : HashMap Text (HashMap Nat Nat))

/-- One vote adds to the counts what it lists, unless it is long. -/
theorem countOf_countVote {es : List Entry} (h : GoodList es) (n : Text) (v : Nat) :
    countOf (countVote order all (ofEntries es)) n v =
      countOf all n v + if Short es ∧ listsIn es n v = true then 1 else 0 := by
  unfold countVote
  rw [len_ofEntries order h]
  by_cases hs : Short es
  · have hperm := (perm_iter_ofEntries order h).map fun e => if e.1 = n then e.2.expand.count v else 0
    rw [if_neg (Nat.not_lt.mpr hs)]
    show countOf (countProtocols all (order.iter (ofEntries es))) n v = _
    rw [countOf_countProtocols, hperm.sum_nat, sum_count h]
    simp [hs]
  · rw [if_pos (Nat.lt_of_not_le hs), if_neg fun h => hs h.1, Nat.add_zero]

theorem countOf_foldl {votes : List (List Entry)} (hgood : ∀ es ∈ votes, GoodList es) (n : Text) (v : Nat) :
    countOf ((votes.map ofEntries).foldl (countVote order) all) n v =
      countOf all n v + tally (votes.filter fun es => Short es) n v := by
  induction votes generalizing all with
  | nil => rfl
  | cons es votes ih =>
    obtain ⟨hes, hgood⟩ := List.forall_mem_cons.mp hgood
    rw [List.map_cons, List.foldl_cons, ih _ hgood, countOf_countVote order all hes]
    by_cases hs : Short es
    · rw [List.filter_cons_of_pos (by simpa using hs), tally, tally, List.countP_cons]
      simp only [hs, true_and]
      omega
    · rw [List.filter_cons_of_neg (by simpa using hs), if_neg fun h => hs h.1, Nat.add_zero]

/-- Every protocol and every version is there once. -/
structure Counted (all : HashMap Text (HashMap Nat Nat)) : Prop where
  nodup : HashMap.NodupKeys all
  versions : ∀ e ∈ all, HashMap.NodupKeys e.2

theorem nodupKeys_countVersions {m : HashMap Nat Nat} (h : HashMap.NodupKeys m) (versions : List Nat) :
    HashMap.NodupKeys (countVersions m versions) := by
  induction versions generalizing m with
  | nil => exact h
  | cons x versions ih => exact ih (HashMap.nodupKeys_insert h x _)

theorem counted_countProtocols {all : HashMap Text (HashMap Nat Nat)} (h : Counted all) (l : List (Text × ProtoSet)) :
    Counted (countProtocols all l) := by
  induction l generalizing all with
  | nil => exact h
  | cons e l ih =>
    apply ih
    have hold : HashMap.NodupKeys ((HashMap.get all e.1).getD []) := by
      cases hg : HashMap.get all e.1 with
      | none => exact HashMap.nodupKeys_nil
      | some m => exact h.versions (e.1, m) ((HashMap.mem_iff_get h.nodup).mpr hg)
    refine ⟨HashMap.nodupKeys_insert h.nodup _ _, fun x hx => ?_⟩
    rcases List.mem_cons.mp hx with rfl | hx
    · exact nodupKeys_countVersions hold _
    · exact h.versions x (List.mem_filter.mp hx).1

theorem counted_foldl {all : HashMap Text (HashMap Nat Nat)} (h : Counted all) (entries : List UnvalidatedProtoEntry) :
    Counted (entries.foldl (countVote order) all) := by
  induction entries generalizing all with
  | nil => exact h
  | cons vote entries ih =>
    apply ih
    unfold countVote
    split
    · exact h
    · exact counted_countProtocols h _

/-! ## The result -/

section

variable (order : IterOrder) {votes : List (List Entry)} {threshold : Nat} {all : HashMap Text (HashMap Nat Nat)}

section

variable (hgood : ∀ es ∈ votes, GoodList es) (ht : 0 < threshold) (hall : Counted all)
  (hcount : ∀ n v, countOf all n v = tally votes n v)
include hgood ht hall hcount

/-- The versions of a protocol that are left are those that win. -/
theorem perm_winning {e : Text × HashMap Nat Nat} (he : e ∈ all) :
    ((e.2.filter fun c => c.2 ≥ threshold).map Prod.fst).Perm (winning votes threshold e.1) := by
  have hnodup : ((e.2.filter fun c => c.2 ≥ threshold).map Prod.fst).Nodup :=
    List.Sublist.nodup (List.filter_sublist.map _) (hall.versions e he)
  rw [List.perm_ext_iff_of_nodup hnodup (winning_sorted.imp Nat.ne_of_lt)]
  intro v
  have hget : HashMap.get all e.1 = some e.2 := (HashMap.mem_iff_get hall.nodup).mp he
  have hv : tally votes e.1 v = (HashMap.get e.2 v).getD 0 := by
    rw [← hcount, countOf, hget]
    rfl
  constructor
  · intro hm
    obtain ⟨⟨x, c⟩, hc, rfl⟩ := List.mem_map.mp hm
    obtain ⟨hc, hle⟩ := List.mem_filter.mp hc
    rw [(HashMap.mem_iff_get (hall.versions e he)).mp hc] at hv
    apply winning_lt hgood ht
    rw [hv]
    exact of_decide_eq_true hle
  · intro hm
    have hle := (mem_winning.mp hm).2
    rw [hv] at hle
    cases hg : HashMap.get e.2 v with
    | none =>
      rw [hg] at hle
      exact absurd hle (Nat.not_le.mpr ht)
    | some c =>
      rw [hg] at hle
      have hmem := (HashMap.mem_iff_get (hall.versions e he)).mpr hg
      exact List.mem_map.mpr ⟨(v, c), List.mem_filter.mpr ⟨hmem, decide_eq_true hle⟩, rfl⟩

/-- One turn of the second loop inserts the runs of the versions that win. -/
theorem keepVoted_eq {e : Text × HashMap Nat Nat} (he : e ∈ all) (out : UnvalidatedProtoEntry) :
    keepVoted order threshold out e =
      if winning votes threshold e.1 ≠ [] then HashMap.insert out e.1 ⟨runs (winning votes threshold e.1)⟩ else out := by
  have hperm := perm_winning hgood ht hall hcount he
  have hlen := hperm.length_eq
  rw [List.length_map] at hlen
  unfold keepVoted
  simp only [hlen, List.length_pos_iff_ne_nil]
  have hset : ProtoSet.ofVersions ((order.iter (e.2.filter fun c => c.2 ≥ threshold)).map (·.1)) =
      ⟨runs (winning votes threshold e.1)⟩ := by
    apply ProtoSet.ofVersions_eq (((order.perm _).map _).trans hperm) winning_sorted
    intro v hv
    exact ⟨winning_pos hgood ht v hv, Nat.le_of_lt_succ (mem_winning.mp hv).1⟩
  rw [hset]

theorem foldl_keepVoted {l : List (Text × HashMap Nat Nat)} (hl : ∀ e ∈ l, e ∈ all) (out : UnvalidatedProtoEntry) :
    l.foldl (keepVoted order threshold) out = insertAll out
      (((l.map Prod.fst).filter fun n => winning votes threshold n ≠ []).map fun n => (n, ⟨runs (winning votes threshold n)⟩)) := by
  induction l generalizing out with
  | nil => rfl
  | cons e l ih =>
    obtain ⟨he, hl⟩ := List.forall_mem_cons.mp hl
    rw [List.foldl_cons, ih hl, keepVoted_eq order hgood ht hall hcount he, List.map_cons]
    by_cases hw : winning votes threshold e.1 = []
    · rw [if_neg (not_not.mpr hw), List.filter_cons_of_neg (by simpa using hw)]
    · rw [if_pos hw, List.filter_cons_of_pos (by simpa using hw), List.map_cons]
      rfl

end

/-- No votes make no result, as the loops have it too. -/
theorem compute_eq (entries : List UnvalidatedProtoEntry) :
    compute order entries threshold =
      (order.iter (entries.foldl (countVote order) [])).foldl (keepVoted order threshold) [] := by
  unfold compute
  by_cases hnil : entries = []
  · subst hnil
    have hiter : order.iter ([] : HashMap Text (HashMap Nat Nat)) = [] := List.perm_nil.mp (order.perm _)
    rw [if_pos rfl, List.foldl_nil, hiter, List.foldl_nil]
  · rw [if_neg hnil]

/-- The names are printed, then sorted. -/
theorem protoverComputeVote_perm {lists : List Text}
    (hparse : (lists.filterMap fun datum => (UnvalidatedProtoEntry.fromStr datum).toOption) = votes.map ofEntries)
    (hgood : ∀ es ∈ votes, GoodList es) (ht : 0 < threshold) :
    ∃ names parts : List Text, names.Nodup ∧
      (∀ n, n ∈ names ↔ winning (votes.filter fun es => Short es) threshold n ≠ []) ∧
      parts.Perm (names.map fun n => part (winning (votes.filter fun es => Short es) threshold n) n) ∧
      protoverComputeVote order lists threshold = [' '].intercalate (parts.insertionSort StrLe) := by
  have hgood' : ∀ es ∈ votes.filter (fun es => Short es), GoodList es := fun es hes => hgood es (List.mem_filter.mp hes).1
  have hcount : ∀ n v, countOf ((votes.map ofEntries).foldl (countVote order) []) n v =
      tally (votes.filter fun es => Short es) n v := by
    intro n v
    rw [countOf_foldl order [] hgood n v]
    exact Nat.zero_add _
  have hall := counted_foldl order ⟨HashMap.nodupKeys_nil, by simp⟩ (votes.map ofEntries)
  have hfold := foldl_keepVoted order hgood' ht hall hcount (fun e he => (order.perm _).mem_iff.mp he) []
  rw [← compute_eq] at hfold
  generalize hnames : (order.iter ((votes.map ofEntries).foldl (countVote order) [])).map Prod.fst = keys at hfold
  generalize (votes.map ofEntries).foldl (countVote order) [] = all at hcount hall hnames
  have hkeys : keys.Nodup := by
    rw [← hnames]
    exact ((order.perm all).map Prod.fst).nodup_iff.mpr hall.nodup
  have hmem : ∀ n, winning (votes.filter fun es => Short es) threshold n ≠ [] → n ∈ keys := by
    intro n hw
    obtain ⟨v, hv⟩ := List.exists_mem_of_ne_nil _ hw
    have hle := (mem_winning.mp hv).2
    rw [← hcount, countOf] at hle
    cases hg : HashMap.get all n with
    | none =>
      rw [hg] at hle
      exact absurd hle (Nat.not_le.mpr ht)
    | some m =>
      rw [← hnames]
      exact ((order.perm all).map Prod.fst).mem_iff.mpr (List.mem_map_of_mem ((HashMap.mem_iff_get hall.nodup).mpr hg))
  have hnodup := hkeys.filter fun n => decide (winning (votes.filter fun es => Short es) threshold n ≠ [])
  rw [insertAll_eq (by rw [List.map_map]; exact (List.map_id _).symm ▸ hnodup) (by simp), List.append_nil] at hfold
  refine ⟨_, (order.iter (compute order (votes.map ofEntries) threshold)).map fun e => e.1 ++ '=' :: e.2.toString,
    hnodup, fun n => ?_, ?_, ?_⟩
  · rw [List.mem_filter, decide_eq_true_eq]
    exact ⟨And.right, fun hw => ⟨hmem n hw, hw⟩⟩
  · have hperm := order.perm (compute order (votes.map ofEntries) threshold)
    rw [hfold] at hperm ⊢
    have hprint := (hperm.trans (List.reverse_perm _)).map fun e => e.1 ++ '=' :: e.2.toString
    rw [List.map_map] at hprint
    exact hprint
  · unfold protoverComputeVote UnvalidatedProtoEntry.toString
    rw [hparse]

end

end Rust

/-! ## Printed entries -/

theorem pairToString_injective {r r' : Nat × Nat} (h : Rust.ProtoSet.pairToString r = Rust.ProtoSet.pairToString r') :
    r = r' := by
  have hdec : ∀ {a b : Nat}, decimal a = decimal b → a = b := by
    intro a b hab
    rw [← ofDigitChars_decimal a, hab, ofDigitChars_decimal]
  have hdash : ∀ a : Nat, '-' ∉ decimal a := fun a hm => absurd (isDigit_decimal _ hm) (by decide)
  unfold Rust.ProtoSet.pairToString at h
  by_cases h1 : r.1 = r.2
  · by_cases h2 : r'.1 = r'.2
    · rw [if_neg (not_not.mpr h1), if_neg (not_not.mpr h2)] at h
      have := hdec h
      exact Prod.ext this (by omega)
    · rw [if_neg (not_not.mpr h1), if_pos h2] at h
      exact absurd (show '-' ∈ decimal r.1 by rw [h]; simp) (hdash _)
  · by_cases h2 : r'.1 = r'.2
    · rw [if_pos h1, if_neg (not_not.mpr h2)] at h
      exact absurd (show '-' ∈ decimal r'.1 by rw [← h]; simp) (hdash _)
    · rw [if_pos h1, if_pos h2] at h
      have htake := congrArg (List.takeWhile (· ≠ '-')) h
      have hdrop := congrArg (List.dropWhile (· ≠ '-')) h
      rw [takeWhile_sep (hdash _), takeWhile_sep (hdash _)] at htake
      rw [dropWhile_sep (hdash _), dropWhile_sep (hdash _)] at hdrop
      exact Prod.ext (hdec htake) (hdec (List.cons.inj hdrop).2)

variable {c : Char} {rs : List (Nat × Nat)} {n m : Text} {votes : List (List Entry)} {threshold : Nat}

/-- Digits, dashes and commas. -/
theorem mem_pairToString {r : Nat × Nat} (h : c ∈ Rust.ProtoSet.pairToString r) : c.isDigit = true ∨ c = '-' := by
  unfold Rust.ProtoSet.pairToString at h
  split at h
  · rcases List.mem_append.mp h with h | h
    · exact .inl (isDigit_decimal _ h)
    · rcases List.mem_cons.mp h with rfl | h
      · exact .inr rfl
      · exact .inl (isDigit_decimal _ h)
  · exact .inl (isDigit_decimal _ h)

theorem comma_notMem_pairToString (r : Nat × Nat) : ',' ∉ Rust.ProtoSet.pairToString r := by
  intro h
  rcases mem_pairToString h with h | h
  · exact absurd h (by decide)
  · exact absurd h (by decide)

/-- Digits, dashes and commas. -/
theorem mem_rangesText {first : Bool} (h : c ∈ rangesText first rs) : c.isDigit = true ∨ c = '-' ∨ c = ',' := by
  induction rs generalizing first with
  | nil => cases first <;> simp [rangesText] at h
  | cons r rs ih =>
    rw [rangesText_cons] at h
    rcases List.mem_append.mp h with h | h
    · rcases List.mem_append.mp h with h | h
      · cases first with
        | true => simp at h
        | false => exact .inr (.inr (by simpa using h))
      · rcases mem_pairToString h with h | h
        · exact .inl h
        · exact .inr (.inl h)
    · exact ih h

theorem splitOn_rangesText (h : rs ≠ []) :
    (rangesText true rs).splitOn ',' = rs.map Rust.ProtoSet.pairToString := by
  apply List.splitOn_intercalate
  · intro t ht
    obtain ⟨r, -, rfl⟩ := List.mem_map.mp ht
    exact comma_notMem_pairToString r
  · simpa using h

theorem rangesText_injective {rs' : List (Nat × Nat)} (hrs : rs ≠ []) (hrs' : rs' ≠ [])
    (h : rangesText true rs = rangesText true rs') : rs = rs' := by
  have hmap := splitOn_rangesText hrs
  rw [h, splitOn_rangesText hrs'] at hmap
  exact (List.map_injective_iff.mpr fun _ _ => pairToString_injective) hmap.symm

/-- The characters of a name. -/
theorem mem_isName (h : isName n = true) (hc : c ∈ n) : c.isAlphanum = true ∨ c = '-' :=
  of_decide_eq_true (List.all_eq_true.mp (of_decide_eq_true h).2.2 c hc)

theorem equals_notMem_name (h : isName n = true) : '=' ∉ n := by
  intro hm
  rcases mem_isName h hm with h | h
  · exact absurd h (by decide)
  · exact absurd h (by decide)

theorem mem_part (h : isName n = true) {versions : List Nat} (hc : c ∈ part versions n) :
    c.isAlphanum = true ∨ c = '-' ∨ c = '=' ∨ c = ',' := by
  rcases List.mem_append.mp hc with hc | hc
  · rcases mem_isName h hc with h | h
    · exact .inl h
    · exact .inr (.inl h)
  rcases List.mem_cons.mp hc with hc | hc
  · exact .inr (.inr (.inl hc))
  rcases mem_rangesText hc with h | h | h
  · rw [Char.isAlphanum, h, Bool.or_true]
    exact .inl rfl
  · exact .inr (.inl h)
  · exact .inr (.inr (.inr h))

theorem blank_notMem_part (h : isName n = true) (versions : List Nat) : ' ' ∉ part versions n := by
  intro hm
  rcases mem_part h hm with h | h | h | h
  all_goals exact absurd h (by decide)

/-- An entry of the result tells its name and its versions. -/
theorem part_injective {v w : List Nat} (hn : isName n = true) (hm : isName m = true) (hv : v ≠ [])
    (hw : w ≠ []) (h : part v n = part w m) : n = m ∧ v = w := by
  have htake := congrArg (List.takeWhile (· ≠ '=')) h
  have hdrop := congrArg (List.dropWhile (· ≠ '=')) h
  unfold part at htake hdrop
  rw [takeWhile_sep (equals_notMem_name hn), takeWhile_sep (equals_notMem_name hm)] at htake
  rw [dropWhile_sep (equals_notMem_name hn), dropWhile_sep (equals_notMem_name hm)] at hdrop
  have hruns : ∀ {l : List Nat}, l ≠ [] → runs l ≠ [] := by
    intro l hl
    obtain ⟨a, l, rfl⟩ := List.exists_cons_of_ne_nil hl
    obtain ⟨hi, rs, hr⟩ := runs_cons a l
    rw [hr]
    exact List.cons_ne_nil _ _
  exact ⟨htake, runs_injective (rangesText_injective (hruns hv) (hruns hw) (List.cons.inj hdrop).2)⟩

theorem nonblank_intercalate {l : List Text} (hl : ∀ t ∈ l, ' ' ∉ t ∧ t ≠ []) :
    C.nonblank ([' '].intercalate l) = l := by
  unfold C.nonblank
  by_cases hnil : l = []
  · subst hnil
    rfl
  · rw [List.splitOn_intercalate ' ' (fun t ht => (hl t ht).1) hnil, List.filter_eq_self.mpr]
    intro t ht
    exact decide_eq_true (hl t ht).2

theorem intercalate_blank_injective {l l' : List Text} (hl : ∀ t ∈ l, ' ' ∉ t ∧ t ≠ []) (hl' : ∀ t ∈ l', ' ' ∉ t ∧ t ≠ [])
    (h : [' '].intercalate l = [' '].intercalate l') : l = l' := by
  rw [← nonblank_intercalate hl, h, nonblank_intercalate hl']

/-- The second name is the first one, then a digit or a dash: characters before `=`. -/
def ExtendedBy (n m : Text) : Prop := ∃ c rest, m = n ++ c :: rest ∧ (c.isDigit = true ∨ c = '-')

theorem equals_le_iff (h : c.isAlphanum = true ∨ c = '-') : 61 ≤ c.toNat ↔ ¬ (c.isDigit = true ∨ c = '-') := by
  have hdash : c = '-' ↔ c.toNat = 45 := by
    rw [← Char.toNat_inj]
    exact Iff.rfl
  have halnum : c.isAlphanum = (decide (c.val ≥ 'A'.val ∧ c.val ≤ 'Z'.val) ||
      (decide (c.val ≥ 'a'.val) && decide (c.val ≤ 'z'.val)) || c.isDigit) := rfl
  rw [hdash] at h ⊢
  simp only [halnum, Char.isDigit, Bool.or_eq_true, Bool.and_eq_true, decide_eq_true_eq, ge_iff_le,
    UInt32.le_iff_toNat_le] at h ⊢
  have hA : 'A'.val.toNat = 65 ∧ 'Z'.val.toNat = 90 := ⟨rfl, rfl⟩
  have ha : 'a'.val.toNat = 97 ∧ 'z'.val.toNat = 122 := ⟨rfl, rfl⟩
  have h0 : '0'.val.toNat = 48 ∧ '9'.val.toNat = 57 := ⟨rfl, rfl⟩
  have hc : c.val.toNat = c.toNat := rfl
  omega

/-- The entries of two names are in the order of the names, unless the greater one extends
    the other. -/
theorem part_le_iff {x y : Text} (hm : ∀ c ∈ m, c.isAlphanum = true ∨ c = '-') (hle : StrLe n m) (hne : n ≠ m) :
    StrLe (n ++ '=' :: x) (m ++ '=' :: y) ↔ ¬ ExtendedBy n m := by
  induction n generalizing m with
  | nil =>
    cases m with
    | nil => exact absurd rfl hne
    | cons c m =>
      have hc := hm c List.mem_cons_self
      have hceq : '=' ≠ c := by
        rintro rfl
        exact absurd hc (by decide)
      have hext : ExtendedBy [] (c :: m) ↔ c.isDigit = true ∨ c = '-' := by
        constructor
        · rintro ⟨d, rest, heq, hd⟩
          cases heq
          exact hd
        · intro h
          exact ⟨c, m, rfl, h⟩
      rw [hext, ← equals_le_iff hc, StrLe, List.nil_append, List.cons_append, strcmp_cons, if_neg hceq]
      have : ('=' : Char).toNat = 61 := rfl
      omega
  | cons a n ih =>
    cases m with
    | nil => exact absurd hle (by simp [StrLe, strcmp])
    | cons b m =>
      unfold StrLe at hle
      rw [strcmp_cons] at hle
      rw [StrLe, List.cons_append, List.cons_append, strcmp_cons]
      by_cases hab : a = b
      · subst hab
        rw [if_pos rfl] at hle ⊢
        have hext : ExtendedBy (a :: n) (a :: m) ↔ ExtendedBy n m := by simp [ExtendedBy]
        rw [hext]
        exact ih (fun c hc => hm c (List.mem_cons_of_mem _ hc)) hle (fun e => hne (by rw [e]))
      · rw [if_neg hab] at hle ⊢
        refine iff_of_true hle ?_
        rintro ⟨c, rest, heq, -⟩
        exact hab (List.cons.inj heq).1.symm

theorem strLe_of_extendedBy (h : ExtendedBy n m) : StrLe n m ∧ n ≠ m := by
  obtain ⟨c, rest, rfl, -⟩ := h
  constructor
  · have hcmp := strcmp_append n [] (c :: rest)
    rw [List.append_nil] at hcmp
    unfold StrLe
    rw [hcmp]
    simp [strcmp]
  · simp

/-! ## When the votes agree -/

theorem entries_names {s : Text} {es : List Entry} (h : entries s = some es) : ∀ e ∈ es, isName e.name = true := by
  unfold entries at h
  split at h
  · cases h
    simp
  · intro e he
    obtain ⟨p, -, hp⟩ := mem_mapM h e he
    unfold entry at hp
    split at hp
    · rename_i hname
      obtain ⟨rs, -, rfl⟩ := Option.map_eq_some_iff.mp hp
      exact hname.2
    · cases hp

/-- A string that both take, without repeated names. -/
def Accepted (s : Text) : Prop :=
  (∃ protos, C.parseProtocolList s = some protos ∧ (protos.map C.ProtoEntry.name).Nodup) ∧
    (Rust.UnvalidatedProtoEntry.fromStr s).toOption.isSome = true

theorem accepted_entries {s : Text} (h : Accepted s) :
    ∃ es, entries s = some es ∧ GoodList es ∧ C.parseProtocolList s = some (es.map C.ofEntry) ∧
      (Rust.UnvalidatedProtoEntry.fromStr s).toOption = some (Rust.ofEntries es) := by
  obtain ⟨⟨protos, hc, hnodup⟩, hr⟩ := h
  have hc' := hc
  rw [C.parseProtocolList_eq] at hc'
  split at hc'
  · cases hc'
  · obtain ⟨es, hes, rfl⟩ := Option.map_eq_some_iff.mp hc'
    rw [Rust.fromStr_eq, hes, Option.bind_some] at hr ⊢
    split at hr
    · rename_i hs
      split at hr
      · rename_i hok
        rw [List.map_map] at hnodup
        exact ⟨es, rfl, ⟨entries_names hes, hnodup, entries_bounds hes, hok⟩, hc, by rw [if_pos hs, if_pos hok]; rfl⟩
      · cases hr
    · cases hr

theorem filterMap_accepted {lists : List Text} (h : ∀ s ∈ lists, Accepted s) :
    lists.filterMap C.parseProtocolList = (lists.filterMap entries).map (List.map C.ofEntry) ∧
      (lists.filterMap fun datum => (Rust.UnvalidatedProtoEntry.fromStr datum).toOption) =
        (lists.filterMap entries).map Rust.ofEntries ∧
      ∀ es ∈ lists.filterMap entries, GoodList es := by
  induction lists with
  | nil => simp
  | cons s lists ih =>
    obtain ⟨hs, hrest⟩ := List.forall_mem_cons.mp h
    obtain ⟨es, hes, hgood, hc, hr⟩ := accepted_entries hs
    obtain ⟨ih1, ih2, ih3⟩ := ih hrest
    simp only [List.filterMap_cons, hes, hc, hr, ih1, ih2]
    exact ⟨rfl, rfl, List.forall_mem_cons.mpr ⟨hgood, ih3⟩⟩

/-- The entries of the result, as texts between blanks. -/
theorem parts_wellFormed (hgood : ∀ es ∈ votes, GoodList es) (ht : 0 < threshold)
    {names : List Text} (hnames : ∀ n ∈ names, winning votes threshold n ≠ []) :
    ∀ t ∈ names.map (fun n => part (winning votes threshold n) n), ' ' ∉ t ∧ t ≠ [] := by
  intro t hmem
  obtain ⟨n, hn, rfl⟩ := List.mem_map.mp hmem
  exact ⟨blank_notMem_part (winning_name hgood ht (hnames n hn)) _, by simp [part]⟩

/-- Equal entries of the results mean equal versions. -/
theorem winning_eq_of_perm {votes' : List (List Entry)} (hgood : ∀ es ∈ votes, GoodList es)
    (hgood' : ∀ es ∈ votes', GoodList es) (ht : 0 < threshold) {names names' : List Text}
    (hnames : ∀ n, n ∈ names ↔ winning votes threshold n ≠ []) (hnames' : ∀ n, n ∈ names' ↔ winning votes' threshold n ≠ [])
    (hsub : ∀ t ∈ names.map fun n => part (winning votes threshold n) n,
      t ∈ names'.map fun n => part (winning votes' threshold n) n) (hw : winning votes threshold n ≠ []) :
    winning votes' threshold n = winning votes threshold n := by
  obtain ⟨m, hm, heq⟩ := List.mem_map.mp (hsub _ (List.mem_map_of_mem ((hnames n).mpr hw)))
  have hmw := (hnames' m).mp hm
  obtain ⟨rfl, hv⟩ := part_injective (winning_name hgood' ht hmw) (winning_name hgood ht hw) hmw hw heq
  exact hv

/-- With the names in order, the entries are in order exactly if no name extends another. -/
theorem pairwise_parts_iff (hgood : ∀ es ∈ votes, GoodList es) (ht : 0 < threshold) :
    ((C.chosen votes threshold).map fun n => part (winning votes threshold n) n).Pairwise StrLe ↔
      ∀ n m, winning votes threshold n ≠ [] → winning votes threshold m ≠ [] → ¬ ExtendedBy n m := by
  have hname : ∀ {n : Text}, winning votes threshold n ≠ [] → ∀ c ∈ n, c.isAlphanum = true ∨ c = '-' :=
    fun hw c hc => mem_isName (winning_name hgood ht hw) hc
  rw [List.pairwise_map]
  constructor
  · intro hpair n m hn hm hext
    obtain ⟨hle, hne⟩ := strLe_of_extendedBy hext
    -- of the two names the smaller one stands first, and so does its entry
    let S : Text → Text → Prop := fun n m =>
      (StrLe n m ∧ StrLe (part (winning votes threshold n) n) (part (winning votes threshold m) m)) ∨
        (StrLe m n ∧ StrLe (part (winning votes threshold m) m) (part (winning votes threshold n) n))
    have hS : Std.Symm S := ⟨fun _ _ => Or.symm⟩
    have hall : (C.chosen votes threshold).Pairwise S :=
      (C.pairwise_chosen.and hpair).imp fun h => .inl h
    rcases hall.forall ((C.mem_chosen ht).mpr hn) ((C.mem_chosen ht).mpr hm) hne with ⟨-, h⟩ | ⟨h, -⟩
    · exact (part_le_iff (hname hm) hle hne).mp h hext
    · exact hne (strcmp_antisymm hle h)
  · intro hno
    refine (C.pairwise_chosen.and C.nodup_chosen).imp_of_mem fun {n m} hn hm h => ?_
    have hn := (C.mem_chosen ht).mp hn
    have hm := (C.mem_chosen ht).mp hm
    exact (part_le_iff (hname hm) h.1 h.2).mpr (hno n m hn hm)

/-- The condition: the lists too long for Rust decide no version, and no name of the result
    is another one and a digit or a dash. -/
def VotesAgree (votes : List (List Entry)) (threshold : Nat) : Prop :=
  (∀ n v, threshold ≤ tally votes n v ↔ threshold ≤ tally (votes.filter fun es => Short es) n v) ∧
    ∀ n m, winning votes threshold n ≠ [] → winning votes threshold m ≠ [] → ¬ ExtendedBy n m

section

variable (order : Rust.IterOrder) {lists : List Text} {threshold : Nat} (hlen : lists.length < 256)
  (hacc : ∀ s ∈ lists, Accepted s) (ht : 1 ≤ threshold)
include hlen hacc ht

theorem votesAgree_of_eq
    (h : C.protoverComputeVote lists threshold = some (Rust.protoverComputeVote order lists threshold)) :
    VotesAgree (lists.filterMap entries) threshold := by
  obtain ⟨hc, hr, hgood⟩ := filterMap_accepted hacc
  generalize lists.filterMap entries = votes at hc hr hgood
  have hgood' : ∀ es ∈ votes.filter (fun es => Short es), GoodList es := fun es hes => hgood es (List.mem_filter.mp hes).1
  obtain ⟨names, parts, hnodup, hnames, hperm, hrust⟩ := Rust.protoverComputeVote_perm order hr hgood ht
  rw [C.protoverComputeVote_eq hlen hc hgood ht, hrust, Option.some.injEq] at h
  have hchosen : ∀ n, n ∈ C.chosen votes threshold ↔ winning votes threshold n ≠ [] := fun n => C.mem_chosen ht
  have hsort := List.perm_insertionSort StrLe parts
  have hwf' : ∀ t ∈ parts.insertionSort StrLe, ' ' ∉ t ∧ t ≠ [] := fun t hmem =>
    parts_wellFormed hgood' ht (fun n hn => (hnames n).mp hn) t ((hsort.trans hperm).mem_iff.mp hmem)
  have heq := intercalate_blank_injective (parts_wellFormed hgood ht fun n hn => (hchosen n).mp hn) hwf' h
  have hboth := (heq ▸ hsort).trans hperm
  refine ⟨fun n v => ?_, (pairwise_parts_iff hgood ht).mp (heq ▸ List.pairwise_insertionSort StrLe parts)⟩
  constructor
  · intro hle
    have hv := winning_lt hgood ht hle
    have hw := winning_eq_of_perm hgood hgood' ht hchosen hnames (fun t => hboth.mem_iff.mp) (List.ne_nil_of_mem hv)
    rw [← hw] at hv
    exact (mem_winning.mp hv).2
  · intro hle
    have hv := winning_lt hgood' ht hle
    have hw := winning_eq_of_perm hgood' hgood ht hnames hchosen (fun t => hboth.mem_iff.mpr) (List.ne_nil_of_mem hv)
    rw [← hw] at hv
    exact (mem_winning.mp hv).2

theorem eq_of_votesAgree (h : VotesAgree (lists.filterMap entries) threshold) :
    C.protoverComputeVote lists threshold = some (Rust.protoverComputeVote order lists threshold) := by
  obtain ⟨hc, hr, hgood⟩ := filterMap_accepted hacc
  generalize lists.filterMap entries = votes at hc hr hgood h
  obtain ⟨hsame, hext⟩ := h
  obtain ⟨names, parts, hnodup, hnames, hperm, hrust⟩ := Rust.protoverComputeVote_perm order hr hgood ht
  have hwin : ∀ n, winning (votes.filter fun es => Short es) threshold n = winning votes threshold n := by
    intro n
    apply List.filter_congr
    intro v _
    rw [Bool.eq_iff_iff, decide_eq_true_eq, decide_eq_true_eq]
    exact (hsame n v).symm
  simp only [hwin] at hperm hnames
  have hboth : (C.chosen votes threshold).Perm names := by
    rw [List.perm_ext_iff_of_nodup C.nodup_chosen hnodup]
    intro n
    rw [C.mem_chosen ht, hnames]
  have heq : ((C.chosen votes threshold).map fun n => part (winning votes threshold n) n) = parts.insertionSort StrLe := by
    apply List.Perm.eq_of_pairwise' (r := StrLe)
    · exact (pairwise_parts_iff hgood ht).mpr hext
    · exact List.pairwise_insertionSort StrLe parts
    · exact (hboth.map _).trans ((List.perm_insertionSort StrLe parts).trans hperm).symm
  rw [C.protoverComputeVote_eq hlen hc hgood ht, hrust, heq]

/-- The votes in C and in Rust give the same string exactly under `VotesAgree`. -/
theorem votes_agree_iff :
    C.protoverComputeVote lists threshold = some (Rust.protoverComputeVote order lists threshold) ↔
      VotesAgree (lists.filterMap entries) threshold :=
  ⟨votesAgree_of_eq order hlen hacc ht, eq_of_votesAgree order hlen hacc ht⟩

end

/-- The entries as they are stored. -/
def storedOrder : Rust.IterOrder where
  iter := id
  perm := List.Perm.refl

/-- `Link=1 LinkAuth=3`, an `A` being after `=`. -/
theorem votes_agree_linkAuth :
    C.protoverComputeVote [['L', 'i', 'n', 'k', '=', '1', ' ', 'L', 'i', 'n', 'k', 'A', 'u', 't', 'h', '=', '3']] (1 : Nat) =
      some (Rust.protoverComputeVote storedOrder
        [['L', 'i', 'n', 'k', '=', '1', ' ', 'L', 'i', 'n', 'k', 'A', 'u', 't', 'h', '=', '3']] 1) := by
  have hentries : [['L', 'i', 'n', 'k', '=', '1', ' ', 'L', 'i', 'n', 'k', 'A', 'u', 't', 'h', '=', '3']].filterMap entries =
      [[⟨['L', 'i', 'n', 'k'], [(1, 1)]⟩, ⟨['L', 'i', 'n', 'k', 'A', 'u', 't', 'h'], [(3, 3)]⟩]] := by decide
  refine (votes_agree_iff storedOrder (by decide) ?_ (Nat.le_refl 1)).mpr ?_
  · intro s hs
    rw [List.mem_singleton.mp hs]
    refine ⟨⟨_, by rw [C.parseProtocolList_eq, if_neg (by decide)]; rfl, by decide⟩, by decide⟩
  · rw [hentries]
    refine ⟨fun n v => Iff.rfl, fun n m hn hm hext => ?_⟩
    have hname : ∀ {x : Text}, winning [[⟨['L', 'i', 'n', 'k'], [(1, 1)]⟩,
        ⟨['L', 'i', 'n', 'k', 'A', 'u', 't', 'h'], [(3, 3)]⟩]] 1 x ≠ [] →
          x = ['L', 'i', 'n', 'k'] ∨ x = ['L', 'i', 'n', 'k', 'A', 'u', 't', 'h'] := by
      intro x hx
      obtain ⟨v, hv⟩ := List.exists_mem_of_ne_nil _ hx
      obtain ⟨es, hes, e, he, rfl, -⟩ := exists_lists (Nat.le_refl 1) (mem_winning.mp hv).2
      rw [List.mem_singleton.mp hes] at he
      rcases List.mem_cons.mp he with rfl | he
      · exact Or.inl rfl
      · rw [List.mem_singleton.mp he]
        exact Or.inr rfl
    obtain ⟨c, rest, heq, hc⟩ := hext
    rcases hname hn with rfl | rfl
    · rcases hname hm with rfl | rfl
      · simp at heq
      · cases heq
        exact absurd hc (by decide)
    · rcases hname hm with rfl | rfl
      · simp at heq
      · simp at heq

/-- `Link=1 Link2=1`: in C the names are in this order, in Rust `Link2=1` is before
    `Link=1`. -/
theorem a_digit_after_a_name_changes_the_order :
    Accepted ['L', 'i', 'n', 'k', '=', '1', ' ', 'L', 'i', 'n', 'k', '2', '=', '1'] ∧
      C.protoverComputeVote [['L', 'i', 'n', 'k', '=', '1', ' ', 'L', 'i', 'n', 'k', '2', '=', '1']] (1 : Nat) ≠
        some (Rust.protoverComputeVote storedOrder
          [['L', 'i', 'n', 'k', '=', '1', ' ', 'L', 'i', 'n', 'k', '2', '=', '1']] 1) := by
  have hacc : Accepted ['L', 'i', 'n', 'k', '=', '1', ' ', 'L', 'i', 'n', 'k', '2', '=', '1'] :=
    ⟨⟨_, by rw [C.parseProtocolList_eq, if_neg (by decide)]; rfl, by decide⟩, by decide⟩
  refine ⟨hacc, fun h => ?_⟩
  obtain ⟨-, hext⟩ := votesAgree_of_eq storedOrder (by decide) (by simpa using hacc) (Nat.le_refl 1) h
  exact hext ['L', 'i', 'n', 'k'] ['L', 'i', 'n', 'k', '2'] (by decide) (by decide) ⟨'2', [], rfl, Or.inl (by decide)⟩

end Badnet.Protover

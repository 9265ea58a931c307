/-
  Badnet.Dirauth.ConsensusMethod — the consensus method that enough votes support (`compute_consensus_method`).

  The methods are sorted as numbers, but counted as texts. Where votes spell the number of the highest method in two
  ways, as `5` and `05`, a sort can put the spellings between one another. The result is right for every order if and
  only if there is no such choice (`method_right_iff`).
-/

import Badnet.Lib.Lexicographic
import Badnet.Versions.VersionOrder

namespace Badnet.Dirauth

open Lib Encoding Protover Versions

/-- `(int)tor_parse_long(s, 10, 1, INT_MAX, NULL, NULL)`. -/
def intOfMethod (s : Text) : Int := (torParseLong s 1 2147483647).getD 0

def cmpIntStrings (a b : Text) : Int :=
  let ai := intOfMethod a
  let bi := intOfMethod b
  if ai < bi then -1
  else if ai = bi then if ai = 0 then strcmp a b else 0
  else 1

/-- The loop of `get_frequent_members`: the run of `cur` at hand is `count` long. -/
def frequentFrom (min : Nat) (cur : Text) (count : Nat) : List Text → List Text
  | [] => if count > min then [cur] else []
  | cp :: rest =>
    if strcmp cp cur = 0 then frequentFrom min cur (count + 1) rest
    else (if count > min then [cur] else []) ++ frequentFrom min cp 1 rest

def getFrequentMembers (min : Nat) : List Text → List Text
  | [] => []
  | cp :: rest => frequentFrom min cp 1 rest

/-- The methods of all votes; `sort i` is the `i`-th call of `smartlist_sort`. -/
def allMethods (sort : Nat → List Text → List Text) (i : Nat) : List (List Text) → List Text
  | [] => []
  | supportedMethods :: votes =>
    smartlistUniq cmpIntStrings (sort i supportedMethods) ++ allMethods sort (i + 1) votes

def computeConsensusMethod (sort : Nat → List Text → List Text) (votes : List (List Text)) : Int :=
  let min := votes.length * 2 / 3
  let methods := sort votes.length (allMethods sort 0 votes)
  match (getFrequentMembers min methods).getLast? with
  | none => 1
  | some best => intOfMethod best

/-! ## Methods as numbers -/

def numberOf (s : Text) : Nat := Nat.ofDigitChars 10 s 0

/-- Digits, with a number that an `int` can hold. -/
structure IsMethod (s : Text) : Prop where
  nonempty : s ≠ []
  digits : s.all Char.isDigit = true
  pos : 1 ≤ numberOf s
  fits : numberOf s ≤ 2147483647

variable {s t x y m : Text} {l l' a : List Text} {votes votes' : List (List Text)} {min : Nat}

theorem IsMethod.intOf (h : IsMethod s) : intOfMethod s = numberOf s := by
  have hdigit : ∀ c ∈ s, c.isDigit = true := List.all_eq_true.mp h.digits
  have hpos := h.pos
  have hfits := h.fits
  obtain ⟨c, rest, rfl⟩ := List.exists_cons_of_ne_nil h.nonempty
  have hc := hdigit c List.mem_cons_self
  obtain ⟨hspace, hminus, hplus⟩ := digit_starts_number hc
  have hdrop : (c :: rest).dropWhile isspace = c :: rest := List.dropWhile_cons_of_neg (by rw [hspace]; decide)
  have htake : (c :: rest).takeWhile Char.isDigit = c :: rest := List.takeWhile_eq_self_iff.mpr hdigit
  have hneg : ¬ (c :: rest).head? = some '-' := fun he => hminus (Option.some.inj he)
  have hplus' : ¬ (c :: rest).head? = some '+' := fun he => hplus (Option.some.inj he)
  have hstrtol : strtol (c :: rest) = ((numberOf (c :: rest) : Int), [], false) := by
    unfold strtol
    simp only [hdrop, hneg, hplus', htake, false_or, if_false, List.drop_length, false_and, not_false_eq_true, true_and,
      reduceCtorEq]
    rw [numberOf] at hfits ⊢
    rw [if_neg (by rw [LONG_MAX]; omega)]
  rw [intOfMethod, torParseLong, hstrtol]
  simp only
  rw [if_neg]
  · rfl
  · simp only [Bool.false_eq_true, List.length_nil, List.length_cons, false_or, ne_eq, not_true_eq_false]
    omega

/-- On methods the comparison is that of the numbers. -/
theorem cmpIntStrings_orders (hs : IsMethod s) (ht : IsMethod t) : Orders (cmpIntStrings s t) (numberOf s) (numberOf t) := by
  have hpos := hs.pos
  rw [cmpIntStrings, hs.intOf, ht.intOf]
  split
  · exact ⟨by omega, by omega⟩
  · split
    · rw [if_neg (by omega)]
      exact ⟨by omega, by omega⟩
    · exact ⟨by omega, by omega⟩

theorem cmpIntStrings_zero_iff (hs : IsMethod s) (ht : IsMethod t) : cmpIntStrings s t = 0 ↔ numberOf s = numberOf t := by
  have horders := cmpIntStrings_orders hs ht
  have hlt := horders.1
  have hgt := horders.2
  omega

theorem cmpIntStrings_totalPreorderOn (h : ∀ s ∈ l, IsMethod s) : TotalPreorderOn (· ∈ l) cmpIntStrings := by
  have hby : ComparesBy (· ∈ l) cmpIntStrings numberOf := fun a b ha hb => cmpIntStrings_orders (h a ha) (h b hb)
  exact hby.totalPreorderOn (by omega)

/-- A sorted list of methods has its numbers in order. -/
theorem numbers_sorted (h : ∀ s ∈ l, IsMethod s) (ha : SortedFrom cmpIntStrings l a) :
    a.Pairwise fun s t => numberOf s ≤ numberOf t := by
  refine ha.ordered.imp_of_mem fun {s t} hs ht hle => ?_
  have horders := cmpIntStrings_orders (h s (ha.perm.mem_iff.mp hs)) (h t (ha.perm.mem_iff.mp ht))
  exact Nat.not_lt.mp (horders.le_iff.mp hle)

/-! ## Thinning out -/

/-- Of each number the first text stays. -/
theorem uniq_filter (ha : ∀ s ∈ a, IsMethod s) (hsorted : a.Pairwise fun s t => numberOf s ≤ numberOf t) (n : Nat) :
    (smartlistUniq cmpIntStrings a).filter (numberOf · = n) = (a.filter (numberOf · = n)).head?.toList := by
  induction hlen : a.length using Nat.strong_induction_on generalizing a with
  | _ k ih =>
    subst hlen
    match a with
    | [] =>
      rw [smartlistUniq]
      rfl
    | [x] =>
      rw [smartlistUniq]
      by_cases hx : numberOf x = n
      · rw [List.filter_cons, if_pos (decide_eq_true hx)]
        rfl
      · rw [List.filter_cons, if_neg fun h => hx (of_decide_eq_true h)]
        rfl
    | x :: y :: rest =>
      have hx := ha x List.mem_cons_self
      have hy := ha y (List.mem_cons_of_mem x List.mem_cons_self)
      obtain ⟨hfirst, htail⟩ := List.pairwise_cons.mp hsorted
      have hzero := cmpIntStrings_zero_iff hx hy
      rw [smartlistUniq]
      by_cases hsame : cmpIntStrings x y = 0
      · have hnum := hzero.mp hsame
        have hsub : List.Sublist (x :: rest) (x :: y :: rest) := (List.sublist_cons_self y rest).cons_cons x
        have hnext := ih (x :: rest).length (by simp) (fun s hs => ha s (hsub.subset hs)) (hsorted.sublist hsub) rfl
        rw [if_pos hsame, hnext]
        by_cases hxn : numberOf x = n
        · rw [List.filter_cons, if_pos (decide_eq_true hxn), List.filter_cons, if_pos (decide_eq_true hxn)]
          rfl
        · rw [List.filter_cons, if_neg fun h => hxn (of_decide_eq_true h), List.filter_cons,
            if_neg fun h => hxn (of_decide_eq_true h), List.filter_cons,
            if_neg fun h => hxn (hnum.trans (of_decide_eq_true h))]
      · have hnext := ih (y :: rest).length (by simp) (fun s hs => ha s (List.mem_cons_of_mem x hs)) htail rfl
        rw [if_neg hsame]
        by_cases hxn : numberOf x = n
        · have hlt : numberOf x < numberOf y :=
            Nat.lt_of_le_of_ne (hfirst y List.mem_cons_self) fun h => hsame (hzero.mpr h)
          have hnone : (y :: rest).filter (numberOf · = n) = [] := by
            refine List.filter_eq_nil_iff.mpr fun t ht h => ?_
            have ht' : numberOf y ≤ numberOf t := by
              rcases List.mem_cons.mp ht with rfl | ht
              · exact Nat.le_refl _
              · exact (List.pairwise_cons.mp htail).1 t ht
            have := of_decide_eq_true h
            omega
          rw [hnone] at hnext
          rw [List.filter_cons, if_pos (decide_eq_true hxn), hnext, List.filter_cons, if_pos (decide_eq_true hxn)]
          rfl
        · rw [List.filter_cons, if_neg fun h => hxn (of_decide_eq_true h), hnext, List.filter_cons (x := x),
            if_neg fun h => hxn (of_decide_eq_true h)]

/-! ## Frequent members -/

theorem frequentFrom_cons (min : Nat) (cur : Text) (count : Nat) (cp : Text) (rest : List Text) :
    frequentFrom min cur count (cp :: rest) =
      if cp = cur then frequentFrom min cur (count + 1) rest
      else (if count > min then [cur] else []) ++ frequentFrom min cp 1 rest := by
  rw [frequentFrom]
  simp only [strcmp_zero_iff]

variable {count k m : Nat} {cur x : Text} {post : List Text}

theorem mem_runOver : x ∈ (if count > min then [cur] else []) ↔ x = cur ∧ min < count := by
  by_cases h : count > min
  · rw [if_pos h, List.mem_singleton]
    exact ⟨fun hx => ⟨hx, h⟩, fun hx => hx.1⟩
  · rw [if_neg h]
    exact ⟨fun hx => absurd hx List.not_mem_nil, fun hx => absurd hx.2 h⟩

/-- The run goes on, or it ends and was long enough, or the next one starts. -/
theorem mem_frequentFrom_cons {cp : Text} {rest : List Text} (h : x ∈ frequentFrom min cur count (cp :: rest)) :
    cp = cur ∧ x ∈ frequentFrom min cur (count + 1) rest ∨ x = cur ∧ min < count ∨ x ∈ frequentFrom min cp 1 rest := by
  rw [frequentFrom_cons] at h
  by_cases hcp : cp = cur
  · rw [if_pos hcp] at h
    exact .inl ⟨hcp, h⟩
  · rw [if_neg hcp] at h
    exact .inr ((List.mem_append.mp h).imp mem_runOver.mp id)

theorem count_cons_ite (cp x : Text) (rest : List Text) :
    (cp :: rest).count x = rest.count x + if cp = x then 1 else 0 := by
  rw [List.count_cons]
  simp only [beq_iff_eq]

/-- Only what occurs often enough. -/
theorem frequentFrom_count (h : x ∈ frequentFrom min cur count l) :
    min < (if cur = x then count else 0) + l.count x := by
  induction l generalizing cur count with
  | nil =>
    obtain ⟨rfl, hlt⟩ := mem_runOver.mp h
    rw [if_pos rfl]
    exact hlt
  | cons cp rest ih =>
    rw [count_cons_ite]
    rcases mem_frequentFrom_cons h with ⟨rfl, h⟩ | ⟨rfl, hlt⟩ | h
    · have := ih h
      grind
    · rw [if_pos rfl]
      omega
    · have := ih h
      grind

/-- Something else in between cuts the run: what is on one of the two sides must be enough. -/
theorem frequentFrom_cut {y : Text} {b : List Text} (hxy : y ≠ x)
    (h : x ∈ frequentFrom min cur count (a ++ y :: b)) :
    min < (if cur = x then count else 0) + a.count x ∨ min < b.count x := by
  induction a generalizing cur count with
  | nil =>
    rcases mem_frequentFrom_cons h with ⟨rfl, h⟩ | ⟨rfl, hlt⟩ | h
    · have := frequentFrom_count h
      rw [if_neg hxy] at this
      exact .inr (by omega)
    · rw [if_pos rfl]
      exact .inl (by omega)
    · have := frequentFrom_count h
      rw [if_neg hxy] at this
      exact .inr (by omega)
  | cons cp a ih =>
    rw [count_cons_ite]
    rcases mem_frequentFrom_cons h with ⟨rfl, h⟩ | ⟨rfl, hlt⟩ | h
    · have := ih h
      grind
    · rw [if_pos rfl]
      exact .inl (by omega)
    · have := ih h
      grind

theorem frequentFrom_sublist (min : Nat) (cur : Text) (count : Nat) (l : List Text) :
    List.Sublist (frequentFrom min cur count l) (cur :: l) := by
  have hrun : ∀ (count : Nat) (cur : Text), List.Sublist (if count > min then [cur] else []) [cur] := by
    intro count cur
    split
    · exact List.Sublist.refl _
    · exact List.nil_sublist _
  induction l generalizing cur count with
  | nil => exact hrun count cur
  | cons cp rest ih =>
    rw [frequentFrom_cons]
    by_cases hcp : cp = cur
    · rw [if_pos hcp]
      exact (ih cur (count + 1)).trans ((List.sublist_cons_self cp rest).cons_cons cur)
    · rw [if_neg hcp]
      exact (hrun count cur).append (ih cp 1)

/-- A run that is long enough already. -/
theorem frequentFrom_long (h : min < count) : cur ∈ frequentFrom min cur count l := by
  induction l generalizing count with
  | nil => exact mem_runOver.mpr ⟨rfl, h⟩
  | cons cp rest ih =>
    rw [frequentFrom_cons]
    by_cases hcp : cp = cur
    · rw [if_pos hcp]
      exact ih (by omega)
    · rw [if_neg hcp]
      exact List.mem_append_left _ (mem_runOver.mpr ⟨rfl, h⟩)

theorem frequentFrom_replicate (h : min < count + k) :
    cur ∈ frequentFrom min cur count (List.replicate k cur ++ post) := by
  induction k generalizing count with
  | zero => exact frequentFrom_long h
  | succ k ih =>
    rw [List.replicate_succ, List.cons_append, frequentFrom_cons, if_pos rfl]
    exact ih (by omega)

/-- A stretch of one text that is long enough is found wherever it is. -/
theorem frequentFrom_stretch {pre : List Text} (h : min < k) :
    x ∈ frequentFrom min cur count (pre ++ (List.replicate k x ++ post)) := by
  induction pre generalizing cur count with
  | nil =>
    obtain ⟨k, rfl⟩ : ∃ j, k = j + 1 := ⟨k - 1, by omega⟩
    rw [List.nil_append, List.replicate_succ, List.cons_append, frequentFrom_cons]
    by_cases hx : x = cur
    · subst hx
      rw [if_pos rfl]
      exact frequentFrom_replicate (by omega)
    · rw [if_neg hx]
      exact List.mem_append_right _ (frequentFrom_replicate (by omega))
  | cons cp pre ih =>
    rw [List.cons_append, frequentFrom_cons]
    by_cases hcp : cp = cur
    · rw [if_pos hcp]
      exact ih
    · rw [if_neg hcp]
      exact List.mem_append_right _ ih

/-! The scan as a whole. -/

theorem getFrequentMembers_eq (min : Nat) (cp : Text) (l : List Text) :
    getFrequentMembers min (cp :: l) = frequentFrom min cp 0 (cp :: l) := by
  rw [frequentFrom_cons, if_pos rfl, getFrequentMembers]

theorem mem_getFrequentMembers (h : x ∈ getFrequentMembers min l) : min < l.count x := by
  cases l with
  | nil => exact absurd h List.not_mem_nil
  | cons cp l =>
    rw [getFrequentMembers_eq] at h
    simpa using frequentFrom_count h

theorem getFrequentMembers_cut {b : List Text} (hxy : y ≠ x) (h : x ∈ getFrequentMembers min (a ++ y :: b)) :
    min < a.count x ∨ min < b.count x := by
  cases a with
  | nil =>
    rw [List.nil_append, getFrequentMembers_eq] at h
    simpa using frequentFrom_cut (a := []) hxy h
  | cons cp a =>
    rw [List.cons_append, getFrequentMembers_eq, ← List.cons_append] at h
    simpa using frequentFrom_cut hxy h

theorem getFrequentMembers_sublist (min : Nat) (l : List Text) : List.Sublist (getFrequentMembers min l) l := by
  cases l with
  | nil => exact List.Sublist.refl _
  | cons cp l => exact frequentFrom_sublist min cp 1 l

theorem getFrequentMembers_stretch {pre : List Text} (h : min < k) :
    x ∈ getFrequentMembers min (pre ++ (List.replicate k x ++ post)) := by
  cases hl : pre ++ (List.replicate k x ++ post) with
  | nil =>
    have : k = 0 := by simpa using (List.append_eq_nil_iff.mp (List.append_eq_nil_iff.mp hl).2).1
    omega
  | cons cp l =>
    rw [getFrequentMembers_eq, ← hl]
    exact frequentFrom_stretch h

/-! ## The methods of all votes -/

/-- How many votes list a number. -/
def supporters (votes : List (List Text)) (m : Nat) : Nat := votes.countP fun v => v.any (numberOf · = m)

def Supported (votes : List (List Text)) (m : Nat) : Prop := votes.length * 2 / 3 < supporters votes m

structure Highest (votes : List (List Text)) (m : Nat) : Prop where
  supported : Supported votes m
  le : ∀ m', Supported votes m' → m' ≤ m

/-- The largest number that enough votes list, or 1 where there is none. -/
def HighestSupported (votes : List (List Text)) (r : Int) : Prop :=
  (∃ m : Nat, r = m ∧ Highest votes m) ∨ (r = 1 ∧ ∀ m, ¬ Supported votes m)

variable {sort : Nat → List Text → List Text} {n : Nat}

theorem mem_uniq (ha : ∀ s ∈ a, IsMethod s) (hsorted : a.Pairwise fun s t => numberOf s ≤ numberOf t)
    (hs : s ∈ smartlistUniq cmpIntStrings a) : s ∈ a := by
  have hin : s ∈ (smartlistUniq cmpIntStrings a).filter (numberOf · = numberOf s) :=
    List.mem_filter.mpr ⟨hs, decide_eq_true rfl⟩
  rw [uniq_filter ha hsorted] at hin
  exact (List.mem_filter.mp (List.mem_of_head? (Option.mem_toList.mp hin))).1

theorem mem_allMethods (hsort : ∀ i, IsQsort cmpIntStrings (sort i)) {i : Nat} (hv : ∀ s ∈ votes.flatten, IsMethod s)
    (hs : s ∈ allMethods sort i votes) : s ∈ votes.flatten := by
  induction votes generalizing i with
  | nil => exact absurd hs List.not_mem_nil
  | cons v votes ih =>
    have hfirst : ∀ s ∈ v, IsMethod s := fun s hs => hv s (List.mem_append_left _ hs)
    rw [allMethods] at hs
    rw [List.flatten_cons]
    rcases List.mem_append.mp hs with hs | hs
    · have hsorted := hsort i v (cmpIntStrings_totalPreorderOn hfirst)
      refine List.mem_append_left _ (hsorted.perm.mem_iff.mp (mem_uniq (fun t ht => ?_) (numbers_sorted hfirst hsorted) hs))
      exact hfirst t (hsorted.perm.mem_iff.mp ht)
    · exact List.mem_append_right _ (ih (fun t ht => hv t (List.mem_append_right _ ht)) hs)

/-- A vote has as many methods with a number in the list as it lists the number: at most one. -/
theorem allMethods_countP (hsort : ∀ i, IsQsort cmpIntStrings (sort i)) (i : Nat) (hv : ∀ s ∈ votes.flatten, IsMethod s)
    (n : Nat) : (allMethods sort i votes).countP (numberOf · = n) = supporters votes n := by
  induction votes generalizing i with
  | nil => rfl
  | cons v votes ih =>
    have hfirst : ∀ s ∈ v, IsMethod s := fun s hs => hv s (List.mem_append_left _ hs)
    have hsorted := hsort i v (cmpIntStrings_totalPreorderOn hfirst)
    have hsort' : ∀ s ∈ sort i v, IsMethod s := fun t ht => hfirst t (hsorted.perm.mem_iff.mp ht)
    have hrest := ih (i + 1) fun t ht => hv t (List.mem_append_right _ ht)
    rw [allMethods, List.countP_append, hrest, List.countP_eq_length_filter, uniq_filter hsort' (numbers_sorted hfirst hsorted),
      supporters, supporters, List.countP_cons, Nat.add_comm]
    have hperm := hsorted.perm.filter (numberOf · = n)
    congr 1
    by_cases hany : v.any (numberOf · = n) = true
    · obtain ⟨s, hs, hn⟩ := List.any_eq_true.mp hany
      have hin := hperm.mem_iff.mpr (List.mem_filter.mpr ⟨hs, hn⟩)
      obtain ⟨t, rest, hcons⟩ := List.exists_cons_of_ne_nil (List.ne_nil_of_mem hin)
      rw [if_pos hany, hcons]
      rfl
    · have hnil : v.filter (numberOf · = n) = [] := List.filter_eq_nil_iff.mpr fun s hs hn =>
        hany (List.any_eq_true.mpr ⟨s, hs, hn⟩)
      rw [hnil] at hperm
      rw [if_neg hany, hperm.eq_nil]
      rfl

theorem supporters_le (votes : List (List Text)) (m : Nat) : supporters votes m ≤ votes.length := List.countP_le_length

theorem supported_perm (h : votes'.Perm votes) (m : Nat) : Supported votes' m ↔ Supported votes m := by
  rw [Supported, Supported, supporters, supporters, h.length_eq, h.countP_eq]

theorem highest_perm (h : votes'.Perm votes) (m : Nat) : Highest votes' m ↔ Highest votes m := by
  have hone : ∀ {xs ys : List (List Text)}, xs.Perm ys → Highest xs m → Highest ys m := fun h hm =>
    ⟨(supported_perm h m).mp hm.supported, fun m' hm' => hm.le m' ((supported_perm h m').mpr hm')⟩
  exact ⟨hone h, hone h.symm⟩

theorem highestSupported_perm (h : votes'.Perm votes) (r : Int) : HighestSupported votes' r ↔ HighestSupported votes r := by
  simp only [HighestSupported, highest_perm h, supported_perm h]

theorem Highest.unique {m' : Nat} (h : Highest votes m) (h' : Highest votes m') : m = m' :=
  Nat.le_antisymm (h'.le m h.supported) (h.le m' h'.supported)

theorem Highest.result {r : Int} (h : Highest votes m) (hr : HighestSupported votes r) : r = m := by
  rcases hr with ⟨m', rfl, hm'⟩ | ⟨rfl, hnone⟩
  · rw [h.unique hm']
  · exact absurd h.supported (hnone m)

/-- Enough votes list a number only if some text of theirs has it. -/
theorem Supported.exists_text (h : Supported votes m) : ∃ s ∈ votes.flatten, numberOf s = m := by
  obtain ⟨v, hv, hany⟩ := List.countP_pos_iff.mp (Nat.lt_of_le_of_lt (Nat.zero_le _) h)
  obtain ⟨s, hs, hm⟩ := List.any_eq_true.mp hany
  exact ⟨s, List.mem_flatten.mpr ⟨v, hv, hs⟩, of_decide_eq_true hm⟩

theorem exists_highest (hv : ∀ s ∈ votes.flatten, IsMethod s) (h : Supported votes m) : ∃ m, Highest votes m := by
  have : DecidablePred (Supported votes) := fun m => inferInstanceAs (Decidable (_ < _))
  have hle : ∀ m, Supported votes m → m ≤ 2147483647 := by
    intro m hm
    obtain ⟨s, hs, rfl⟩ := hm.exists_text
    exact (hv s hs).fits
  exact ⟨_, Nat.findGreatest_spec (hle m h) h, fun m' hm' => Nat.le_findGreatest (hle m' hm') hm'⟩

/-! ## When the result is right -/

/-- The highest number is spelled in one way. (No vote, or a single one, needs no more than one text.) -/
def SpelledAlike (votes : List (List Text)) : Prop :=
  votes.length ≤ 1 ∨ ∀ m, 1 < m → Highest votes m →
    ∀ s ∈ votes.flatten, ∀ t ∈ votes.flatten, numberOf s = m → numberOf t = m → s = t

section
variable {i : Nat}

theorem sorted_countP (hsort : ∀ i, IsQsort cmpIntStrings (sort i)) (hv : ∀ s ∈ votes.flatten, IsMethod s)
    (ha : SortedFrom cmpIntStrings (allMethods sort 0 votes) a) (n : Nat) :
    a.countP (numberOf · = n) = supporters votes n := by
  rw [ha.perm.countP_eq, allMethods_countP hsort 0 hv]

theorem count_le_countP (x : Text) (l : List Text) : l.count x ≤ l.countP (numberOf · = numberOf x) := by
  refine List.countP_mono_left fun y _ hy => ?_
  rw [beq_iff_eq.mp hy]
  exact decide_eq_true rfl

/-- What is frequent is supported. -/
theorem frequent_supported (hsort : ∀ i, IsQsort cmpIntStrings (sort i)) (hv : ∀ s ∈ votes.flatten, IsMethod s)
    (ha : SortedFrom cmpIntStrings (allMethods sort 0 votes) a) (hx : x ∈ getFrequentMembers (votes.length * 2 / 3) a) :
    Supported votes (numberOf x) := by
  have hcount := mem_getFrequentMembers hx
  have hle := count_le_countP x a
  rw [sorted_countP hsort hv ha] at hle
  exact Nat.lt_of_lt_of_le hcount hle

/-- The texts of one number stand together. -/
theorem sorted_split (hsorted : a.Pairwise fun s t => numberOf s ≤ numberOf t) (m : Nat) :
    ∃ pre post, a = pre ++ (a.filter (numberOf · = m) ++ post) := by
  have hlow : a.Pairwise fun s t => decide (numberOf t < m) = true → decide (numberOf s < m) = true :=
    hsorted.imp fun {s t} hle ht => decide_eq_true (Nat.lt_of_le_of_lt hle (of_decide_eq_true ht))
  have hhigh : (a.dropWhile (numberOf · < m)).Pairwise
      fun s t => decide (numberOf t ≤ m) = true → decide (numberOf s ≤ m) = true :=
    (hsorted.sublist (List.dropWhile_sublist _)).imp fun {s t} hle ht =>
      decide_eq_true (Nat.le_trans hle (of_decide_eq_true ht))
  have hmid : (a.dropWhile (numberOf · < m)).takeWhile (numberOf · ≤ m) = a.filter (numberOf · = m) := by
    rw [takeWhile_eq_filter hhigh, dropWhile_eq_filter hlow, List.filter_filter]
    refine List.filter_congr fun s _ => ?_
    rw [← decide_not, ← Bool.decide_and]
    exact decide_eq_decide.mpr (by omega)
  refine ⟨a.takeWhile (numberOf · < m), (a.dropWhile (numberOf · < m)).dropWhile (numberOf · ≤ m), ?_⟩
  rw [← hmid, List.takeWhile_append_dropWhile, List.takeWhile_append_dropWhile]

section

variable (hsort : ∀ i, IsQsort cmpIntStrings (sort i)) (hv : ∀ s ∈ votes.flatten, IsMethod s)
  (halike : SpelledAlike votes)
include hsort hv halike

/-- The highest number is frequent when its texts are all alike. -/
theorem highest_frequent (ha : SortedFrom cmpIntStrings (allMethods sort 0 votes) a) {m : Nat} (hm : Highest votes m)
    (hlt : 1 < m) : ∃ x ∈ getFrequentMembers (votes.length * 2 / 3) a, numberOf x = m := by
  have hmem : ∀ s ∈ a, s ∈ votes.flatten := fun s hs => mem_allMethods hsort hv (ha.perm.mem_iff.mp hs)
  have hsorted := numbers_sorted (fun s hs => hv s (mem_allMethods hsort hv hs)) ha
  have hcount := sorted_countP hsort hv ha m
  have hsupported := hm.supported
  rw [Supported, ← hcount, List.countP_eq_length_filter] at hsupported
  obtain ⟨pre, post, hsplit⟩ := sorted_split hsorted m
  have hmembers : ∀ s ∈ a.filter (numberOf · = m), s ∈ votes.flatten ∧ numberOf s = m := fun s hs =>
    ⟨hmem s (List.mem_filter.mp hs).1, of_decide_eq_true (List.mem_filter.mp hs).2⟩
  obtain ⟨x, rest, hcons⟩ := List.exists_cons_of_length_pos (Nat.lt_of_le_of_lt (Nat.zero_le _) hsupported)
  have hx := hmembers x (hcons ▸ List.mem_cons_self)
  have hreplicate : a.filter (numberOf · = m) = List.replicate (a.filter (numberOf · = m)).length x := by
    refine List.eq_replicate_iff.mpr ⟨rfl, fun s hs => ?_⟩
    rcases halike with hone | halike
    · -- one vote has one text of the number
      have hle : (a.filter (numberOf · = m)).length ≤ votes.length := by
        rw [← List.countP_eq_length_filter, hcount]
        exact supporters_le votes m
      have hrest : rest = [] := List.length_eq_zero_iff.mp (by rw [hcons, List.length_cons] at hle; omega)
      rw [hcons, hrest] at hs
      exact List.mem_singleton.mp hs
    · exact halike m hlt hm s (hmembers s hs).1 x hx.1 (hmembers s hs).2 hx.2
  refine ⟨x, ?_, hx.2⟩
  rw [hsplit, hreplicate]
  exact getFrequentMembers_stretch hsupported

theorem method_right : HighestSupported votes (computeConsensusMethod sort votes) := by
  have hall : ∀ s ∈ allMethods sort 0 votes, IsMethod s := fun s hs => hv s (mem_allMethods hsort hv hs)
  have ha := hsort votes.length _ (cmpIntStrings_totalPreorderOn hall)
  have hsorted := (numbers_sorted hall ha).sublist (getFrequentMembers_sublist (votes.length * 2 / 3) _)
  have hfrequent := fun m => highest_frequent (m := m) hsort hv halike ha
  have hsupported := fun x => frequent_supported (x := x) hsort hv ha
  have hmethods : ∀ x ∈ getFrequentMembers (votes.length * 2 / 3) (sort votes.length (allMethods sort 0 votes)), IsMethod x :=
    fun x hx => hall x (ha.perm.mem_iff.mp ((getFrequentMembers_sublist _ _).subset hx))
  rw [computeConsensusMethod]
  generalize getFrequentMembers (votes.length * 2 / 3) (sort votes.length (allMethods sort 0 votes)) = frequent at *
  cases hlast : frequent.getLast? with
  | none =>
    rw [List.getLast?_eq_none_iff.mp hlast] at hfrequent
    by_cases hnone : ∀ m, ¬ Supported votes m
    · exact .inr ⟨rfl, hnone⟩
    · obtain ⟨m, hm⟩ := Classical.not_forall.mp hnone
      obtain ⟨m, hm⟩ := exists_highest hv (Classical.not_not.mp hm)
      obtain ⟨s, hs, rfl⟩ := hm.supported.exists_text
      have hpos := (hv s hs).pos
      refine .inl ⟨_, ?_, hm⟩
      show (1 : Int) = numberOf s
      by_contra hne
      obtain ⟨x, hx, -⟩ := hfrequent _ hm (by omega)
      exact List.not_mem_nil hx
  | some best =>
    have hin := List.mem_of_getLast? hlast
    have hbest := hsupported best hin
    obtain ⟨s, hs, hnum⟩ := hbest.exists_text
    obtain ⟨m, hm⟩ := exists_highest hv hbest
    have hle := hm.le _ hbest
    have hpos := (hv s hs).pos
    refine .inl ⟨m, ?_, hm⟩
    show intOfMethod best = m
    rw [(hmethods best hin).intOf]
    by_cases hlt : 1 < m
    · obtain ⟨x, hx, rfl⟩ := hfrequent m hm hlt
      have hxbest : numberOf x ≤ numberOf best := by
        obtain ⟨front, rfl⟩ := List.getLast?_eq_some_iff.mp hlast
        rcases List.mem_append.mp hx with hx | hx
        · exact (List.pairwise_append.mp hsorted).2.2 x hx best List.mem_cons_self
        · rw [List.mem_singleton.mp hx]
      omega
    · omega

end

/-! A sort that brings two spellings of the highest number into the list, and one between those of the other. -/

/-- Of equal numbers, a given text first. -/
def sortPreferring (s : Text) (l : List Text) : List Text :=
  l.insertionSort fun x y =>
    2 * rankIn cmpIntStrings l x + (if x = s then 0 else 1) ≤ 2 * rankIn cmpIntStrings l y + (if y = s then 0 else 1)

theorem sortPreferring_isQsort (s : Text) : IsQsort cmpIntStrings (sortPreferring s) := by
  intro l h
  refine insertionSort_finer h (fun x => 2 * rankIn cmpIntStrings l x + (if x = s then 0 else 1)) fun x _ y _ hle => ?_
  split at hle <;> split at hle <;> omega

/-- The text preferred is the one that stays. -/
theorem mem_uniq_sortPreferring (hl : ∀ x ∈ l, IsMethod x) (hs : s ∈ l) :
    s ∈ smartlistUniq cmpIntStrings (sortPreferring s l) := by
  have hpre := cmpIntStrings_totalPreorderOn hl
  have hsorted := sortPreferring_isQsort s l hpre
  have hmem : ∀ x ∈ sortPreferring s l, x ∈ l := fun x hx => hsorted.perm.mem_iff.mp hx
  have hfilter := uniq_filter (fun x hx => hl x (hmem x hx)) (numbers_sorted hl hsorted) (numberOf s)
  have hin : s ∈ (sortPreferring s l).filter (numberOf · = numberOf s) :=
    List.mem_filter.mpr ⟨hsorted.perm.mem_iff.mpr hs, decide_eq_true rfl⟩
  -- the keys of the texts of this number, in order: `s` has the least
  have hkeys : ((sortPreferring s l).filter (numberOf · = numberOf s)).Pairwise fun x y =>
      2 * rankIn cmpIntStrings l x + (if x = s then 0 else 1) ≤ 2 * rankIn cmpIntStrings l y + (if y = s then 0 else 1) := by
    exact (pairwise_insertionSort_key (fun x => 2 * rankIn cmpIntStrings l x + (if x = s then 0 else 1)) l).filter _
  obtain ⟨x, rest, hcons⟩ := List.exists_cons_of_ne_nil (List.ne_nil_of_mem hin)
  have hx : x ∈ (sortPreferring s l).filter (numberOf · = numberOf s) := hcons ▸ List.mem_cons_self
  obtain ⟨hxl, hxnum⟩ := List.mem_filter.mp hx
  have hxl := hmem x hxl
  have hzero : cmpIntStrings x s = 0 := (cmpIntStrings_zero_iff (hl x hxl) (hl s hs)).mpr (of_decide_eq_true hxnum)
  have hrank := (rankIn_le_iff hpre (fun _ hz => hz) hs hxl).mp (Int.le_of_eq (hpre.zero_symm hxl hs hzero))
  have hxs : x = s := by
    rw [hcons] at hin hkeys
    rcases List.mem_cons.mp hin with h | h
    · exact h.symm
    · have hle := (List.pairwise_cons.mp hkeys).1 s h
      by_contra hne
      rw [if_neg hne, if_pos rfl] at hle
      omega
  subst hxs
  have : x ∈ (smartlistUniq cmpIntStrings (sortPreferring x l)).filter (numberOf · = numberOf x) := by
    rw [hfilter, hcons]
    exact List.mem_singleton_self x
  exact (List.mem_filter.mp this).1

theorem allMethods_congr {sort' : Nat → List Text → List Text} (h : ∀ j, i ≤ j → j < i + votes.length → sort j = sort' j) :
    allMethods sort i votes = allMethods sort' i votes := by
  induction votes generalizing i with
  | nil => rfl
  | cons v votes ih =>
    rw [List.length_cons] at h
    rw [allMethods, allMethods, h i (by omega) (by omega), ih fun j hj hlt => h j (by omega) (by omega)]

theorem allMethods_append (sort : Nat → List Text → List Text) (i : Nat) (votes votes' : List (List Text)) :
    allMethods sort i (votes ++ votes') = allMethods sort i votes ++ allMethods sort (i + votes.length) votes' := by
  induction votes generalizing i with
  | nil => rfl
  | cons v votes ih =>
    rw [List.cons_append, allMethods, ih, allMethods, List.append_assoc, List.length_cons, Nat.add_right_comm, Nat.add_assoc i]

/-- Two texts of one number that different votes have: both can come into the list. -/
theorem exists_both_listed {pre mid post : List (List Text)} {v w : List Text}
    (hv : ∀ s ∈ (pre ++ v :: (mid ++ w :: post)).flatten, IsMethod s) (hs : s ∈ v) (ht : t ∈ w) :
    ∃ sort, (∀ i, IsQsort cmpIntStrings (sort i)) ∧ s ∈ allMethods sort 0 (pre ++ v :: (mid ++ w :: post)) ∧
      t ∈ allMethods sort 0 (pre ++ v :: (mid ++ w :: post)) := by
  refine ⟨fun i => if i ≤ pre.length then sortPreferring s else sortPreferring t, fun i => ?_, ?_, ?_⟩
  · by_cases hi : i ≤ pre.length
    · simp only [if_pos hi]
      exact sortPreferring_isQsort s
    · simp only [if_neg hi]
      exact sortPreferring_isQsort t
  · rw [allMethods_append, allMethods, if_pos (by omega)]
    refine List.mem_append_right _ (List.mem_append_left _ (mem_uniq_sortPreferring (fun x hx => hv x ?_) hs))
    simp [hx]
  · have hlater : ¬ 0 + pre.length + 1 + mid.length ≤ pre.length := by omega
    rw [allMethods_append, allMethods, allMethods_append, allMethods, if_neg hlater]
    refine List.mem_append_right _ (List.mem_append_right _ (List.mem_append_right _
      (List.mem_append_left _ (mem_uniq_sortPreferring (fun x hx => hv x ?_) ht))))
    simp [hx]

/-- Two spellings of one number with enough support are in two different votes. -/
theorem exists_spellings_apart (hn : 2 ≤ votes.length) {m : Nat} (hm : Supported votes m) (hs : s ∈ votes.flatten)
    (ht : t ∈ votes.flatten) (hsm : numberOf s = m) (htm : numberOf t = m) (hst : s ≠ t) :
    ∃ pre v mid w post, votes = pre ++ v :: (mid ++ w :: post) ∧
      ∃ s ∈ v, ∃ t ∈ w, numberOf s = m ∧ numberOf t = m ∧ s ≠ t := by
  by_contra hnot
  -- all votes that list the number list one text for it, but for a single vote
  have hother : ∀ pre v post, votes = pre ++ v :: post → ∀ s ∈ v, numberOf s = m → ∀ w, w ∈ pre ∨ w ∈ post →
      ∀ t ∈ w, numberOf t = m → s = t := by
    intro pre v post hvotes s hs hsm w hw t ht htm
    by_contra hst
    rcases hw with hw | hw
    · obtain ⟨pre, mid, rfl⟩ := List.append_of_mem hw
      exact hnot ⟨pre, w, mid, v, post, by rw [hvotes, List.append_assoc, List.cons_append], t, ht, s, hs, htm, hsm, Ne.symm hst⟩
    · obtain ⟨mid, post, rfl⟩ := List.append_of_mem hw
      exact hnot ⟨pre, v, mid, w, post, hvotes, s, hs, t, ht, hsm, htm, hst⟩
  obtain ⟨v, hv, hsv⟩ := List.mem_flatten.mp hs
  obtain ⟨pre, post, rfl⟩ := List.append_of_mem hv
  have hone : supporters (pre ++ v :: post) m ≤ 1 + supporters pre m + supporters post m := by
    rw [supporters, List.countP_append, List.countP_cons, supporters, supporters]
    split <;> omega
  have hapart : ∃ w, (w ∈ pre ∨ w ∈ post) ∧ ∃ x ∈ w, numberOf x = m := by
    have hmin : 1 ≤ (pre ++ v :: post).length * 2 / 3 := by omega
    rw [Supported] at hm
    rcases Nat.eq_zero_or_pos (supporters pre m) with hzero | hpos
    · obtain ⟨w, hw, hany⟩ := List.countP_pos_iff.mp (show 0 < supporters post m by omega)
      obtain ⟨x, hx, hxm⟩ := List.any_eq_true.mp hany
      exact ⟨w, .inr hw, x, hx, of_decide_eq_true hxm⟩
    · obtain ⟨w, hw, hany⟩ := List.countP_pos_iff.mp hpos
      obtain ⟨x, hx, hxm⟩ := List.any_eq_true.mp hany
      exact ⟨w, .inl hw, x, hx, of_decide_eq_true hxm⟩
  obtain ⟨w, hw, x, hx, hxm⟩ := hapart
  have hsx := hother pre v post rfl s hsv hsm w hw x hx hxm
  obtain ⟨u, hu, htu⟩ := List.mem_flatten.mp ht
  rcases List.mem_append.mp hu with hu | hu
  · exact hst (hother pre v post rfl s hsv hsm u (.inl hu) t htu htm)
  rcases List.mem_cons.mp hu with rfl | hu
  · exact hst (hsx.trans (hother pre u post rfl t htu htm w hw x hx hxm).symm)
  · exact hst (hother pre v post rfl s hsv hsm u (.inr hu) t htu htm)

/-- A list of `n` texts at most, two of which differ, stands in an order in which no text has a long run. -/
theorem exists_scattered {l : List Text} {n : Nat} (hlen : l.length ≤ n) (hs : s ∈ l) (ht : t ∈ l) (hst : s ≠ t) :
    ∃ mid, mid.Perm l ∧ ∀ pre post, (∀ x ∈ l, x ∉ pre ∧ x ∉ post) →
      ∀ x ∈ l, x ∉ getFrequentMembers (n * 2 / 3) (pre ++ (mid ++ post)) := by
  by_cases hfew : ∀ x ∈ l, l.count x ≤ n * 2 / 3
  · refine ⟨l, List.Perm.refl l, fun pre post hout x hx hin => ?_⟩
    have hcount := mem_getFrequentMembers hin
    rw [List.count_append, List.count_append, List.count_eq_zero_of_not_mem (hout x hx).1,
      List.count_eq_zero_of_not_mem (hout x hx).2] at hcount
    have := hfew x hx
    omega
  · obtain ⟨x, hmany⟩ := Classical.not_forall.mp hfew
    obtain ⟨hx, hmany⟩ := Classical.not_imp.mp hmany
    obtain ⟨y, hy, hyx⟩ : ∃ y ∈ l, y ≠ x := by
      by_cases hsx : s = x
      · exact ⟨t, ht, fun htx => hst (hsx.trans htx.symm)⟩
      · exact ⟨s, hs, hsx⟩
    let others := l.filter fun z => !(z == x)
    have hyothers : y ∈ others := List.mem_filter.mpr ⟨hy, by simpa using hyx⟩
    have hxothers : others.count x = 0 := List.count_eq_zero.mpr fun hin => by simp [others] at hin
    have hxrest : (others.erase y).count x = 0 :=
      Nat.le_zero.mp (Nat.le_trans (List.erase_sublist.count_le x) (Nat.le_of_eq hxothers))
    have hperm : (List.replicate (l.count x) x ++ others).Perm l := by
      rw [← List.filter_beq]
      exact List.filter_append_perm _ l
    have htotal : l.count x + others.length = l.length := by
      rw [← hperm.length_eq, List.length_append, List.length_replicate]
    have hpos := List.length_pos_of_mem hyothers
    obtain ⟨half, rest, hhalves⟩ : ∃ half rest, half + rest = l.count x ∧ half ≤ n * 2 / 3 ∧ rest ≤ n * 2 / 3 :=
      ⟨l.count x / 2, l.count x - l.count x / 2, by omega, by omega, by omega⟩
    have hmid : (List.replicate half x ++ y :: (List.replicate rest x ++ others.erase y)).Perm l := by
      refine List.Perm.trans ?_ hperm
      rw [← hhalves.1, ← List.replicate_append_replicate, List.append_assoc]
      exact (List.perm_middle.symm.trans ((List.perm_cons_erase hyothers).symm.append_left _)).append_left _
    refine ⟨_, hmid, fun pre post hout z hz hin => ?_⟩
    have hnone := hout z hz
    by_cases hzx : z = x
    · subst hzx
      rw [List.append_assoc, List.cons_append, ← List.append_assoc] at hin
      have hcut := getFrequentMembers_cut hyx hin
      rw [List.count_append, List.count_append, List.count_append, List.count_replicate_self, List.count_replicate_self, hxrest,
        List.count_eq_zero_of_not_mem hnone.1, List.count_eq_zero_of_not_mem hnone.2] at hcut
      omega
    · have hcount := mem_getFrequentMembers hin
      rw [List.count_append, List.count_append, hmid.count_eq, List.count_eq_zero_of_not_mem hnone.1,
        List.count_eq_zero_of_not_mem hnone.2, ← hperm.count_eq, List.count_append, List.count_replicate,
        if_neg (by simpa using Ne.symm hzx)] at hcount
      have := List.count_le_length (a := z) (l := others)
      omega

/-- Where the highest number is spelled in two ways, some sort hides it. -/
theorem exists_wrong (hv : ∀ s ∈ votes.flatten, IsMethod s) (hn : 2 ≤ votes.length) {m : Nat} (hm : Supported votes m)
    (hlt : 1 < m) (hs : s ∈ votes.flatten) (ht : t ∈ votes.flatten) (hsm : numberOf s = m) (htm : numberOf t = m)
    (hst : s ≠ t) :
    ∃ sort, (∀ i, IsQsort cmpIntStrings (sort i)) ∧ computeConsensusMethod sort votes ≠ m := by
  obtain ⟨pre, v, mid, w, post, rfl, s, hs, t, ht, hsm, htm, hst⟩ := exists_spellings_apart hn hm hs ht hsm htm hst
  obtain ⟨sort, hsort, hs, ht⟩ := exists_both_listed hv hs ht
  generalize pre ++ v :: (mid ++ w :: post) = votes at *
  have hall : ∀ s ∈ allMethods sort 0 votes, IsMethod s := fun s hs => hv s (mem_allMethods hsort hv hs)
  have hpre := cmpIntStrings_totalPreorderOn hall
  have hclass : (allMethods sort 0 votes).filter (fun z => cmpIntStrings s z = 0) =
      (allMethods sort 0 votes).filter (numberOf · = m) := by
    refine List.filter_congr fun z hz => decide_eq_decide.mpr ?_
    rw [cmpIntStrings_zero_iff (hall s hs) (hall z hz), hsm]
    exact eq_comm
  have hlen : ((allMethods sort 0 votes).filter (numberOf · = m)).length ≤ votes.length := by
    rw [← List.countP_eq_length_filter, allMethods_countP hsort 0 hv]
    exact supporters_le votes m
  have hin : ∀ x ∈ allMethods sort 0 votes, numberOf x = m → x ∈ (allMethods sort 0 votes).filter (numberOf · = m) :=
    fun x hx hxm => List.mem_filter.mpr ⟨hx, decide_eq_true hxm⟩
  obtain ⟨mid, hperm, hscattered⟩ := exists_scattered hlen (hin s hs hsm) (hin t ht htm) hst
  obtain ⟨low, high, hsorted, hlow, hhigh⟩ := SortedFrom.exists_arranged hpre hs (hclass ▸ hperm)
  obtain ⟨last, hlast, heq⟩ := hsorted.exists_qsort
  -- the last call of the sort gives the arrangement, those before it what they gave
  let sort' : Nat → List Text → List Text := fun i => if i = votes.length then last else sort i
  have hlist : allMethods sort' 0 votes = allMethods sort 0 votes :=
    allMethods_congr fun j _ hj => if_neg (by omega)
  have hresult : sort' votes.length (allMethods sort' 0 votes) = low ++ (mid ++ high) := by
    rw [hlist]
    show (if votes.length = votes.length then last else _) _ = _
    rw [if_pos rfl, heq]
  refine ⟨sort', fun i => ?_, ?_⟩
  · show IsQsort cmpIntStrings (if i = votes.length then last else sort i)
    by_cases hi : i = votes.length
    · rw [if_pos hi]
      exact hlast
    · rw [if_neg hi]
      exact hsort i
  · rw [computeConsensusMethod, hresult]
    have hmem := (getFrequentMembers_sublist (votes.length * 2 / 3) (low ++ (mid ++ high))).subset
    have hzero : ∀ x ∈ (allMethods sort 0 votes).filter (numberOf · = m), cmpIntStrings s x = 0 := by
      rw [← hclass]
      exact fun x hx => of_decide_eq_true (List.mem_filter.mp hx).2
    have hhidden := hscattered low high fun x hx => ⟨fun h => hlow x h (hzero x hx), fun h => hhigh x h (hzero x hx)⟩
    generalize getFrequentMembers (votes.length * 2 / 3) (low ++ (mid ++ high)) = frequent at *
    cases hbest : frequent.getLast? with
    | none =>
      show (1 : Int) ≠ m
      omega
    | some best =>
      have hbestin := List.mem_of_getLast? hbest
      have hbestall := hsorted.perm.mem_iff.mp (hmem hbestin)
      show intOfMethod best ≠ m
      rw [(hall best hbestall).intOf]
      intro hnum
      exact hhidden best (hin best hbestall (by omega)) hbestin

end

/-- The method is the highest that enough votes support, for every order of the votes and of equal numbers, exactly when
its number is spelled in one way. -/
theorem method_right_iff (votes : List (List Text)) (hv : ∀ s ∈ votes.flatten, IsMethod s) :
    (∀ votes' : List (List Text), votes'.Perm votes → ∀ sort : Nat → List Text → List Text,
        (∀ i, IsQsort cmpIntStrings (sort i)) → HighestSupported votes (computeConsensusMethod sort votes')) ↔
      SpelledAlike votes := by
  constructor
  · intro hright
    by_contra hnot
    obtain ⟨hn, hnot⟩ := not_or.mp hnot
    simp only [not_forall] at hnot
    obtain ⟨m, hlt, hm, s, hs, t, ht, hsm, htm, hst⟩ := hnot
    obtain ⟨sort, hsort, hwrong⟩ := exists_wrong hv (by omega) hm.supported hlt hs ht hsm htm hst
    exact hwrong (hm.result (hright votes (List.Perm.refl votes) sort hsort))
  · intro halike votes' hperm sort hsort
    have hmem : ∀ s, s ∈ votes'.flatten ↔ s ∈ votes.flatten := fun s => hperm.flatten.mem_iff
    refine (highestSupported_perm hperm _).mp (method_right hsort (fun s hs => hv s ((hmem s).mp hs)) ?_)
    rcases halike with hone | halike
    · exact .inl (hperm.length_eq ▸ hone)
    · refine .inr fun m hlt hm s hs t ht => ?_
      exact halike m hlt ((highest_perm hperm m).mp hm) s ((hmem s).mp hs) t ((hmem t).mp ht)

theorem five_alike : (∀ votes' : List (List Text), votes'.Perm [["5".toList], ["5".toList]] →
      ∀ sort : Nat → List Text → List Text, (∀ i, IsQsort cmpIntStrings (sort i)) →
        HighestSupported [["5".toList], ["5".toList]] (computeConsensusMethod sort votes')) ↔
    SpelledAlike [["5".toList], ["5".toList]] :=
  method_right_iff [["5".toList], ["5".toList]] fun s hs => by
    have hs : s = "5".toList := by simpa using hs
    subst hs
    exact ⟨by decide, by decide, by decide, by decide⟩

/-- Both votes list method 5, and the method chosen is 1. -/
theorem five_spelled_apart_is_missed : ∃ sort : Nat → List Text → List Text, (∀ i, IsQsort cmpIntStrings (sort i)) ∧
    computeConsensusMethod sort [["5".toList], ["05".toList]] = 1 ∧ Highest [["5".toList], ["05".toList]] 5 ∧
      ¬ HighestSupported [["5".toList], ["05".toList]] (computeConsensusMethod sort [["5".toList], ["05".toList]]) := by
  have hfirst : smartlistUniq cmpIntStrings (rankSort cmpIntStrings ["5".toList]) = ["5".toList] := by
    show smartlistUniq cmpIntStrings ["5".toList] = _
    rw [smartlistUniq]
  have hsecond : smartlistUniq cmpIntStrings (rankSort cmpIntStrings ["05".toList]) = ["05".toList] := by
    show smartlistUniq cmpIntStrings ["05".toList] = _
    rw [smartlistUniq]
  have hone : computeConsensusMethod (fun _ => rankSort cmpIntStrings) [["5".toList], ["05".toList]] = 1 := by
    rw [computeConsensusMethod, allMethods, allMethods, allMethods, hfirst, hsecond]
    decide
  have hhighest : Highest [["5".toList], ["05".toList]] 5 := by
    refine ⟨by rw [Supported]; decide, fun m hm => ?_⟩
    obtain ⟨s, hs, rfl⟩ := hm.exists_text
    have hs : s = "5".toList ∨ s = "05".toList := by simpa using hs
    rcases hs with rfl | rfl <;> decide
  refine ⟨fun _ => rankSort cmpIntStrings, fun _ => rankSort_isQsort cmpIntStrings, hone, hhighest, fun hright => ?_⟩
  rw [hone] at hright
  exact absurd (hhighest.result hright) (by decide)

end Badnet.Dirauth

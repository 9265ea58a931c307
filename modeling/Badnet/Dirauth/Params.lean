/-
  Badnet.Dirauth.Params — the network parameters of a consensus (`dirvote_compute_params`).

  The `keyword=value` strings of all votes are sorted as strings and cut into series. Keywords end in the first equals
  sign, so none of them, with its sign, begins another: each keyword is one series, with at most one value from each
  vote (`params_are_the_medians`).
-/

import Badnet.Lib.Median
import Badnet.Versions.VersionOrder

namespace Badnet.Dirauth

open Lib Encoding Protover Versions

/-- What may fail: the text has no `=`, there are more values than votes, a value is not a number, the median of
    nothing. -/
inductive ParamsAssertion where
  | eq
  | voteStuffing
  | ok
  | nth
  deriving DecidableEq

def MIN_VOTES_FOR_PARAM : Nat := 3

/-- `strchr(s, '=')`, as what stands from there on. -/
def strchrEq (s : Text) : Except ParamsAssertion Text :=
  match s.dropWhile (· ≠ '=') with
  | [] => .error .eq
  | eq => .ok eq

/-- The length of the keyword and its equals sign, `eq+1 - param`. -/
def paramLen (s : Text) : Except ParamsAssertion Nat := do
  let eq ← strchrEq s
  .ok (s.length - eq.length + 1)

def paramValue (s : Text) : Except ParamsAssertion Int := do
  let eq ← strchrEq s
  match torParseLong eq.tail (-2147483648) 2147483647 with
  | none => .error .ok
  | some v => .ok v

/-- `%ld`. -/
def printLong (v : Int) : Text := if v < 0 then '-' :: decimal (-v).toNat else decimal v.toNat

def strncmp (a b : Text) (n : Nat) : Int := strcmp (a.take n) (b.take n)

/-- `find_nth_int32`. -/
def findNth (array : List Int) (nth : Nat) : Except ParamsAssertion Int :=
  match (array.mergeSort (· ≤ ·))[nth]? with
  | none => .error .nth
  | some v => .ok v

def medianInt32 (array : List Int) : Except ParamsAssertion Int := findNth array ((array.length - 1) / 2)

/-- What the end of a series adds to the output; `param` is its last string. -/
def endSeries (totalAuthorities : Int) (curParamLen : Nat) (param : Text) (vals : List Int) :
    Except ParamsAssertion (List Text) :=
  if (vals.length : Int) > totalAuthorities.tdiv 2 ∨ vals.length ≥ MIN_VOTES_FOR_PARAM then do
    let median ← medianInt32 vals
    .ok [param.take curParamLen ++ printLong median]
  else .ok []

def seriesEnds (curParamLen : Nat) (param : Text) : List Text → Bool
  | [] => true
  | nextParam :: _ => strncmp nextParam param curParamLen ≠ 0

/-- `cur_param_len` for the series that is next, if there is one. -/
def nextParamLen : List Text → Except ParamsAssertion Nat
  | [] => .ok 0
  | nextParam :: _ => paramLen nextParam

/-- The loop; `vals` are the values of the series so far. -/
def paramsLoop (totalAuthorities : Int) (nVotes curParamLen : Nat) (vals : List Int) :
    List Text → Except ParamsAssertion (List Text)
  | [] => .ok []
  | param :: rest =>
    if ¬ vals.length < nVotes then .error .voteStuffing
    else do
      let v ← paramValue param
      if seriesEnds curParamLen param rest then do
        let out ← endSeries totalAuthorities curParamLen param (vals ++ [v])
        let len ← nextParamLen rest
        let outs ← paramsLoop totalAuthorities nVotes len [] rest
        .ok (out ++ outs)
      else paramsLoop totalAuthorities nVotes curParamLen (vals ++ [v]) rest

/-- The strings of a vote, none when `net_params` is NULL. -/
def netParams (vote : Option (List Text)) : List Text := vote.getD []

/-- `sort` is `smartlist_sort_strings`. -/
def dirvoteComputeParams (sort : List Text → List Text) (votes : List (Option (List Text))) (totalAuthorities : Int) :
    Except ParamsAssertion (List Text) :=
  let paramList := votes.flatMap netParams
  if paramList = [] then .ok []
  else do
    let len ← nextParamLen (sort paramList)
    paramsLoop totalAuthorities votes.length len [] (sort paramList)

/-! ## Keywords -/

def keyword (s : Text) : Text := s.takeWhile (· ≠ '=')

/-- A keyword, an equals sign and a number that fits in an `int32_t`. -/
structure ValidParam (s : Text) : Prop where
  eq : '=' ∈ s
  value : ∃ v, paramValue s = .ok v

variable {s t k : Text} {n : Nat}

theorem keyword_append (h : '=' ∈ s) : ∃ rest, s = keyword s ++ '=' :: rest ∧ strchrEq s = .ok ('=' :: rest) := by
  have hdrop : s.dropWhile (· ≠ '=') ≠ [] := by
    rw [ne_eq, List.dropWhile_eq_nil_iff]
    intro hall
    exact absurd (hall '=' h) (by decide)
  obtain ⟨c, rest, hrest⟩ := List.exists_cons_of_ne_nil hdrop
  have hc : c = '=' := by
    have hhead := List.head?_dropWhile_not (fun c : Char => decide (c ≠ '=')) s
    rw [hrest] at hhead
    exact Decidable.not_not.mp (of_decide_eq_false hhead)
  subst hc
  refine ⟨rest, ?_, ?_⟩
  · rw [← hrest]
    exact List.takeWhile_append_dropWhile.symm
  · rw [strchrEq, hrest]

theorem not_mem_keyword (s : Text) : '=' ∉ keyword s := fun h => absurd (List.mem_takeWhile_imp h) (by decide)

theorem paramLen_eq (h : '=' ∈ s) : paramLen s = .ok ((keyword s).length + 1) := by
  obtain ⟨rest, hs, heq⟩ := keyword_append h
  rw [paramLen, heq]
  show Except.ok (s.length - (rest.length + 1) + 1) = _
  have hlen := congrArg List.length hs
  rw [List.length_append, List.length_cons] at hlen
  rw [hlen, Nat.add_sub_cancel]

theorem take_keyword (h : '=' ∈ s) : s.take ((keyword s).length + 1) = keyword s ++ ['='] := by
  obtain ⟨rest, hs, -⟩ := keyword_append h
  refine (congrArg (List.take ((keyword s).length + 1)) hs).trans ?_
  rw [List.take_append, List.take_of_length_le (Nat.le_succ _), Nat.add_sub_cancel_left]
  rfl

/-- Comparing the first difference of two keywords with their signs. -/
theorem strcmp_keyword {k l a b : Text} (hk : '=' ∉ k) (hl : '=' ∉ l) :
    strcmp (k ++ '=' :: a) (l ++ '=' :: b) = if k = l then strcmp a b else strcmp (k ++ ['=']) (l ++ ['=']) := by
  induction k generalizing l with
  | nil =>
    cases l with
    | nil => rfl
    | cons d l =>
      have hd : '=' ≠ d := fun h => hl (h ▸ List.mem_cons_self)
      rw [if_neg (List.cons_ne_nil d l).symm]
      show strcmp ('=' :: a) (d :: (l ++ '=' :: b)) = strcmp ('=' :: []) (d :: (l ++ ['=']))
      rw [strcmp_cons, strcmp_cons, if_neg hd, if_neg hd]
  | cons c k ih =>
    have hc : '=' ≠ c := fun h => hk (h ▸ List.mem_cons_self)
    have hk' : '=' ∉ k := fun h => hk (List.mem_cons_of_mem c h)
    cases l with
    | nil =>
      rw [if_neg (List.cons_ne_nil c k)]
      show strcmp (c :: (k ++ '=' :: a)) ('=' :: b) = strcmp (c :: (k ++ ['='])) ('=' :: [])
      rw [strcmp_cons, strcmp_cons, if_neg hc.symm, if_neg hc.symm]
    | cons d l =>
      have hl' : '=' ∉ l := fun h => hl (List.mem_cons_of_mem d h)
      show strcmp (c :: (k ++ '=' :: a)) (d :: (l ++ '=' :: b)) =
        if c :: k = d :: l then strcmp a b else strcmp (c :: (k ++ ['='])) (d :: (l ++ ['=']))
      rw [strcmp_cons, strcmp_cons]
      by_cases hcd : c = d
      · subst hcd
        rw [if_pos rfl, if_pos rfl, ih hk' hl']
        by_cases hkl : k = l
        · rw [if_pos hkl, if_pos (congrArg (c :: ·) hkl)]
        · rw [if_neg hkl, if_neg fun h => hkl (List.cons.inj h).2]
      · rw [if_neg hcd, if_neg hcd, if_neg fun h => hcd (List.cons.inj h).1]

/-- The order of two keywords, each with its sign. -/
def KeywordLt (k l : Text) : Prop := strcmp (k ++ ['=']) (l ++ ['=']) < 0

theorem keyword_sorted (hs : '=' ∈ s) (ht : '=' ∈ t) (hle : strcmp s t ≤ 0) :
    keyword s = keyword t ∨ KeywordLt (keyword s) (keyword t) := by
  obtain ⟨a, hsa, -⟩ := keyword_append hs
  obtain ⟨b, htb, -⟩ := keyword_append ht
  by_cases hk : keyword s = keyword t
  · exact .inl hk
  · right
    rw [hsa, htb, strcmp_keyword (not_mem_keyword s) (not_mem_keyword t), if_neg hk] at hle
    refine lt_of_le_of_ne hle fun hzero => hk ?_
    exact List.append_cancel_right (strcmp_zero_iff.mp hzero)

theorem keywordLt_irrefl (k : Text) : ¬ KeywordLt k k := by
  rw [KeywordLt, strcmp_zero_iff.mpr rfl]
  decide

theorem keywordLt_trans {j : Text} (hjk : KeywordLt j k) (hkl : KeywordLt k t) : KeywordLt j t :=
  TotalPreorderOn.lt_of_lt_of_le strcmp_totalPreorder trivial trivial trivial hjk (Int.le_of_lt hkl)

/-- The series goes on exactly with the same keyword. -/
theorem strncmp_keyword (hs : '=' ∈ s) (ht : '=' ∈ t) :
    strncmp t s ((keyword s).length + 1) = 0 ↔ keyword t = keyword s := by
  rw [strncmp, strcmp_zero_iff, take_keyword hs]
  obtain ⟨b, htb, -⟩ := keyword_append ht
  constructor
  · intro h
    have hpre : keyword s ++ ['='] <+: t := h ▸ List.take_prefix _ _
    obtain ⟨rest, hrest⟩ := hpre
    rw [← hrest, List.append_assoc, keyword, List.takeWhile_append_of_pos]
    · simp
    · intro c hc
      exact decide_eq_true fun heq => not_mem_keyword s (heq ▸ hc)
  · intro h
    rw [← h, take_keyword ht]

/-! ## One series -/

def valueOf (s : Text) : Int := (paramValue s).toOption.getD 0

/-- The values that are listed for a keyword. -/
def valuesOf (params : List Text) (k : Text) : List Int := (params.filter (keyword · = k)).map valueOf

/-- More than half of the authorities, or three votes. -/
def Enough (totalAuthorities : Int) (vals : List Int) : Prop := totalAuthorities < 2 * vals.length ∨ 3 ≤ vals.length

/-- The parameter of the consensus. -/
def printParam (entry : Text × Int) : Text := entry.1 ++ '=' :: printLong entry.2

variable {vals : List Int} {total : Int} {nVotes : Nat} {params rest g : List Text}

theorem ValidParam.paramValue (h : ValidParam s) : paramValue s = .ok (valueOf s) := by
  obtain ⟨v, hv⟩ := h.value
  rw [valueOf, hv]
  rfl

theorem medianInt32_spec (h : vals ≠ []) : ∃ m, medianInt32 vals = .ok m ∧ IsLowMedian vals m := by
  have hlen : 0 < vals.length := List.length_pos_iff.mpr h
  have hi : (vals.length - 1) / 2 < (vals.mergeSort (· ≤ ·)).length := by
    rw [List.length_mergeSort]
    omega
  have hget := List.getElem?_eq_getElem hi
  refine ⟨_, ?_, (isLowMedian_iff_get (List.mergeSort_perm vals _) (List.pairwise_mergeSort' (· ≤ ·) vals)).mpr hget⟩
  rw [medianInt32, findNth, hget]

theorem enough_iff (h : vals ≠ []) :
    ((vals.length : Int) > total.tdiv 2 ∨ vals.length ≥ MIN_VOTES_FOR_PARAM) ↔ Enough total vals := by
  have hlen : 0 < vals.length := List.length_pos_iff.mpr h
  rw [Enough, MIN_VOTES_FOR_PARAM]
  rcases Int.le_total 0 total with hpos | hneg
  · rw [Int.tdiv_eq_ediv_of_nonneg hpos]
    omega
  · have hhalf : total.tdiv 2 ≤ 0 := by
      have hnonneg : 0 ≤ (-total).tdiv 2 := Int.tdiv_nonneg (by omega) (by decide)
      rw [Int.neg_tdiv] at hnonneg
      omega
    omega

theorem endSeries_spec (total : Int) (hs : '=' ∈ s) (h : vals ≠ []) :
    (Enough total vals ∧ ∃ m, IsLowMedian vals m ∧
      endSeries total ((keyword s).length + 1) s vals = .ok [printParam (keyword s, m)]) ∨
    (¬ Enough total vals ∧ endSeries total ((keyword s).length + 1) s vals = .ok []) := by
  rw [endSeries]
  by_cases henough : Enough total vals
  · left
    obtain ⟨m, hm, hmedian⟩ := medianInt32_spec h
    refine ⟨henough, m, hmedian, ?_⟩
    rw [if_pos ((enough_iff h).mpr henough), hm, take_keyword hs]
    show Except.ok [(keyword s ++ ['=']) ++ printLong m] = _
    rw [List.append_assoc]
    rfl
  · right
    exact ⟨henough, if_neg fun hn => henough ((enough_iff h).mp hn)⟩

/-- The loop on the strings of one keyword, with others behind: nothing is written before the last of them. -/
theorem paramsLoop_series (hg : ∀ s ∈ g, ValidParam s ∧ keyword s = k) (hne : g ≠ [])
    (hrest : ∀ t ∈ rest.head?, ValidParam t ∧ keyword t ≠ k) (hvotes : vals.length + g.length ≤ nVotes) :
    ∃ s ∈ g, paramsLoop total nVotes (k.length + 1) vals (g ++ rest) = (do
      let out ← endSeries total (k.length + 1) s (vals ++ g.map valueOf)
      let len ← nextParamLen rest
      let outs ← paramsLoop total nVotes len [] rest
      .ok (out ++ outs)) := by
  induction g generalizing vals with
  | nil => exact absurd rfl hne
  | cons s g ih =>
    obtain ⟨hvalid, hkey⟩ := hg s List.mem_cons_self
    rw [List.length_cons] at hvotes
    have hvalue := hvalid.paramValue
    cases g with
    | nil =>
      have hends : seriesEnds (k.length + 1) s rest = true := by
        cases rest with
        | nil => rfl
        | cons t rest =>
          obtain ⟨ht, htk⟩ := hrest t rfl
          refine decide_eq_true fun hzero => htk ?_
          rw [← hkey] at hzero
          exact ((strncmp_keyword hvalid.eq ht.eq).mp hzero).trans hkey
      refine ⟨s, List.mem_cons_self, ?_⟩
      rw [List.singleton_append, paramsLoop, if_neg (by omega), hvalue]
      show (if seriesEnds (k.length + 1) s rest = true then _ else _) = _
      rw [if_pos hends]
      rfl
    | cons s' g =>
      obtain ⟨hvalid', hkey'⟩ := hg s' (List.mem_cons_of_mem s List.mem_cons_self)
      have hgoes : ¬ seriesEnds (k.length + 1) s (s' :: (g ++ rest)) = true := by
        intro hends
        refine of_decide_eq_true hends ?_
        rw [← hkey]
        exact (strncmp_keyword hvalid.eq hvalid'.eq).mpr (hkey'.trans hkey.symm)
      obtain ⟨last, hlast, hloop⟩ := @ih (vals ++ [valueOf s]) (fun t ht => hg t (List.mem_cons_of_mem s ht))
        (List.cons_ne_nil s' g) (by rw [List.length_append, List.length_singleton]; omega)
      have hvals : vals ++ [valueOf s] ++ (s' :: g).map valueOf = vals ++ (s :: s' :: g).map valueOf := by
        rw [List.append_assoc]
        rfl
      rw [hvals] at hloop
      refine ⟨last, List.mem_cons_of_mem s hlast, ?_⟩
      rw [← hloop]
      show paramsLoop total nVotes (k.length + 1) vals (s :: (s' :: (g ++ rest))) = _
      rw [paramsLoop, if_neg (by omega), hvalue]
      show (if seriesEnds (k.length + 1) s (s' :: (g ++ rest)) = true then _ else _) = _
      rw [if_neg hgoes]
      rfl

/-! ## All of them -/

theorem valuesOf_perm {params' : List Text} (h : params.Perm params') (k : Text) :
    (valuesOf params k).Perm (valuesOf params' k) :=
  (h.filter _).map _

section

variable (hvalid : ∀ t ∈ s :: params, ValidParam t) (hsorted : (s :: params).Pairwise (strcmp · · ≤ 0))
include hvalid hsorted

/-- The strings after the first one with its keyword stand in front of those with other keywords. -/
theorem sorted_keywords :
    params.Pairwise fun x y => decide (keyword y = keyword s) = true → decide (keyword x = keyword s) = true := by
  obtain ⟨hhead, htail⟩ := List.pairwise_cons.mp hsorted
  have hs := (hvalid s List.mem_cons_self).eq
  refine List.Pairwise.imp_of_mem (fun {x y} hx hy hxy hkey => ?_) htail
  have hx' := (hvalid x (List.mem_cons_of_mem s hx)).eq
  have hy' := (hvalid y (List.mem_cons_of_mem s hy)).eq
  rw [decide_eq_true_eq] at hkey ⊢
  rcases keyword_sorted hs hx' (hhead x hx) with heq | hlt
  · exact heq.symm
  · rcases keyword_sorted hx' hy' hxy with heq | hlt'
    · exact heq.trans hkey
    · rw [hkey] at hlt'
      exact absurd (keywordLt_trans hlt hlt') (keywordLt_irrefl _)

/-- A sorted list begins with the strings of one keyword, and there are no more of it. -/
theorem series_split :
    ∃ g rest, params = g ++ rest ∧ (∀ t ∈ s :: g, keyword t = keyword s) ∧ ∀ t ∈ rest, keyword t ≠ keyword s := by
  have hkeys := sorted_keywords hvalid hsorted
  refine ⟨params.takeWhile fun t => decide (keyword t = keyword s), params.dropWhile fun t => decide (keyword t = keyword s),
    List.takeWhile_append_dropWhile.symm, fun t ht => ?_, fun t ht => ?_⟩
  · rcases List.mem_cons.mp ht with rfl | ht
    · rfl
    · have hkey := List.mem_takeWhile_imp ht
      exact of_decide_eq_true hkey
  · rw [dropWhile_eq_filter hkeys] at ht
    simpa using (List.mem_filter.mp ht).2

end

theorem valuesOf_split (hg : ∀ t ∈ g, keyword t = k) (hrest : ∀ t ∈ rest, keyword t ≠ k) :
    valuesOf (g ++ rest) k = g.map valueOf ∧ valuesOf rest k = [] ∧
      ∀ l, l ≠ k → valuesOf (g ++ rest) l = valuesOf rest l := by
  have hnone : rest.filter (keyword · = k) = [] :=
    List.filter_eq_nil_iff.mpr fun t ht h => hrest t ht (of_decide_eq_true h)
  refine ⟨?_, by rw [valuesOf, hnone]; rfl, fun l hl => ?_⟩
  · rw [valuesOf, List.filter_append, hnone, List.filter_eq_self.mpr fun t ht => decide_eq_true (hg t ht), List.append_nil]
  · have hnone' : g.filter (keyword · = l) = [] :=
      List.filter_eq_nil_iff.mpr fun t ht h => hl ((of_decide_eq_true h).symm.trans (hg t ht))
    rw [valuesOf, List.filter_append, hnone', List.nil_append]
    rfl

/-- The entries of the output for a list of strings. -/
structure Entries (total : Int) (params : List Text) (entries : List (Text × Int)) : Prop where
  ordered : entries.Pairwise fun e e' => KeywordLt e.1 e'.1
  mem : ∀ k m, (k, m) ∈ entries ↔ Enough total (valuesOf params k) ∧ IsLowMedian (valuesOf params k) m

theorem keyword_of_entry {entries : List (Text × Int)} (h : Entries total params entries) {e : Text × Int}
    (he : e ∈ entries) : ∃ t ∈ params, keyword t = e.1 := by
  have hmedian := ((h.mem e.1 e.2).mp he).2.mem
  obtain ⟨t, ht, -⟩ := List.mem_map.mp hmedian
  obtain ⟨hmem, hkey⟩ := List.mem_filter.mp ht
  exact ⟨t, hmem, of_decide_eq_true hkey⟩

/-- A series in front adds its entry, if there are enough votes for it. -/
theorem Entries.cons_series {entries : List (Text × Int)} (h : Entries total rest entries)
    (hg : ∀ t ∈ g, keyword t = k) (hrest : ∀ t ∈ rest, KeywordLt k (keyword t)) :
    (∀ m, Enough total (g.map valueOf) → IsLowMedian (g.map valueOf) m → Entries total (g ++ rest) ((k, m) :: entries)) ∧
    (¬ Enough total (g.map valueOf) → Entries total (g ++ rest) entries) := by
  obtain ⟨hk, hnone, hothers⟩ := valuesOf_split hg fun t ht heq => keywordLt_irrefl k (heq ▸ hrest t ht)
  have hnotin : ∀ m, (k, m) ∉ entries := by
    intro m hm
    have := ((h.mem k m).mp hm).2.mem
    rw [hnone] at this
    exact absurd this List.not_mem_nil
  have hsame : ∀ l m, l ≠ k → ((l, m) ∈ entries ↔ Enough total (valuesOf (g ++ rest) l) ∧
      IsLowMedian (valuesOf (g ++ rest) l) m) := by
    intro l m hl
    rw [hothers l hl]
    exact h.mem l m
  refine ⟨fun m henough hmedian => ⟨List.pairwise_cons.mpr ⟨fun e he => ?_, h.ordered⟩, fun l m' => ?_⟩,
    fun hfew => ⟨h.ordered, fun l m' => ?_⟩⟩
  · obtain ⟨t, ht, hkey⟩ := keyword_of_entry h he
    exact hkey ▸ hrest t ht
  · by_cases hl : l = k
    · subst hl
      rw [hk, List.mem_cons]
      constructor
      · rintro (heq | hmem)
        · rw [(Prod.mk.inj heq).2]
          exact ⟨henough, hmedian⟩
        · exact absurd hmem (hnotin m')
      · rintro ⟨-, hm'⟩
        rw [hm'.unique hmedian]
        exact .inl rfl
    · rw [List.mem_cons, ← hsame l m' hl]
      exact ⟨fun hor => hor.resolve_left fun heq => hl (Prod.mk.inj heq).1, .inr⟩
  · by_cases hl : l = k
    · subst hl
      rw [hk]
      exact ⟨fun hmem => absurd hmem (hnotin m'), fun hboth => absurd hboth.1 hfew⟩
    · exact hsame l m' hl

/-- The output for a sorted list: the first series, and by induction the others. -/
theorem paramsLoop_spec (total : Int) (nVotes : Nat) (hvalid : ∀ t ∈ params, ValidParam t) (hsorted : params.Pairwise (strcmp · · ≤ 0))
    (hvotes : ∀ k, (valuesOf params k).length ≤ nVotes) :
    ∃ entries, (nextParamLen params >>= fun len => paramsLoop total nVotes len [] params) =
      .ok (entries.map printParam) ∧ Entries total params entries := by
  induction hn : params.length using Nat.strong_induction_on generalizing params with
  | _ n ih =>
    subst hn
    cases params with
    | nil =>
      refine ⟨[], rfl, List.Pairwise.nil, fun k m => ⟨fun h => absurd h List.not_mem_nil, fun h => ?_⟩⟩
      exact absurd h.2.mem List.not_mem_nil
    | cons s params =>
      obtain ⟨g, rest, rfl, hg, hrest⟩ := series_split hvalid hsorted
      have hs := hvalid s List.mem_cons_self
      rw [← List.cons_append] at hvalid hsorted hvotes
      obtain ⟨hvalues, -, hothers⟩ := valuesOf_split hg hrest
      obtain ⟨-, hsortedRest, hbefore⟩ := List.pairwise_append.mp hsorted
      have hlater : ∀ t ∈ rest, KeywordLt (keyword s) (keyword t) := fun t ht =>
        (keyword_sorted hs.eq (hvalid t (List.mem_append_right _ ht)).eq (hbefore s List.mem_cons_self t ht)).resolve_left
          fun heq => hrest t ht heq.symm
      have hcount := hvotes (keyword s)
      rw [hvalues, List.length_map] at hcount
      obtain ⟨last, hlast, hloop⟩ : ∃ last ∈ s :: g, paramsLoop total nVotes ((keyword s).length + 1) [] (s :: g ++ rest) =
          (do
            let out ← endSeries total ((keyword s).length + 1) last ([] ++ (s :: g).map valueOf)
            let len ← nextParamLen rest
            let outs ← paramsLoop total nVotes len [] rest
            .ok (out ++ outs)) :=
        paramsLoop_series (fun t ht => ⟨hvalid t (List.mem_append_left _ ht), hg t ht⟩) (List.cons_ne_nil s g)
          (fun t ht => ⟨hvalid t (List.mem_append_right _ (List.mem_of_mem_head? ht)), hrest t (List.mem_of_mem_head? ht)⟩)
          (by rw [List.length_nil, Nat.zero_add]; exact hcount)
      obtain ⟨entries, hentries, hspec⟩ := ih rest.length (by rw [List.length_cons, List.length_append]; omega)
        (fun t ht => hvalid t (List.mem_append_right _ ht)) hsortedRest (fun k => by
          by_cases hk : k = keyword s
          · rw [hk, valuesOf, List.filter_eq_nil_iff.mpr fun t ht h => hrest t ht (of_decide_eq_true h)]
            exact Nat.zero_le _
          · rw [← hothers k hk]
            exact hvotes k) rfl
      have hlastEq := (hvalid last (List.mem_append_left _ hlast)).eq
      have hstart : (nextParamLen (s :: (g ++ rest)) >>= fun len => paramsLoop total nVotes len [] (s :: (g ++ rest))) =
          (endSeries total ((keyword last).length + 1) last ((s :: g).map valueOf) >>= fun out =>
            (nextParamLen rest >>= fun len => paramsLoop total nVotes len [] rest) >>= fun outs => .ok (out ++ outs)) := by
        rw [nextParamLen, paramLen_eq hs.eq, hg last hlast]
        refine Eq.trans hloop ?_
        rw [List.nil_append]
        congr 1
        funext out
        cases nextParamLen rest <;> rfl
      obtain ⟨hadd, hskip⟩ := hspec.cons_series hg hlater
      rw [hstart, hentries]
      rcases endSeries_spec total hlastEq (List.cons_ne_nil (valueOf s) (g.map valueOf)) with
        ⟨henough, m, hm, hout⟩ | ⟨hfew, hout⟩
      · refine ⟨(keyword s, m) :: entries, ?_, hadd m henough hm⟩
        rw [List.map_cons, hout, hg last hlast]
        rfl
      · refine ⟨entries, ?_, hskip hfew⟩
        rw [List.map_cons, hout]
        rfl

/-! ## The votes -/

/-- The keywords of a vote are different from one another. -/
structure ValidParamsVote (vote : Option (List Text)) : Prop where
  valid : ∀ s ∈ netParams vote, ValidParam s
  unique : ((netParams vote).map keyword).Nodup

/-- A vote lists a keyword once. -/
theorem listed_once (h : (params.map keyword).Nodup) (k : Text) : (params.filter (keyword · = k)).length ≤ 1 := by
  induction params with
  | nil => exact Nat.zero_le _
  | cons s params ih =>
    rw [List.map_cons, List.nodup_cons] at h
    by_cases hs : keyword s = k
    · have hnone : params.filter (keyword · = k) = [] := by
        refine List.filter_eq_nil_iff.mpr fun t ht hkey => h.1 ?_
        rw [hs, ← of_decide_eq_true hkey]
        exact List.mem_map_of_mem ht
      rw [List.filter_cons, if_pos (decide_eq_true hs), hnone, List.length_singleton]
    · rw [List.filter_cons, if_neg fun hkey => hs (of_decide_eq_true hkey)]
      exact ih h.2

theorem values_le_votes {votes : List (Option (List Text))} (h : ∀ v ∈ votes, ValidParamsVote v) (k : Text) :
    (valuesOf (votes.flatMap netParams) k).length ≤ votes.length := by
  rw [valuesOf, List.length_map]
  induction votes with
  | nil => exact Nat.le_refl _
  | cons v votes ih =>
    have hone := listed_once (h v List.mem_cons_self).unique k
    have hrest := ih fun w hw => h w (List.mem_cons_of_mem v hw)
    rw [List.flatMap_cons, List.filter_append, List.length_append, List.length_cons]
    omega

/-- Sorting forgets the order. -/
theorem sort_strings_perm {sort : List Text → List Text} (hsort : IsSort strcmp sort) {params' : List Text}
    (h : params.Perm params') : sort params = sort params' :=
  ((hsort params).perm.trans (h.trans (hsort params').perm.symm)).eq_of_pairwise
    (fun _ _ _ _ => strcmp_antisymm) (hsort params).ordered (hsort params').ordered

/-- No assertion fails, each keyword with enough votes has one entry, its low median, in the order of the keywords,
and the order of the votes plays no part. -/
theorem params_are_the_medians {sort : List Text → List Text} (hsort : IsSort strcmp sort)
    {votes : List (Option (List Text))} (h : ∀ v ∈ votes, ValidParamsVote v) (totalAuthorities : Int) :
    (∃ entries : List (Text × Int),
      dirvoteComputeParams sort votes totalAuthorities = .ok (entries.map fun e => e.1 ++ '=' :: printLong e.2) ∧
      entries.Pairwise (fun e e' => strcmp (e.1 ++ ['=']) (e'.1 ++ ['=']) < 0) ∧
      ∀ k m, (k, m) ∈ entries ↔ Enough totalAuthorities (valuesOf (votes.flatMap netParams) k) ∧
        IsLowMedian (valuesOf (votes.flatMap netParams) k) m) ∧
    ∀ votes', votes.Perm votes' →
      dirvoteComputeParams sort votes' totalAuthorities = dirvoteComputeParams sort votes totalAuthorities := by
  have hperm := (hsort (votes.flatMap netParams)).perm
  constructor
  · by_cases hempty : votes.flatMap netParams = []
    · refine ⟨[], by rw [dirvoteComputeParams, if_pos hempty]; rfl, List.Pairwise.nil, fun k m =>
        ⟨fun hm => absurd hm List.not_mem_nil, fun hm => ?_⟩⟩
      rw [hempty] at hm
      exact absurd hm.2.mem List.not_mem_nil
    · have hvalid : ∀ t ∈ sort (votes.flatMap netParams), ValidParam t := by
        intro t ht
        obtain ⟨v, hv, htv⟩ := List.mem_flatMap.mp (hperm.mem_iff.mp ht)
        exact (h v hv).valid t htv
      obtain ⟨entries, hentries, hspec⟩ := paramsLoop_spec totalAuthorities votes.length hvalid
        (hsort _).ordered fun k => by
          rw [(valuesOf_perm hperm k).length_eq]
          exact values_le_votes h k
      refine ⟨entries, by rw [dirvoteComputeParams, if_neg hempty]; exact hentries, hspec.ordered, fun k m => ?_⟩
      have hvals := valuesOf_perm hperm k
      rw [hspec.mem, Enough, Enough, hvals.length_eq]
      exact and_congr_right fun _ => ⟨fun hm => hm.perm hvals, fun hm => hm.perm hvals.symm⟩
  · intro votes' hvotes
    have hflat : (votes'.flatMap netParams).Perm (votes.flatMap netParams) := hvotes.symm.flatMap_right netParams
    have hnil : votes'.flatMap netParams = [] ↔ votes.flatMap netParams = [] := by
      rw [← List.length_eq_zero_iff, ← List.length_eq_zero_iff, hflat.length_eq]
    simp only [dirvoteComputeParams, hnil, sort_strings_perm hsort hflat, hvotes.length_eq]

theorem insertionSort_strings : IsSort strcmp (List.insertionSort fun a b => strcmp a b ≤ 0) := by
  have : Std.Total fun a b : Text => strcmp a b ≤ 0 := ⟨fun a b => by rw [strcmp_swap b a]; omega⟩
  have : IsTrans Text fun a b => strcmp a b ≤ 0 := ⟨fun _ _ _ => strcmp_trans⟩
  exact fun l => ⟨List.perm_insertionSort _ l, List.pairwise_insertionSort _ l⟩

theorem isOk_value {ε α : Type} {x : Except ε α} (h : x.isOk = true) : ∃ v, x = .ok v := by
  cases x with
  | error e => cases h
  | ok v => exact ⟨v, rfl⟩

def sampleParamVotes : List (Option (List Text)) :=
  [some ["circwindow=80".toList, "a-b=1".toList], none, some ["a=2".toList, "circwindow=+100".toList],
    some ["circwindow=90".toList]]

theorem sample_params : (∃ entries : List (Text × Int),
    dirvoteComputeParams (List.insertionSort fun a b => strcmp a b ≤ 0) sampleParamVotes 4 =
      .ok (entries.map fun e => e.1 ++ '=' :: printLong e.2) ∧
    entries.Pairwise (fun e e' => strcmp (e.1 ++ ['=']) (e'.1 ++ ['=']) < 0) ∧
    ∀ k m, (k, m) ∈ entries ↔ Enough 4 (valuesOf (sampleParamVotes.flatMap netParams) k) ∧
      IsLowMedian (valuesOf (sampleParamVotes.flatMap netParams) k) m) ∧
    ∀ votes', sampleParamVotes.Perm votes' →
      dirvoteComputeParams (List.insertionSort fun a b => strcmp a b ≤ 0) votes' 4 =
        dirvoteComputeParams (List.insertionSort fun a b => strcmp a b ≤ 0) sampleParamVotes 4 := by
  refine params_are_the_medians insertionSort_strings ?_ 4
  have hall : ∀ v ∈ sampleParamVotes, (∀ s ∈ netParams v, '=' ∈ s ∧ (paramValue s).isOk = true) ∧
      ((netParams v).map keyword).Nodup := by decide
  intro v hv
  obtain ⟨hvalid, hunique⟩ := hall v hv
  exact ⟨fun s hs => ⟨(hvalid s hs).1, isOk_value (hvalid s hs).2⟩, hunique⟩

end Badnet.Dirauth

/-
  Badnet.SharedRandom.Consensus — the shared random values of a consensus (`sr_get_string_for_consensus`).

  One of the values with the most votes is printed, with the number of reveals that came with it. Sorting and counting
  look at the value only: the lines are the same for every order of the votes if and only if all votes for the value
  that is elected have the same number (`consensus_lines_order_free_iff`).
-/

import Badnet.SharedRandom.Srv
import Badnet.Container.MostFrequent

namespace Badnet.SharedRandom

open Lib Encoding Nodelist Container

/-- What a vote says about shared randomness, `sr_info` of `networkstatus_t`. -/
structure SrInfo where
  participate : Bool
  previousSrv : Option SrSrv
  currentSrv : Option SrSrv
  deriving DecidableEq

/-- What the authority that makes the consensus goes by. -/
structure ConsensusEnv where
  authDirSharedRandomness : Bool
  nAuthorities : Nat
  srvIsFresh : Bool
  numSrvAgreements : Int

/-! ## The lines -/

/-- Both `compare_srv_`, which sorts, and `compare_srvs_`, which counts. -/
def compareSrv (a b : SrSrv) : Int := torMemcmp a.value.1 b.value.1 32

def shouldKeepSrv (env : ConsensusEnv) (nAgreements : Nat) : Bool :=
  if nAgreements < env.nAuthorities / 2 + 1 then false
  else if env.srvIsFresh ∧ nAgreements < env.numSrvAgreements then false
  else true

def SrInfo.srv (v : SrInfo) (current : Bool) : Option SrSrv :=
  if ¬ v.participate then none else if current then v.currentSrv else v.previousSrv

def srvList (votes : List SrInfo) (current : Bool) : List SrSrv := votes.filterMap (·.srv current)

/-- `sort` is `smartlist_sort`. -/
def getMajoritySrvFromVotes (sort : List SrSrv → List SrSrv) (env : ConsensusEnv) (votes : List SrInfo) (current : Bool) :
    Option SrSrv :=
  match smartlistGetMostFrequent compareSrv (sort (srvList votes current)) with
  | (none, _) => none
  | (some srv, count) => if shouldKeepSrv env count then some srv else none

def previousSrvStr : Text := "shared-rand-previous-value".toList

def currentSrvStr : Text := "shared-rand-current-value".toList

variable (srv : SrSrv)

/-- The base64 text of `sr_srv_encode`, which has 44 characters and always fits. -/
def srSrvEncode : Text := encoded false srv.value.1

def srvToNsString (key : Text) : Text :=
  key ++ ' ' :: decimal srv.numReveals.toNat ++ ' ' :: srSrvEncode srv ++ ['\n']

def getNsStrFromSrValues (prevSrv curSrv : Option SrSrv) : Option Text :=
  if prevSrv.isNone ∧ curSrv.isNone then none
  else
    some ((prevSrv.map (srvToNsString · previousSrvStr)).getD [] ++ (curSrv.map (srvToNsString · currentSrvStr)).getD [])

def srGetStringForConsensus (sort : List SrSrv → List SrSrv) (env : ConsensusEnv) (votes : List SrInfo) : Option Text :=
  if ¬ env.authDirSharedRandomness then none
  else
    getNsStrFromSrValues (getMajoritySrvFromVotes sort env votes false) (getMajoritySrvFromVotes sort env votes true)

/-! ## The value that is elected -/

variable {sort sort' : List SrSrv → List SrSrv} {env : ConsensusEnv} {votes votes' : List SrInfo} {current : Bool}
  {srvs srvs' : List SrSrv} {a b : SrSrv} {v : Digest256}

/-- A value as a number. -/
def SrSrv.key : Nat := digestValue srv.value.1

theorem compareSrv_eq_zero (a b : SrSrv) : compareSrv a b = 0 ↔ a.key = b.key :=
  (torMemcmp_iff a.value.2 b.value.2).1

theorem compareSrv_compares : Compares compareSrv SrSrv.key := by
  intro a b
  obtain ⟨heq, hlt, -, -⟩ := torMemcmp_iff a.value.2 b.value.2
  rw [Nat.le_iff_lt_or_eq, SrSrv.key, SrSrv.key, ← hlt, ← heq]
  exact Int.le_iff_lt_or_eq

theorem srv_key_eq_iff : a.key = b.key ↔ a.value = b.value := by
  obtain ⟨-, -, -, heq⟩ := torMemcmp_iff a.value.2 b.value.2
  rw [SrSrv.key, SrSrv.key, heq]
  exact Subtype.ext_iff.symm

/-- The number of votes for a value. -/
def votesFor (srvs : List SrSrv) (v : Digest256) : Nat := srvs.countP (·.value = v)

/-- No value has more votes, and none that has as many is higher. -/
structure Leads (srvs : List SrSrv) (v : Digest256) : Prop where
  voted : ∃ a ∈ srvs, a.value = v
  best : ∀ a ∈ srvs, votesFor srvs a.value < votesFor srvs v ∨
    (votesFor srvs a.value = votesFor srvs v ∧ digestValue a.value.1 ≤ digestValue v.1)

/-- The value that leads has enough votes to be kept. -/
def Elected (env : ConsensusEnv) (srvs : List SrSrv) (v : Digest256) : Prop :=
  Leads srvs v ∧ shouldKeepSrv env (votesFor srvs v) = true

theorem Leads.unique {w : Digest256} (hv : Leads srvs v) (hw : Leads srvs w) : v = w := by
  obtain ⟨a, ha, rfl⟩ := hv.voted
  obtain ⟨b, hb, rfl⟩ := hw.voted
  have hle : digestValue a.value.1 = digestValue b.value.1 := by
    rcases hw.best a ha with hlt | ⟨heq, hle⟩ <;> rcases hv.best b hb with hlt' | ⟨heq', hle'⟩ <;> omega
  exact srv_key_eq_iff.mp hle

theorem votesFor_perm (h : srvs.Perm srvs') (v : Digest256) : votesFor srvs v = votesFor srvs' v := h.countP_eq _

theorem Leads.perm (h : Leads srvs v) (hperm : srvs.Perm srvs') : Leads srvs' v := by
  obtain ⟨a, ha, hvalue⟩ := h.voted
  refine ⟨⟨a, hperm.mem_iff.mp ha, hvalue⟩, fun b hb => ?_⟩
  rw [← votesFor_perm hperm, ← votesFor_perm hperm]
  exact h.best b (hperm.mem_iff.mpr hb)

theorem count_key (srvs : List SrSrv) (a : SrSrv) : (srvs.map SrSrv.key).count a.key = votesFor srvs a.value := by
  rw [List.count, List.countP_map, votesFor]
  refine List.countP_congr fun b _ => ?_
  simp [Function.comp_apply, srv_key_eq_iff]

theorem leads_of_mostFrequent {n : Nat} (h : MostFrequent SrSrv.key srvs a n) :
    Leads srvs a.value ∧ n = votesFor srvs a.value := by
  have hcount : n = votesFor srvs a.value := by rw [h.count, count_key]
  refine ⟨⟨⟨a, h.mem, rfl⟩, fun b hb => ?_⟩, hcount⟩
  have hbest := h.best b.key (List.mem_map_of_mem hb)
  rwa [count_key, hcount] at hbest

/-- What is returned is the first of the votes for the value that is elected, as they are sorted. -/
theorem getMajority_cases (hsort : IsSort compareSrv sort) (env : ConsensusEnv) (votes : List SrInfo) (current : Bool) :
    (getMajoritySrvFromVotes sort env votes current = none ∧ ∀ v, ¬ Elected env (srvList votes current) v) ∨
    ∃ r, getMajoritySrvFromVotes sort env votes current = some r ∧ r ∈ srvList votes current ∧
      Elected env (srvList votes current) r.value ∧
      ((sort (srvList votes current)).filter (·.key = r.key)).head? = some r := by
  have hsorted := hsort (srvList votes current)
  rw [getMajoritySrvFromVotes]
  by_cases hnil : srvList votes current = []
  · rw [hnil] at hsorted ⊢
    rw [List.perm_nil.mp hsorted.perm]
    refine .inl ⟨rfl, fun v hv => ?_⟩
    obtain ⟨a, ha, -⟩ := hv.1.voted
    cases ha
  · have hne : sort (srvList votes current) ≠ [] := fun h => hnil (List.perm_nil.mp (h ▸ hsorted.perm.symm))
    obtain ⟨r, n, hfound, hfreq⟩ :=
      smartlistGetMostFrequent_spec compareSrv_eq_zero hne (hsorted.keys compareSrv_compares)
    obtain ⟨hleads, hcount⟩ := leads_of_mostFrequent hfreq
    have hleads' := hleads.perm hsorted.perm
    rw [votesFor_perm hsorted.perm] at hcount
    rw [hfound]
    by_cases hkeep : shouldKeepSrv env n = true
    · refine .inr ⟨r, if_pos hkeep, hsorted.perm.mem_iff.mp hfreq.mem, ⟨hleads', ?_⟩, hfreq.first⟩
      rwa [← hcount]
    · refine .inl ⟨if_neg hkeep, fun v hv => hkeep ?_⟩
      rw [hcount, hleads'.unique hv.1]
      exact hv.2

/-! ## Orders of the votes -/

/-- The lines are the same for every order of the votes; `ok` are the sorts that may be used. -/
def LinesOrderFree (ok : (List SrSrv → List SrSrv) → Prop) (env : ConsensusEnv) (votes : List SrInfo) : Prop :=
  ∀ sort sort' votes', ok sort → ok sort' → votes'.Perm votes →
    srGetStringForConsensus sort env votes' = srGetStringForConsensus sort' env votes

/-- All votes for the previous value, or the current one, that is elected have the same number of reveals. -/
def NumbersAgree (env : ConsensusEnv) (votes : List SrInfo) : Prop :=
  ∀ current v, Elected env (srvList votes current) v → ∀ a ∈ srvList votes current, ∀ b ∈ srvList votes current,
    a.value = v → b.value = v → a.numReveals = b.numReveals

theorem srvList_perm (h : votes'.Perm votes) (current : Bool) : (srvList votes' current).Perm (srvList votes current) :=
  h.filterMap _

theorem getMajority_eq (hsort : IsSort compareSrv sort) (hsort' : IsSort compareSrv sort') (hperm : votes'.Perm votes)
    (hagree : NumbersAgree env votes) (current : Bool) :
    getMajoritySrvFromVotes sort env votes' current = getMajoritySrvFromVotes sort' env votes current := by
  have hlist := srvList_perm hperm current
  have helected : ∀ {v}, Elected env (srvList votes' current) v → Elected env (srvList votes current) v := by
    intro v hv
    refine ⟨hv.1.perm hlist, ?_⟩
    rw [← votesFor_perm hlist]
    exact hv.2
  rcases getMajority_cases hsort env votes' current with ⟨heq, hnone⟩ | ⟨r, heq, hmem, hr, -⟩ <;>
    rcases getMajority_cases hsort' env votes current with ⟨heq', hnone'⟩ | ⟨r', heq', hmem', hr', -⟩
  · rw [heq, heq']
  · refine absurd ⟨hr'.1.perm hlist.symm, ?_⟩ (hnone r'.value)
    rw [votesFor_perm hlist]
    exact hr'.2
  · exact absurd (helected hr) (hnone' r.value)
  · have hvalue := (helected hr).1.unique hr'.1
    have hnumber := hagree current r'.value hr' r (hlist.mem_iff.mp hmem) r' hmem' hvalue rfl
    have hsame : r = r' := by
      obtain ⟨n, value⟩ := r
      obtain ⟨n', value'⟩ := r'
      obtain rfl : n = n' := hnumber
      obtain rfl : value = value' := hvalue
      rfl
    rw [heq, heq', hsame]

/-! ## Lines -/

/-- A line up to its end. -/
def lineBody (key : Text) : Text := key ++ ' ' :: decimal srv.numReveals.toNat ++ ' ' :: srSrvEncode srv

theorem newline_notMem_lineBody {key : Text} (hkey : '\n' ∉ key) (srv : SrSrv) : '\n' ∉ lineBody srv key := by
  intro hmem
  simp only [lineBody, List.mem_append, List.mem_cons, srSrvEncode, encoded_single] at hmem
  rcases hmem with (hmem | hmem | hmem) | hmem | hmem
  · exact hkey hmem
  · exact absurd hmem (by decide)
  · exact absurd (isDigit_decimal _ hmem) (by decide)
  · exact absurd hmem (by decide)
  · exact newline_notMem_padded _ _ (List.mem_append.mpr hmem) rfl

/-- The first line of a text is determined. -/
theorem cut_line {body body' rest rest' : Text} (h : '\n' ∉ body) (h' : '\n' ∉ body')
    (heq : body ++ '\n' :: rest = body' ++ '\n' :: rest') : body = body' ∧ rest = rest' := by
  have hcut : ∀ {body rest : Text}, '\n' ∉ body → (body ++ '\n' :: rest).takeWhile (· ≠ '\n') = body := by
    intro body rest hnot
    refine takeWhile_run (fun c hc => decide_eq_true fun hnl => hnot (hnl ▸ hc)) ?_
    intro c hc
    obtain rfl := Option.some.inj hc
    decide
  have hbody : body = body' := by rw [← @hcut body rest h, heq, hcut h']
  subst hbody
  exact ⟨rfl, (List.cons.inj (List.append_cancel_left heq)).2⟩

theorem numReveals_of_lineBody {key : Text} (h : lineBody a key = lineBody b key) : a.numReveals = b.numReveals := by
  simp only [lineBody, List.append_assoc, List.cons_append] at h
  have htail := (List.cons.inj (List.append_cancel_left h)).2
  have hcut : ∀ srv : SrSrv, (decimal srv.numReveals.toNat ++ ' ' :: srSrvEncode srv).takeWhile Char.isDigit =
      decimal srv.numReveals.toNat := by
    intro srv
    refine takeWhile_run isDigit_decimal ?_
    intro c hc
    obtain rfl := Option.some.inj hc
    decide
  have hdecimal : decimal a.numReveals.toNat = decimal b.numReveals.toNat := by rw [← hcut a, htail, hcut]
  have hnumber := ofDigitChars_decimal a.numReveals.toNat
  rw [hdecimal, ofDigitChars_decimal] at hnumber
  exact UInt64.toNat_inj.mp hnumber.symm

theorem newline_notMem_key : '\n' ∉ previousSrvStr ∧ '\n' ∉ currentSrvStr := by decide

theorem srvToNsString_eq (key rest : Text) : srvToNsString srv key ++ rest = lineBody srv key ++ '\n' :: rest := by
  simp [srvToNsString, lineBody]

/-- The lines of some values. -/
def linesOf (p q : Option SrSrv) : Text :=
  (p.map (srvToNsString · previousSrvStr)).getD [] ++ (q.map (srvToNsString · currentSrvStr)).getD []

theorem linesOf_eq {p p' q q' : Option SrSrv} (h : getNsStrFromSrValues p q = getNsStrFromSrValues p' q') :
    linesOf p q = linesOf p' q' := by
  have hlines : ∀ p q : Option SrSrv, (getNsStrFromSrValues p q).getD [] = linesOf p q := by
    intro p q
    cases p <;> cases q <;> rfl
  rw [← hlines, h, hlines]

/-- The line of the previous value comes first. -/
theorem previous_of_lines {q q' : Option SrSrv} (h : linesOf (some a) q = linesOf (some b) q') :
    a.numReveals = b.numReveals ∧ linesOf none q = linesOf none q' := by
  simp only [linesOf, Option.map_some, Option.getD_some, srvToNsString_eq] at h
  obtain ⟨hbody, hrest⟩ := cut_line (newline_notMem_lineBody newline_notMem_key.1 a)
    (newline_notMem_lineBody newline_notMem_key.1 b) h
  exact ⟨numReveals_of_lineBody hbody, hrest⟩

/-- A line of a previous value is none of a current value. -/
theorem previous_ne_current (q : Option SrSrv) (a b : SrSrv) : linesOf (some a) q ≠ linesOf none (some b) := by
  intro h
  have hkey := congrArg (List.take 13) h
  simp only [linesOf, Option.map_some, Option.getD_some, Option.map_none, Option.getD_none, List.nil_append, srvToNsString,
    List.append_assoc] at hkey
  rw [List.take_append_of_le_length (by decide), List.take_append_of_le_length (by decide)] at hkey
  exact absurd hkey (by decide)

theorem current_alone (h : linesOf none (some a) = linesOf none (some b)) : a.numReveals = b.numReveals := by
  have hlines : srvToNsString a currentSrvStr ++ [] = srvToNsString b currentSrvStr ++ [] := by simpa [linesOf] using h
  rw [srvToNsString_eq, srvToNsString_eq] at hlines
  obtain ⟨hbody, -⟩ := cut_line (newline_notMem_lineBody newline_notMem_key.2 a)
    (newline_notMem_lineBody newline_notMem_key.2 b) hlines
  exact numReveals_of_lineBody hbody

theorem current_of_lines {p p' : Option SrSrv} (h : linesOf p (some a) = linesOf p' (some b)) :
    a.numReveals = b.numReveals := by
  cases p with
  | none =>
    cases p' with
    | none => exact current_alone h
    | some r => exact absurd h.symm (previous_ne_current _ _ _)
  | some r =>
    cases p' with
    | none => exact absurd h (previous_ne_current _ _ _)
    | some r' => exact current_alone (previous_of_lines h).2

/-! ## Every list of votes -/

/-- A sort that leaves equal values as they stand. -/
def stableSort (srvs : List SrSrv) : List SrSrv := srvs.insertionSort fun a b => compareSrv a b ≤ 0

theorem stableSort_isSort : IsSort compareSrv stableSort := insertionSort_isSort compareSrv_compares

/-- With a stable sort, the first vote for the value that is elected is the one that is printed. -/
theorem exists_votes_first (helected : Elected env (srvList votes current) v) (ha : a ∈ srvList votes current)
    (hvalue : a.value = v) :
    ∃ votes', votes'.Perm votes ∧ getMajoritySrvFromVotes stableSort env votes' current = some a := by
  obtain ⟨vote, hvote, hsrv⟩ := List.mem_filterMap.mp ha
  have hperm : (vote :: votes.erase vote).Perm votes := (List.perm_cons_erase hvote).symm
  have hlist := srvList_perm hperm current
  have hfirst : srvList (vote :: votes.erase vote) current = a :: srvList (votes.erase vote) current :=
    List.filterMap_cons_some hsrv
  refine ⟨_, hperm, ?_⟩
  rcases getMajority_cases stableSort_isSort env (vote :: votes.erase vote) current with ⟨-, hnone⟩ | ⟨r, heq, -, hr, hhead⟩
  · refine absurd ⟨helected.1.perm hlist.symm, ?_⟩ (hnone v)
    rw [votesFor_perm hlist]
    exact helected.2
  · have hkey : a.key = r.key := by
      rw [srv_key_eq_iff, hvalue]
      exact (helected.1.perm hlist.symm).unique hr.1
    rw [stableSort, insertionSort_stable compareSrv_compares, hfirst, List.filter_cons_of_pos (by simpa using hkey)] at hhead
    rw [heq, ← Option.some.inj hhead]

theorem numbersAgree_of_stable (henv : env.authDirSharedRandomness = true)
    (h : LinesOrderFree (· = stableSort) env votes) : NumbersAgree env votes := by
  intro current v helected a ha b hb hav hbv
  obtain ⟨votes1, hperm1, hone⟩ := exists_votes_first helected ha hav
  obtain ⟨votes2, hperm2, htwo⟩ := exists_votes_first helected hb hbv
  have hsame := (h _ _ votes1 rfl rfl hperm1).trans (h _ _ votes2 rfl rfl hperm2).symm
  simp only [srGetStringForConsensus, henv, not_true_eq_false, if_false] at hsame
  have hlines := linesOf_eq hsame
  cases current with
  | false =>
    rw [hone, htwo] at hlines
    exact (previous_of_lines hlines).1
  | true =>
    rw [hone, htwo] at hlines
    exact current_of_lines hlines

theorem lines_of_agree (h : env.authDirSharedRandomness = true → NumbersAgree env votes) :
    LinesOrderFree (IsSort compareSrv) env votes := by
  intro sort sort' votes' hsort hsort' hperm
  by_cases henv : env.authDirSharedRandomness = true
  · have hmajority := getMajority_eq hsort hsort' hperm (h henv)
    rw [srGetStringForConsensus, srGetStringForConsensus, hmajority, hmajority]
  · rw [srGetStringForConsensus, srGetStringForConsensus, if_pos henv, if_pos henv]

/-- The lines are the same for every order of the votes if and only if the votes for what is elected have the same
number of reveals, whatever the sort does with equal values. -/
theorem consensus_lines_order_free_iff (env : ConsensusEnv) (votes : List SrInfo) :
    (LinesOrderFree (IsSort compareSrv) env votes ↔ (env.authDirSharedRandomness = true → NumbersAgree env votes)) ∧
    (LinesOrderFree (· = stableSort) env votes ↔ (env.authDirSharedRandomness = true → NumbersAgree env votes)) := by
  have hstable : LinesOrderFree (IsSort compareSrv) env votes → LinesOrderFree (· = stableSort) env votes := by
    intro h sort sort' votes' hsort hsort' hperm
    subst hsort hsort'
    exact h _ _ votes' stableSort_isSort stableSort_isSort hperm
  refine ⟨⟨fun h henv => numbersAgree_of_stable henv (hstable h), lines_of_agree⟩, ⟨fun h henv => ?_, fun h => ?_⟩⟩
  · exact numbersAgree_of_stable henv h
  · exact hstable (lines_of_agree h)

/-- Two of three authorities vote for the same value, with different numbers of reveals. -/
theorem the_first_vote_gives_the_number :
    let vote (n : UInt64) : SrInfo := ⟨true, none, some ⟨n, zeroBytes 32⟩⟩
    let env : ConsensusEnv := ⟨true, 3, false, 2⟩
    [vote 5, vote 4].Perm [vote 4, vote 5] ∧
    srGetStringForConsensus stableSort env [vote 4, vote 5] =
      some "shared-rand-current-value 4 AAAAAAAAAAAAAAAAAAAAAAAAAAAAAAAAAAAAAAAAAAA=\n".toList ∧
    srGetStringForConsensus stableSort env [vote 5, vote 4] =
      some "shared-rand-current-value 5 AAAAAAAAAAAAAAAAAAAAAAAAAAAAAAAAAAAAAAAAAAA=\n".toList ∧
    srGetStringForConsensus stableSort env [vote 5, vote 4] ≠ srGetStringForConsensus stableSort env [vote 4, vote 5] := by
  refine ⟨List.Perm.swap _ _ _, ?_, ?_, ?_⟩
  · decide +kernel
  · decide +kernel
  · decide +kernel

end Badnet.SharedRandom

/-
  Badnet.Policies.AddrPolicy — exit policies and their redundant entries (`core/or/policies.c`).

  A policy is a list of entries; the first one that matches an address and a port decides.
  `exit_policy_remove_redundancies` deletes entries while it walks the list by index: its loops end, no index is out of
  range (`none`), and every known address and port is decided as before (`exitPolicyRemoveRedundancies_same`).
-/

import Mathlib.Data.List.InsertIdx
import Badnet.Lib.FirstMatch
import Badnet.Net.Address

namespace Badnet.Policies

open Lib Net

inductive AddrPolicyAction where
  | ADDR_POLICY_ACCEPT
  | ADDR_POLICY_REJECT
  deriving DecidableEq, Repr

structure AddrPolicy where
  policyType : AddrPolicyAction
  isPrivate : Bool
  maskbits : UInt8
  addr : TorAddr
  prtMin : UInt16
  prtMax : UInt16
  deriving DecidableEq, Repr

inductive AddrPolicyResult where
  | ADDR_POLICY_ACCEPTED
  | ADDR_POLICY_REJECTED
  | ADDR_POLICY_PROBABLY_ACCEPTED
  | ADDR_POLICY_PROBABLY_REJECTED
  deriving DecidableEq, Repr

open AddrPolicyAction AddrPolicyResult

/-! ## Comparison with a policy -/

variable (addr : TorAddr)

def addrMatches (e : AddrPolicy) : Bool :=
  torAddrCompareMasked addr e.addr e.maskbits .CMP_EXACT = 0

def compareKnownTorAddrToAddrPolicy (addr : TorAddr) (port : UInt16) : List AddrPolicy → AddrPolicyResult
  | [] => ADDR_POLICY_ACCEPTED
  | tmpe :: policy =>
    if addrMatches addr tmpe ∧ port ≥ tmpe.prtMin ∧ port ≤ tmpe.prtMax then
      if tmpe.policyType = ADDR_POLICY_ACCEPT then ADDR_POLICY_ACCEPTED else ADDR_POLICY_REJECTED
    else compareKnownTorAddrToAddrPolicy addr port policy

/-- The walk when the address or the port is not known: `mayMatch` and `matchesAll` are the tests of an entry. -/
def compareUnknown (mayMatch matchesAll : AddrPolicy → Bool) (maybeAccept maybeReject : Bool) :
    List AddrPolicy → AddrPolicyResult
  | [] => if maybeReject then ADDR_POLICY_PROBABLY_ACCEPTED else ADDR_POLICY_ACCEPTED
  | tmpe :: policy =>
    if mayMatch tmpe then
      if matchesAll tmpe then
        if tmpe.policyType = ADDR_POLICY_ACCEPT then
          if maybeReject then ADDR_POLICY_PROBABLY_ACCEPTED else ADDR_POLICY_ACCEPTED
        else if maybeAccept then ADDR_POLICY_PROBABLY_REJECTED
        else ADDR_POLICY_REJECTED
      else if tmpe.policyType = ADDR_POLICY_REJECT then compareUnknown mayMatch matchesAll maybeAccept true policy
      else compareUnknown mayMatch matchesAll true maybeReject policy
    else compareUnknown mayMatch matchesAll maybeAccept maybeReject policy

def compareKnownTorAddrToAddrPolicyNoport (policy : List AddrPolicy) : AddrPolicyResult :=
  compareUnknown (addrMatches addr) (fun e => e.prtMin ≤ 1 ∧ e.prtMax ≥ 65535) false false policy

variable (port : UInt16) (policy : List AddrPolicy)

def compareUnknownTorAddrToAddrPolicy : AddrPolicyResult :=
  compareUnknown (fun e => e.prtMin ≤ port ∧ port ≤ e.prtMax) (fun e => e.maskbits = 0) false false policy

def compareTorAddrToAddrPolicy (addr : Option TorAddr) (port : UInt16) (policy : Option (List AddrPolicy)) :
    AddrPolicyResult :=
  match policy with
  | none => ADDR_POLICY_ACCEPTED
  | some policy =>
    match addr.filter (!torAddrIsNull ·) with
    | none => if port = 0 then ADDR_POLICY_REJECTED else compareUnknownTorAddrToAddrPolicy port policy
    | some addr =>
      if port = 0 then compareKnownTorAddrToAddrPolicyNoport addr policy
      else compareKnownTorAddrToAddrPolicy addr port policy

/-! ## Redundant entries -/

def addrPolicyCovers (a b : AddrPolicy) : Bool :=
  if torAddrFamily a.addr ≠ torAddrFamily b.addr then false
  else if a.maskbits > b.maskbits then false
  else if torAddrCompareMasked a.addr b.addr a.maskbits .CMP_EXACT ≠ 0 then false
  else a.prtMin ≤ b.prtMin ∧ a.prtMax ≥ b.prtMax

def addrPolicyIntersects (a b : AddrPolicy) : Bool :=
  let minbits := if a.maskbits < b.maskbits then a.maskbits else b.maskbits
  if torAddrCompareMasked a.addr b.addr minbits .CMP_EXACT ≠ 0 then false
  else if a.prtMax < b.prtMin ∨ b.prtMax < a.prtMin then false
  else true

def smartlistDelKeeporder {α : Type} (sl : List α) (idx : Nat) : Option (List α) :=
  if idx < sl.length then some (sl.eraseIdx idx) else none

theorem smartlistDelKeeporder_eq_some {α : Type} {sl sl' : List α} {idx : Nat} :
    smartlistDelKeeporder sl idx = some sl' ↔ idx < sl.length ∧ sl.eraseIdx idx = sl' := by
  unfold smartlistDelKeeporder
  split
  next h => simp [h]
  next h => simp [h]

/-- Step one. After a deletion the index stays: it goes one down and then one up. -/
def killUnreachable (dest : List AddrPolicy) (i : Nat) (killV4 killV6 : Bool) : Option (List AddrPolicy) :=
  if i < dest.length then
    match dest[i]? with
    | none => none
    | some ap =>
      let family := torAddrFamily ap.addr
      if (family = .AF_INET ∧ killV4) ∨ (family = .AF_INET6 ∧ killV6) then
        match _h : smartlistDelKeeporder dest i with
        | none => none
        | some dest' => killUnreachable dest' i killV4 killV6
      else
        let all : Bool := ap.maskbits = 0 ∧ ap.prtMin ≤ 1 ∧ ap.prtMax ≥ 65535
        killUnreachable dest (i + 1) (killV4 || (all && family = .AF_INET)) (killV6 || (all && family = .AF_INET6))
  else some dest
termination_by dest.length - i
decreasing_by
  · obtain ⟨hi, rfl⟩ := smartlistDelKeeporder_eq_some.mp _h
    rw [List.length_eraseIdx_of_lt hi]
    omega
  · omega

/-- The inner loop of step two. -/
def removeCovered (ap : AddrPolicy) (dest : List AddrPolicy) (j : Nat) : Option (List AddrPolicy) :=
  if j < dest.length then
    match dest[j]? with
    | none => none
    | some tmp =>
      if addrPolicyCovers ap tmp then
        match _h : smartlistDelKeeporder dest j with
        | none => none
        | some dest' => removeCovered ap dest' j
      else removeCovered ap dest (j + 1)
  else some dest
termination_by dest.length - j
decreasing_by
  · obtain ⟨hj, rfl⟩ := smartlistDelKeeporder_eq_some.mp _h
    rw [List.length_eraseIdx_of_lt hj]
    omega
  · omega

theorem removeCovered_length {ap : AddrPolicy} {dest dest' : List AddrPolicy} {j : Nat}
    (h : removeCovered ap dest j = some dest') : dest'.length ≤ dest.length := by
  fun_induction removeCovered ap dest j with
  | case1 => cases h
  | case2 => cases h
  | case3 dest j hj tmp htmp hcov d hd ih =>
    obtain ⟨hj, rfl⟩ := smartlistDelKeeporder_eq_some.mp hd
    have hlen := ih h
    rw [List.length_eraseIdx_of_lt hj] at hlen
    omega
  | case4 dest j hj tmp htmp hcov ih => exact ih h
  | case5 => cases h; exact Nat.le_refl _

/-- Step two. -/
def removeLaterCovered (dest : List AddrPolicy) (i : Nat) : Option (List AddrPolicy) :=
  if i + 1 < dest.length then
    match dest[i]? with
    | none => none
    | some ap =>
      match _h : removeCovered ap dest (i + 1) with
      | none => none
      | some dest' => removeLaterCovered dest' (i + 1)
  else some dest
termination_by dest.length - i
decreasing_by
  have hlen := removeCovered_length _h
  omega

/-- The inner loop of step three: whether a later entry makes `ap` redundant. -/
def coveredLater (ap : AddrPolicy) (dest : List AddrPolicy) (j : Nat) : Option Bool :=
  if j < dest.length then
    match dest[j]? with
    | none => none
    | some tmp =>
      if ap.policyType ≠ tmp.policyType then
        if addrPolicyIntersects ap tmp then some false else coveredLater ap dest (j + 1)
      else if addrPolicyCovers tmp ap then some true
      else coveredLater ap dest (j + 1)
  else some false
termination_by dest.length - j

/-- Step three. -/
def removeCoveredLater (dest : List AddrPolicy) (i : Nat) : Option (List AddrPolicy) :=
  if i + 1 < dest.length then
    match dest[i]? with
    | none => none
    | some ap =>
      match coveredLater ap dest (i + 1) with
      | none => none
      | some true =>
        match _h : smartlistDelKeeporder dest i with
        | none => none
        | some dest' => removeCoveredLater dest' i
      | some false => removeCoveredLater dest (i + 1)
  else some dest
termination_by dest.length - i
decreasing_by
  · obtain ⟨hi, rfl⟩ := smartlistDelKeeporder_eq_some.mp _h
    rw [List.length_eraseIdx_of_lt hi]
    omega
  · omega

def exitPolicyRemoveRedundancies (dest : List AddrPolicy) : Option (List AddrPolicy) :=
  (killUnreachable dest 0 false false).bind fun dest =>
    (removeLaterCovered dest 0).bind fun dest => removeCoveredLater dest 0

/-! ## Meaning -/

/-- The entry decides the address and the port if no entry before it does. -/
def entryMatches (e : AddrPolicy) : Bool :=
  addrMatches addr e ∧ port ≥ e.prtMin ∧ port ≤ e.prtMax

theorem compareKnown_eq :
    compareKnownTorAddrToAddrPolicy addr port policy =
      if firstMatch (entryMatches addr port) AddrPolicy.policyType policy = some ADDR_POLICY_REJECT then
        ADDR_POLICY_REJECTED
      else ADDR_POLICY_ACCEPTED := by
  induction policy with
  | nil => rfl
  | cons e policy ih =>
    unfold compareKnownTorAddrToAddrPolicy
    split
    next h =>
      have hit : entryMatches addr port e = true := decide_eq_true h
      rcases htype : e.policyType with _ | _ <;> simp [firstMatch, hit, htype]
    next h =>
      have hit : entryMatches addr port e = false := decide_eq_false h
      rw [ih, firstMatch_cons_of_not_hit policy hit]

section
variable {addr : TorAddr} {port : UInt16} {a b : AddrPolicy}

theorem addrMatches_iff : addrMatches addr a = true ↔ MaskedEq a.maskbits.toNat addr a.addr := by
  rw [addrMatches, decide_eq_true_eq, torAddrCompareMasked_eq_zero]

theorem entryMatches_iff : entryMatches addr port a = true ↔
    MaskedEq a.maskbits.toNat addr a.addr ∧ a.prtMin ≤ port ∧ port ≤ a.prtMax := by
  rw [entryMatches, decide_eq_true_eq, addrMatches_iff]

/-- A range from 1 on to 65535 has every port. -/
theorem allPorts_cover (hport : port ≠ 0) (hmin : a.prtMin ≤ 1) (hmax : a.prtMax ≥ 65535) :
    a.prtMin ≤ port ∧ port ≤ a.prtMax := by
  have hpos : port.toNat ≠ 0 := fun h => hport (UInt16.toNat_inj.mp h)
  have hlo : a.prtMin.toNat ≤ 1 := UInt16.le_iff_toNat_le.mp hmin
  have hhi : 65535 ≤ a.prtMax.toNat := UInt16.le_iff_toNat_le.mp hmax
  have hlt := port.toNat_lt
  exact ⟨UInt16.le_iff_toNat_le.mpr (by omega), UInt16.le_iff_toNat_le.mpr (by omega)⟩

theorem compareTorAddr_known {policy : List AddrPolicy} (hport : port ≠ 0) (hnull : torAddrIsNull addr = false) :
    compareTorAddrToAddrPolicy (some addr) port (some policy) = compareKnownTorAddrToAddrPolicy addr port policy := by
  have hfilter : (some addr).filter (!torAddrIsNull ·) = some addr := by simp [hnull]
  simp only [compareTorAddrToAddrPolicy, hfilter, hport, if_false]

theorem addrPolicyCovers_matches (h : addrPolicyCovers a b = true) (hb : entryMatches addr port b = true) :
    entryMatches addr port a = true := by
  unfold addrPolicyCovers at h
  split at h
  · cases h
  split at h
  · cases h
  next hbits =>
    split at h
    · cases h
    next hmasked =>
      have hmasked := torAddrCompareMasked_eq_zero.mp (Classical.not_not.mp hmasked)
      have hbits : a.maskbits.toNat ≤ b.maskbits.toNat := UInt8.le_iff_toNat_le.mp (UInt8.not_lt.mp hbits)
      obtain ⟨hmin, hmax⟩ := of_decide_eq_true h
      obtain ⟨haddr, hlo, hhi⟩ := entryMatches_iff.mp hb
      refine entryMatches_iff.mpr ⟨?_, UInt16.le_trans hmin hlo, UInt16.le_trans hhi hmax⟩
      exact (haddr.mono hbits).trans hmasked.symm

theorem not_intersects_matches (h : addrPolicyIntersects a b = false) (ha : entryMatches addr port a = true) :
    entryMatches addr port b = false := by
  by_contra hb
  obtain ⟨haddr, hlo, hhi⟩ := entryMatches_iff.mp ha
  obtain ⟨haddr', hlo', hhi'⟩ := entryMatches_iff.mp (Bool.not_eq_false _ ▸ hb)
  have hmasked : ∀ minbits : UInt8, minbits ≤ a.maskbits → minbits ≤ b.maskbits →
      torAddrCompareMasked a.addr b.addr minbits .CMP_EXACT = 0 := by
    intro minbits hma hmb
    refine torAddrCompareMasked_eq_zero.mpr ?_
    exact (haddr.mono (UInt8.le_iff_toNat_le.mp hma)).symm.trans (haddr'.mono (UInt8.le_iff_toNat_le.mp hmb))
  unfold addrPolicyIntersects at h
  generalize hmin : (if a.maskbits < b.maskbits then a.maskbits else b.maskbits) = minbits at h
  have hbits : minbits ≤ a.maskbits ∧ minbits ≤ b.maskbits := by
    rw [← hmin]
    split
    next hlt => exact ⟨UInt8.le_refl _, UInt8.le_of_lt hlt⟩
    next hlt => exact ⟨UInt8.not_lt.mp hlt, UInt8.le_refl _⟩
  dsimp only at h
  split at h
  next hne => exact hne (hmasked minbits hbits.1 hbits.2)
  · split at h
    next hports =>
      rcases hports with hports | hports
      · exact UInt16.not_lt.mpr (UInt16.le_trans hlo' hhi) hports
      · exact UInt16.not_lt.mpr (UInt16.le_trans hlo hhi') hports
    · cases h

end

/-- The address and the port are decided in the same way. -/
def Same (l l' : List AddrPolicy) : Prop :=
  firstMatch (entryMatches addr port) AddrPolicy.policyType l' = firstMatch (entryMatches addr port) AddrPolicy.policyType l

theorem drop_eq_cons {α : Type} {l : List α} {i : Nat} {a : α} (h : l[i]? = some a) : l.drop i = a :: l.drop (i + 1) := by
  obtain ⟨hi, hget⟩ := List.getElem?_eq_some_iff.mp h
  rw [← hget, ← List.drop_eq_getElem_cons hi]

theorem eraseIdx_same {addr : TorAddr} {port : UInt16} {dest : List AddrPolicy} {i : Nat} {ap tmp : AddrPolicy}
    (hap : ap ∈ dest.take i) (htmp : dest[i]? = some tmp)
    (h : entryMatches addr port tmp = true → entryMatches addr port ap = true) : Same addr port dest (dest.eraseIdx i) := by
  have hdest : dest.take i ++ tmp :: dest.drop (i + 1) = dest := by
    rw [← drop_eq_cons htmp, List.take_append_drop]
  have hshadow : firstMatch (entryMatches addr port) AddrPolicy.policyType (dest.take i ++ tmp :: dest.drop (i + 1)) = _ :=
    firstMatch_shadowed hap h
  unfold Same
  rw [List.eraseIdx_eq_take_drop_succ, ← hshadow, hdest]

theorem mem_take_succ {α : Type} {l : List α} {i : Nat} {a : α} (h : l[i]? = some a) : a ∈ l.take (i + 1) := by
  rw [List.take_add_one, h]
  exact List.mem_append_right _ List.mem_cons_self

section
variable (addr : TorAddr) (port : UInt16) {ap : AddrPolicy} {dest : List AddrPolicy} {i : Nat}

theorem removeCovered_same {j : Nat} (hap : ap ∈ dest.take j) :
    ∃ dest', removeCovered ap dest j = some dest' ∧ Same addr port dest dest' := by
  fun_induction removeCovered ap dest j with
  | case1 dest j hj hnone => exact absurd hnone (by simp [hj])
  | case2 dest j hj tmp htmp hcov hdel => exact absurd hdel (by simp [smartlistDelKeeporder, hj])
  | case3 dest j hj tmp htmp hcov d hdel ih =>
    obtain ⟨-, rfl⟩ := smartlistDelKeeporder_eq_some.mp hdel
    obtain ⟨d', hd', hsame⟩ := ih (by rwa [List.take_eraseIdx_eq_take_of_le _ _ _ (Nat.le_refl j)])
    exact ⟨d', hd', hsame.trans (eraseIdx_same hap htmp (addrPolicyCovers_matches hcov))⟩
  | case4 dest j hj tmp htmp hcov ih => exact ih (List.take_subset_take_left dest (Nat.le_succ j) hap)
  | case5 dest j hj => exact ⟨dest, rfl, rfl⟩

theorem removeLaterCovered_same (dest : List AddrPolicy) (i : Nat) :
    ∃ dest', removeLaterCovered dest i = some dest' ∧ Same addr port dest dest' := by
  fun_induction removeLaterCovered dest i with
  | case1 dest i hi hnone => exact absurd hnone (by simp; omega)
  | case2 dest i hi ap hap hnone =>
    obtain ⟨d, hd, -⟩ := removeCovered_same addr port (mem_take_succ hap)
    rw [hnone] at hd
    cases hd
  | case3 dest i hi ap hap d hd ih =>
    obtain ⟨d', hd', hsame⟩ := removeCovered_same addr port (mem_take_succ hap)
    rw [hd] at hd'
    cases hd'
    obtain ⟨e, he, hsame'⟩ := ih
    exact ⟨e, he, hsame'.trans hsame⟩
  | case4 dest i hi => exact ⟨dest, rfl, rfl⟩

/-- An entry that makes all later ones of its family unreachable. -/
def catchesAll (family : SaFamily) (ap : AddrPolicy) : Prop :=
  torAddrFamily ap.addr = family ∧ ap.maskbits = 0 ∧ ap.prtMin ≤ 1 ∧ ap.prtMax ≥ 65535

theorem catchesAll_matches {tmp : AddrPolicy} (hport : port ≠ 0) (hap : catchesAll (torAddrFamily tmp.addr) ap)
    (h : entryMatches addr port tmp = true) : entryMatches addr port ap = true := by
  obtain ⟨hfamily, hbits, hmin, hmax⟩ := hap
  obtain ⟨haddr, -, -⟩ := entryMatches_iff.mp h
  refine entryMatches_iff.mpr ⟨⟨haddr.1.trans hfamily.symm, fun i hi => ?_⟩, allPorts_cover hport hmin hmax⟩
  rw [hbits] at hi
  cases hi

/-- A flag is set when an entry already passed catches everything of its family. -/
def Killed (dest : List AddrPolicy) (i : Nat) (family : SaFamily) (kill : Bool) : Prop :=
  kill = true → ∃ ap ∈ dest.take i, catchesAll family ap

theorem Killed.next {family : SaFamily} {kill : Bool} (h : Killed dest i family kill) (hap : dest[i]? = some ap) :
    Killed dest (i + 1) family
      (kill || (decide (ap.maskbits = 0 ∧ ap.prtMin ≤ 1 ∧ ap.prtMax ≥ 65535) && decide (torAddrFamily ap.addr = family))) := by
  intro hkill
  rw [Bool.or_eq_true, Bool.and_eq_true, decide_eq_true_eq, decide_eq_true_eq] at hkill
  rcases hkill with hkill | ⟨hall, hfamily⟩
  · obtain ⟨a, ha, hc⟩ := h hkill
    exact ⟨a, List.take_subset_take_left dest (Nat.le_succ i) ha, hc⟩
  · exact ⟨ap, mem_take_succ hap, hfamily, hall⟩

theorem killUnreachable_same (hport : port ≠ 0) {killV4 killV6 : Bool}
    (h4 : Killed dest i .AF_INET killV4) (h6 : Killed dest i .AF_INET6 killV6) :
    ∃ dest', killUnreachable dest i killV4 killV6 = some dest' ∧ Same addr port dest dest' := by
  fun_induction killUnreachable dest i killV4 killV6 with
  | case1 dest i killV4 killV6 hi hnone => exact absurd hnone (by simp [hi])
  | case2 dest i killV4 killV6 hi ap hap family hkill hdel => exact absurd hdel (by simp [smartlistDelKeeporder, hi])
  | case3 dest i killV4 killV6 hi ap hap family hkill d hdel ih =>
    obtain ⟨-, rfl⟩ := smartlistDelKeeporder_eq_some.mp hdel
    have htake := List.take_eraseIdx_eq_take_of_le dest i i (Nat.le_refl i)
    obtain ⟨d', hd', hsame⟩ := ih (by rwa [Killed, htake]) (by rwa [Killed, htake])
    have hcatch : ∃ a ∈ dest.take i, catchesAll family a := by
      rcases hkill with ⟨hf, hk⟩ | ⟨hf, hk⟩
      · rw [hf]; exact h4 hk
      · rw [hf]; exact h6 hk
    obtain ⟨a, ha, hc⟩ := hcatch
    exact ⟨d', hd', hsame.trans (eraseIdx_same ha hap (catchesAll_matches addr port hport hc))⟩
  | case4 dest i killV4 killV6 hi ap hap family hkill all ih => exact ih (h4.next hap) (h6.next hap)
  | case5 dest i killV4 killV6 hi => exact ⟨dest, rfl, rfl⟩

/-- A later entry of the same type covers `ap`, and none of the other type in between meets it. -/
def Absorbed (ap : AddrPolicy) (later : List AddrPolicy) : Prop :=
  ∃ mid tmp post, later = mid ++ tmp :: post ∧ tmp.policyType = ap.policyType ∧ addrPolicyCovers tmp ap = true ∧
    ∀ c ∈ mid, c.policyType = ap.policyType ∨ addrPolicyIntersects ap c = false

theorem Absorbed.cons {c : AddrPolicy} {later : List AddrPolicy} (h : Absorbed ap later)
    (hc : c.policyType = ap.policyType ∨ addrPolicyIntersects ap c = false) : Absorbed ap (c :: later) := by
  obtain ⟨mid, tmp, post, rfl, htype, hcov, hmid⟩ := h
  refine ⟨c :: mid, tmp, post, rfl, htype, hcov, fun d hd => ?_⟩
  rcases List.mem_cons.mp hd with rfl | hd
  · exact hc
  · exact hmid d hd

theorem coveredLater_spec (ap : AddrPolicy) (dest : List AddrPolicy) (j : Nat) :
    ∃ found, coveredLater ap dest j = some found ∧ (found = true → Absorbed ap (dest.drop j)) := by
  fun_induction coveredLater ap dest j with
  | case1 j hj hnone => exact absurd hnone (by simp [hj])
  | case2 j hj tmp htmp htype hint => exact ⟨false, rfl, nofun⟩
  | case3 j hj tmp htmp htype hint ih =>
    obtain ⟨found, hfound, habs⟩ := ih
    refine ⟨found, hfound, fun h => ?_⟩
    rw [drop_eq_cons htmp]
    exact (habs h).cons (.inr (Bool.not_eq_true _ ▸ hint))
  | case4 j hj tmp htmp htype hcov =>
    have htype := (Classical.not_not.mp htype).symm
    exact ⟨true, rfl, fun _ => ⟨[], tmp, dest.drop (j + 1), drop_eq_cons htmp, htype, hcov, by simp⟩⟩
  | case5 j hj tmp htmp htype hcov ih =>
    obtain ⟨found, hfound, habs⟩ := ih
    refine ⟨found, hfound, fun h => ?_⟩
    rw [drop_eq_cons htmp]
    exact (habs h).cons (.inl (Classical.not_not.mp htype).symm)
  | case6 j hj => exact ⟨false, rfl, nofun⟩

theorem absorbed_same (hap : dest[i]? = some ap)
    (h : Absorbed ap (dest.drop (i + 1))) : Same addr port dest (dest.eraseIdx i) := by
  obtain ⟨mid, tmp, post, hlater, htype, hcov, hmid⟩ := h
  have hdest : dest.take i ++ ap :: (mid ++ tmp :: post) = dest := by
    rw [← hlater, ← drop_eq_cons hap, List.take_append_drop]
  have habsorbed : firstMatch (entryMatches addr port) AddrPolicy.policyType (dest.take i ++ ap :: (mid ++ tmp :: post)) = _ :=
    firstMatch_absorbed (addrPolicyCovers_matches hcov) htype fun c hc ha hit => by
      rcases hmid c hc with hsame | hdisjoint
      · exact hsame
      · rw [not_intersects_matches hdisjoint ha] at hit
        cases hit
  unfold Same
  rw [List.eraseIdx_eq_take_drop_succ, hlater, ← habsorbed, hdest]

theorem removeCoveredLater_same (dest : List AddrPolicy) (i : Nat) :
    ∃ dest', removeCoveredLater dest i = some dest' ∧ Same addr port dest dest' := by
  fun_induction removeCoveredLater dest i with
  | case1 dest i hi hnone => exact absurd hnone (by simp; omega)
  | case2 dest i hi ap hap hnone =>
    obtain ⟨found, hfound, -⟩ := coveredLater_spec ap dest (i + 1)
    rw [hnone] at hfound
    cases hfound
  | case3 dest i hi ap hap hfound hdel => exact absurd hdel (by simp [smartlistDelKeeporder]; omega)
  | case4 dest i hi ap hap hfound d hdel ih =>
    obtain ⟨-, rfl⟩ := smartlistDelKeeporder_eq_some.mp hdel
    obtain ⟨found, hfound', habs⟩ := coveredLater_spec ap dest (i + 1)
    rw [hfound] at hfound'
    cases hfound'
    obtain ⟨d', hd', hsame⟩ := ih
    exact ⟨d', hd', hsame.trans (absorbed_same addr port hap (habs rfl))⟩
  | case5 dest i hi ap hap hfound ih => exact ih
  | case6 dest i hi => exact ⟨dest, rfl, rfl⟩

theorem redundancies_same (hport : port ≠ 0) (dest : List AddrPolicy) :
    ∃ dest', exitPolicyRemoveRedundancies dest = some dest' ∧ Same addr port dest dest' := by
  have hunset : ∀ family, Killed dest 0 family false := fun family h => by cases h
  obtain ⟨d1, hd1, hsame1⟩ := killUnreachable_same addr port hport (hunset _) (hunset _)
  obtain ⟨d2, hd2, hsame2⟩ := removeLaterCovered_same addr port d1 0
  obtain ⟨d3, hd3, hsame3⟩ := removeCoveredLater_same addr port d2 0
  refine ⟨d3, ?_, hsame3.trans (hsame2.trans hsame1)⟩
  rw [exitPolicyRemoveRedundancies, hd1, Option.bind_some, hd2, Option.bind_some, hd3]

end

/-- The three loops end with every index in range, and every known address and port is decided as before. -/
theorem exitPolicyRemoveRedundancies_same (dest : List AddrPolicy) :
    ∃ dest', exitPolicyRemoveRedundancies dest = some dest' ∧
      ∀ (addr : TorAddr) (port : UInt16), torAddrIsNull addr = false → port ≠ 0 →
        compareTorAddrToAddrPolicy (some addr) port (some dest') =
          compareTorAddrToAddrPolicy (some addr) port (some dest) := by
  obtain ⟨dest', hdest', -⟩ := redundancies_same .unspec 1 (by decide) dest
  refine ⟨dest', hdest', fun addr port hnull hport => ?_⟩
  obtain ⟨d, hd, hsame⟩ := redundancies_same addr port hport dest
  rw [hdest'] at hd
  cases hd
  rw [compareTorAddr_known hport hnull, compareTorAddr_known hport hnull, compareKnown_eq, compareKnown_eq, hsame]

/-- `accept 10.0.0.0/8:80` goes before `accept *4:*`, as nothing in between meets it. -/
theorem exitPolicyRemoveRedundancies_same_of_three :
    let dest : List AddrPolicy :=
      [⟨ADDR_POLICY_ACCEPT, false, 8, .inet 0x0a000000, 80, 80⟩, ⟨ADDR_POLICY_REJECT, false, 8, .inet 0x0b000000, 1, 65535⟩,
        ⟨ADDR_POLICY_ACCEPT, false, 0, .inet 0, 1, 65535⟩]
    exitPolicyRemoveRedundancies dest = some dest.tail ∧
      compareTorAddrToAddrPolicy (some (.inet 0x0a010203)) 80 (some dest.tail) =
        compareTorAddrToAddrPolicy (some (.inet 0x0a010203)) 80 (some dest) := by
  intro dest
  obtain ⟨dest', hdest', hsame⟩ := exitPolicyRemoveRedundancies_same dest
  have htail : exitPolicyRemoveRedundancies dest = some dest.tail := by decide +kernel
  rw [htail] at hdest'
  cases hdest'
  exact ⟨htail, hsame _ _ (by decide) (by decide)⟩

end Badnet.Policies

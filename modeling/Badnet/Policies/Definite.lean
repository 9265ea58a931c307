/-
  Badnet.Policies.Definite — what a definite verdict of an exit policy promises
  (`compare_unknown_tor_addr_to_addr_policy` of `core/or/policies.c`).

  A definite verdict is right as long as an entry that surely matches does match (`compareUnknown_sound`). Without an
  address, a prefix of length 0 counts as one, though it matches the addresses of its own family only: the verdict holds
  for every address exactly when the entries of the other family decide them in the same way (`unknown_verdict_iff`).
-/

import Badnet.Policies.AddrPolicy

namespace Badnet.Policies

open Lib Net AddrPolicyAction AddrPolicyResult

/-! ## Definite verdicts -/

def verdictOf : AddrPolicyAction → AddrPolicyResult
  | ADDR_POLICY_ACCEPT => ADDR_POLICY_ACCEPTED
  | ADDR_POLICY_REJECT => ADDR_POLICY_REJECTED

theorem verdictOf_of_definite {verdict : AddrPolicyResult}
    (h : verdict = ADDR_POLICY_ACCEPTED ∨ verdict = ADDR_POLICY_REJECTED) : ∃ t, verdict = verdictOf t := by
  rcases h with rfl | rfl
  · exact ⟨ADDR_POLICY_ACCEPT, rfl⟩
  · exact ⟨ADDR_POLICY_REJECT, rfl⟩

theorem compareKnown_iff {addr : TorAddr} {port : UInt16} {policy : List AddrPolicy} {t : AddrPolicyAction} :
    compareKnownTorAddrToAddrPolicy addr port policy = verdictOf t ↔
      (∀ u, firstMatch (entryMatches addr port) AddrPolicy.policyType policy = some u → u = t) ∧
        (t = ADDR_POLICY_REJECT → ∃ e ∈ policy, entryMatches addr port e = true) := by
  rw [compareKnown_eq]
  cases hmatch : firstMatch (entryMatches addr port) AddrPolicy.policyType policy with
  | none =>
    have hno : ¬ ∃ e ∈ policy, entryMatches addr port e = true := by
      simpa [firstMatch] using hmatch
    cases t <;> simp [verdictOf, hno]
  | some u =>
    obtain ⟨e, hfind, -⟩ := Option.map_eq_some_iff.mp hmatch
    have hsome : ∃ e ∈ policy, entryMatches addr port e = true :=
      ⟨e, List.mem_of_find?_eq_some hfind, List.find?_some hfind⟩
    cases t <;> cases u <;> simp [verdictOf, hsome]

/-- The entries that may match say `t`, up to one that surely does or to the end, where `t` is the default. -/
def Definite (mayMatch matchesAll : AddrPolicy → Bool) (t : AddrPolicyAction) : List AddrPolicy → Prop
  | [] => t = ADDR_POLICY_ACCEPT
  | e :: policy =>
    if mayMatch e then e.policyType = t ∧ (matchesAll e = true ∨ Definite mayMatch matchesAll t policy)
    else Definite mayMatch matchesAll t policy

section
variable {mayMatch matchesAll : AddrPolicy → Bool} {t : AddrPolicyAction} {policy : List AddrPolicy}

theorem compareUnknown_flags (maybeAccept maybeReject : Bool) :
    compareUnknown mayMatch matchesAll maybeAccept maybeReject policy = verdictOf t ↔
      (t = ADDR_POLICY_ACCEPT → maybeReject = false) ∧ (t = ADDR_POLICY_REJECT → maybeAccept = false) ∧
        Definite mayMatch matchesAll t policy := by
  induction policy generalizing maybeAccept maybeReject with
  | nil => cases t <;> cases maybeReject <;> simp [compareUnknown, Definite, verdictOf]
  | cons e policy ih =>
    by_cases hmay : mayMatch e = true
    · by_cases hall : matchesAll e = true
      · cases t <;> cases htype : e.policyType <;> cases maybeAccept <;> cases maybeReject <;>
          simp [compareUnknown, Definite, verdictOf, hmay, hall, htype]
      · cases t <;> cases htype : e.policyType <;> simp [compareUnknown, Definite, hmay, hall, htype, ih]
    · simp [compareUnknown, Definite, hmay, ih]

theorem compareUnknown_eq_verdict_iff :
    compareUnknown mayMatch matchesAll false false policy = verdictOf t ↔ Definite mayMatch matchesAll t policy := by
  simp [compareUnknown_flags]

/-- A definite verdict is the one of every known address and port whose entries the walk has seen. -/
theorem compareUnknown_sound {addr : TorAddr} {port : UInt16}
    (hmay : ∀ e ∈ policy, entryMatches addr port e = true → mayMatch e = true)
    (hall : ∀ e ∈ policy, mayMatch e = true → matchesAll e = true → entryMatches addr port e = true)
    (h : compareUnknown mayMatch matchesAll false false policy = verdictOf t) :
    compareKnownTorAddrToAddrPolicy addr port policy = verdictOf t := by
  have hdefinite := compareUnknown_eq_verdict_iff.mp h
  clear h
  induction policy with
  | nil => rw [show t = ADDR_POLICY_ACCEPT from hdefinite]; rfl
  | cons e policy ih =>
    have ih := ih (fun d hd => hmay d (List.mem_cons_of_mem e hd)) (fun d hd => hall d (List.mem_cons_of_mem e hd))
    by_cases hit : entryMatches addr port e = true
    · obtain ⟨htype, -⟩ : e.policyType = t ∧ _ := by
        simpa [Definite, hmay e List.mem_cons_self hit] using hdefinite
      rw [compareKnown_eq]
      cases t <;> simp [firstMatch, hit, htype, verdictOf]
    · have hrest : Definite mayMatch matchesAll t policy := by
        by_cases he : mayMatch e = true
        · have hsure : matchesAll e ≠ true := fun hsure => hit (hall e List.mem_cons_self he hsure)
          rw [Definite, if_pos he] at hdefinite
          exact hdefinite.2.resolve_left hsure
        · rwa [Definite, if_neg he] at hdefinite
      have htail := ih hrest
      rw [compareKnown_eq] at htail ⊢
      rwa [firstMatch_cons_of_not_hit policy (Bool.not_eq_true _ ▸ hit)]

/-- Up to the first entry that surely matches only the verdicts count. -/
theorem definite_append_iff {pre rest : List AddrPolicy} (hpre : ∀ e ∈ pre, mayMatch e = true → matchesAll e = false) :
    Definite mayMatch matchesAll t (pre ++ rest) ↔
      (∀ e ∈ pre, mayMatch e = true → e.policyType = t) ∧ Definite mayMatch matchesAll t rest := by
  induction pre with
  | nil => simp
  | cons e pre ih =>
    have ih := ih fun d hd => hpre d (List.mem_cons_of_mem e hd)
    rw [List.cons_append, Definite, List.forall_mem_cons]
    by_cases hmay : mayMatch e = true
    · simp [hmay, hpre e List.mem_cons_self hmay, ih, and_assoc]
    · simp [hmay, ih]

/-- Two policies one after the other reject where the first one does, or where all that may match in it rejects and the
second one does. -/
theorem definite_append_reject {pre rest : List AddrPolicy} :
    Definite mayMatch matchesAll ADDR_POLICY_REJECT (pre ++ rest) ↔ Definite mayMatch matchesAll ADDR_POLICY_REJECT pre ∨
      (∀ e ∈ pre, mayMatch e = true → e.policyType = ADDR_POLICY_REJECT) ∧
        Definite mayMatch matchesAll ADDR_POLICY_REJECT rest := by
  induction pre with
  | nil => simp [Definite]
  | cons e pre ih =>
    rw [List.cons_append, Definite, Definite, List.forall_mem_cons]
    by_cases hmay : mayMatch e = true
    · by_cases htype : e.policyType = ADDR_POLICY_REJECT
      · simp [hmay, htype, ih, or_assoc]
      · simp [hmay, htype]
    · simp [hmay, ih]

end

/-! ## Without an address -/

def coversPort (port : UInt16) (e : AddrPolicy) : Bool := e.prtMin ≤ port ∧ port ≤ e.prtMax

theorem entryMatches_eq (a : TorAddr) (port : UInt16) (e : AddrPolicy) :
    entryMatches a port e = (addrMatches a e && coversPort port e) := by
  simp [entryMatches, coversPort]

variable (t : AddrPolicyAction)

/-- Entries of `pre` that say `t` match every address that `c` does. -/
def Shadowed (port : UInt16) (pre : List AddrPolicy) (c : AddrPolicy) : Prop :=
  ∀ a, torAddrIsNull a = false → addrMatches a c = true →
    ∃ e ∈ pre, coversPort port e = true ∧ e.policyType = t ∧ addrMatches a e = true

/-- The entries of the family say `t`: those that do not are shadowed, and if `t` is not the default each address has
    its entry. -/
def FamilySays (port : UInt16) (policy : List AddrPolicy) (family : SaFamily) : Prop :=
  (∀ pre c post, policy = pre ++ c :: post → torAddrFamily c.addr = family → coversPort port c = true →
    c.policyType ≠ t → Shadowed t port pre c) ∧
  (t = ADDR_POLICY_REJECT → ∀ a, torAddrFamily a = family → torAddrIsNull a = false →
    ∃ e ∈ policy, coversPort port e = true ∧ addrMatches a e = true)

section
variable {t : AddrPolicyAction} {port : UInt16} {policy : List AddrPolicy} {a : TorAddr}

theorem FamilySays.compareKnown {family : SaFamily} (h : FamilySays t port policy family) (hfamily : torAddrFamily a = family)
    (ha : torAddrIsNull a = false) : compareKnownTorAddrToAddrPolicy a port policy = verdictOf t := by
  refine compareKnown_iff.mpr ⟨firstMatch_only_iff.mpr fun pre c post hpolicy hit hc => ?_, fun ht => ?_⟩
  · rw [entryMatches_eq, Bool.and_eq_true] at hit
    obtain ⟨haddr, hport⟩ := hit
    have hown : torAddrFamily c.addr = family := (addrMatches_iff.mp haddr).1.symm.trans hfamily
    obtain ⟨e, he, hcovers, htype, hmatch⟩ := h.1 pre c post hpolicy hown hport hc a ha haddr
    exact ⟨e, he, by rw [entryMatches_eq, hcovers, hmatch]; rfl, htype⟩
  · obtain ⟨e, he, hcovers, hmatch⟩ := h.2 ht a hfamily ha
    exact ⟨e, he, by rw [entryMatches_eq, hcovers, hmatch]; rfl⟩

theorem familySays_of_all {family : SaFamily}
    (h : ∀ a, torAddrIsNull a = false → compareKnownTorAddrToAddrPolicy a port policy = verdictOf t) :
    FamilySays t port policy family := by
  refine ⟨fun pre c post hpolicy _ hport hc a ha haddr => ?_, fun ht a _ ha => ?_⟩
  · have honly := firstMatch_only_iff.mp (compareKnown_iff.mp (h a ha)).1
    obtain ⟨e, he, hit, htype⟩ := honly pre c post hpolicy (by rw [entryMatches_eq, haddr, hport]; rfl) hc
    rw [entryMatches_eq, Bool.and_eq_true] at hit
    exact ⟨e, he, hit.2, htype, hit.1⟩
  · obtain ⟨e, he, hit⟩ := (compareKnown_iff.mp (h a ha)).2 ht
    rw [entryMatches_eq, Bool.and_eq_true] at hit
    exact ⟨e, he, hit.2, hit.1⟩

theorem compareTorAddr_unknown (hport : port ≠ 0) : compareTorAddrToAddrPolicy none port (some policy) =
    compareUnknown (coversPort port) (fun e => e.maskbits = 0) false false policy := by
  simp only [compareTorAddrToAddrPolicy, Option.filter_none, hport, if_false]
  rfl

/-- Where the walk stops at an entry of the address's own family its verdict is right. -/
theorem compareKnown_of_own_family {pre post : List AddrPolicy} {z : AddrPolicy} (hz : coversPort port z = true)
    (hbits : z.maskbits = 0) (hpre : ∀ e ∈ pre, coversPort port e = true → e.policyType = z.policyType)
    (hfamily : torAddrFamily a = torAddrFamily z.addr) :
    compareKnownTorAddrToAddrPolicy a port (pre ++ z :: post) = verdictOf z.policyType := by
  have haddr : addrMatches a z = true :=
    addrMatches_iff.mpr ⟨hfamily, fun i hi => absurd hi (by rw [hbits]; exact Nat.not_lt_zero i)⟩
  have hit : entryMatches a port z = true := by rw [entryMatches_eq, haddr, hz]; rfl
  have hfirst : firstMatch (entryMatches a port) AddrPolicy.policyType (pre ++ z :: post) = some z.policyType := by
    refine firstMatch_up_to hit rfl fun c hc hitc => ?_
    rw [entryMatches_eq, Bool.and_eq_true] at hitc
    exact hpre c hc hitc.2
  refine compareKnown_iff.mpr ⟨fun u hu => ?_, fun _ => ⟨z, by simp, hit⟩⟩
  rw [hfirst] at hu
  exact (Option.some.inj hu).symm

/-- `z` is where the walk without an address stops. -/
structure StopsAt (port : UInt16) (policy pre : List AddrPolicy) (z : AddrPolicy) : Prop where
  split : ∃ post, policy = pre ++ z :: post
  covers : coversPort port z = true
  bits : z.maskbits = 0
  first : ∀ e ∈ pre, coversPort port e = true → e.maskbits ≠ 0

theorem StopsAt.definite_iff {pre : List AddrPolicy} {z : AddrPolicy} (h : StopsAt port policy pre z) :
    Definite (coversPort port) (fun e => e.maskbits = 0) t policy ↔
      (∀ e ∈ pre, coversPort port e = true → e.policyType = t) ∧ z.policyType = t := by
  obtain ⟨⟨post, rfl⟩, hz, hbits, hfirst⟩ := h
  rw [definite_append_iff fun e he hcovers => decide_eq_false (hfirst e he hcovers)]
  simp [Definite, hz, hbits]

theorem stopsAt_or_not (port : UInt16) (policy : List AddrPolicy) :
    (∃ pre z, StopsAt port policy pre z) ∨ ∀ e ∈ policy, coversPort port e = true → e.maskbits ≠ 0 := by
  cases hfind : policy.find? fun e => coversPort port e && decide (e.maskbits = 0) with
  | none =>
    refine .inr fun e he hcovers hbits => ?_
    have hno := List.find?_eq_none.mp hfind e he
    simp [hcovers, hbits] at hno
  | some z =>
    obtain ⟨hz, pre, post, hpolicy, hpre⟩ := List.find?_eq_some_iff_append.mp hfind
    rw [Bool.and_eq_true, decide_eq_true_eq] at hz
    refine .inl ⟨pre, z, ⟨post, hpolicy⟩, hz.1, hz.2, fun e he hcovers hbits => ?_⟩
    have hno := hpre e he
    simp [hcovers, hbits] at hno

end

/-- Every entry that covers the port says ACCEPT when none of them has length 0 and the verdict is definite. -/
theorem compareKnown_of_not_stopped {t : AddrPolicyAction} {port : UInt16} {policy : List AddrPolicy} {a : TorAddr}
    (h : ∀ e ∈ policy, coversPort port e = true → e.maskbits ≠ 0)
    (hdefinite : Definite (coversPort port) (fun e => e.maskbits = 0) t policy) :
    compareKnownTorAddrToAddrPolicy a port policy = verdictOf t := by
  have hall : Definite (coversPort port) (fun e => e.maskbits = 0) t (policy ++ []) := by rwa [List.append_nil]
  obtain ⟨hsay, haccept⟩ := (definite_append_iff fun e he hcovers => decide_eq_false (h e he hcovers)).mp hall
  refine compareKnown_iff.mpr ⟨fun u hu => ?_, fun ht => ?_⟩
  · obtain ⟨e, hfind, rfl⟩ := Option.map_eq_some_iff.mp hu
    have hit := List.find?_some hfind
    rw [entryMatches_eq, Bool.and_eq_true] at hit
    exact hsay e (List.mem_of_find?_eq_some hfind) hit.2
  · rw [show t = ADDR_POLICY_ACCEPT from haccept] at ht
    cases ht

/-- A definite verdict without an address holds for every address exactly when, at the entry of length 0 where the
walk stops, the entries of the other family say the same. -/
theorem unknown_verdict_iff (policy : List AddrPolicy) {port : UInt16} (hport : port ≠ 0) :
    (∀ verdict, verdict = ADDR_POLICY_ACCEPTED ∨ verdict = ADDR_POLICY_REJECTED →
        compareTorAddrToAddrPolicy none port (some policy) = verdict →
        ∀ a, torAddrIsNull a = false → compareTorAddrToAddrPolicy (some a) port (some policy) = verdict) ↔
      ∀ pre z, StopsAt port policy pre z →
        (∃ e ∈ pre, coversPort port e = true ∧ e.policyType ≠ z.policyType) ∨
          ∀ family, family ≠ .AF_UNSPEC → family ≠ torAddrFamily z.addr → FamilySays z.policyType port policy family := by
  constructor
  · intro h pre z hz
    by_cases hcontrary : ∃ e ∈ pre, coversPort port e = true ∧ e.policyType ≠ z.policyType
    · exact .inl hcontrary
    · refine .inr fun family _ _ => familySays_of_all fun a ha => ?_
      have hsay : ∀ e ∈ pre, coversPort port e = true → e.policyType = z.policyType := fun e he hcovers =>
        Classical.not_not.mp fun hne => hcontrary ⟨e, he, hcovers, hne⟩
      have hunknown := compareUnknown_eq_verdict_iff.mpr (hz.definite_iff.mpr ⟨hsay, rfl⟩)
      rw [← compareTorAddr_known hport ha]
      refine h _ ?_ (compareTorAddr_unknown hport ▸ hunknown) a ha
      cases z.policyType with
      | ADDR_POLICY_ACCEPT => exact .inl rfl
      | ADDR_POLICY_REJECT => exact .inr rfl
  · intro h verdict hverdict hunknown a ha
    obtain ⟨t, rfl⟩ := verdictOf_of_definite hverdict
    rw [compareTorAddr_unknown hport] at hunknown
    rw [compareTorAddr_known hport ha]
    have hdefinite := compareUnknown_eq_verdict_iff.mp hunknown
    rcases stopsAt_or_not port policy with ⟨pre, z, hz⟩ | hnone
    · obtain ⟨hsay, rfl⟩ := hz.definite_iff.mp hdefinite
      by_cases hfamily : torAddrFamily a = torAddrFamily z.addr
      · obtain ⟨post, rfl⟩ := hz.split
        exact compareKnown_of_own_family hz.covers hz.bits hsay hfamily
      · rcases h pre z hz with ⟨e, he, hcovers, hne⟩ | hother
        · exact absurd (hsay e he hcovers) hne
        · have hknown : torAddrFamily a ≠ .AF_UNSPEC := by
            cases a with
            | unspec => cases ha
            | inet x => simp [torAddrFamily]
            | inet6 x => simp [torAddrFamily]
          exact (hother _ hknown hfamily).compareKnown rfl ha
    · exact compareKnown_of_not_stopped hnone hdefinite

def everything4 : AddrPolicy := ⟨t, false, 0, .inet 0, 1, 65535⟩

def everything6 : AddrPolicy := ⟨t, false, 0, .inet6 (Vector.replicate 16 0), 1, 65535⟩

/-- `reject *:*` stands for an entry of each family. -/
theorem unknown_verdict_of_reject_star :
    let policy := [everything4 ADDR_POLICY_REJECT, everything6 ADDR_POLICY_REJECT]
    compareTorAddrToAddrPolicy none 80 (some policy) = ADDR_POLICY_REJECTED ∧
      ∀ a, torAddrIsNull a = false → compareTorAddrToAddrPolicy (some a) 80 (some policy) = ADDR_POLICY_REJECTED := by
  intro policy
  have hunknown : compareTorAddrToAddrPolicy none 80 (some policy) = ADDR_POLICY_REJECTED := by decide +kernel
  have hreject : ∀ e ∈ policy, e.policyType = ADDR_POLICY_REJECT := by decide
  refine ⟨hunknown, (unknown_verdict_iff policy (by decide)).mpr ?_ _ (.inr rfl) hunknown⟩
  intro pre z hz
  obtain ⟨post, hpolicy⟩ := hz.split
  have hmem : ∀ c ∈ pre ++ z :: post, c.policyType = ADDR_POLICY_REJECT := hpolicy ▸ hreject
  refine .inr fun family hknown _ => ⟨fun pre' c post' h _ _ hc => ?_, fun _ a hfamily _ => ?_⟩
  · have hcmem : c ∈ policy := by rw [h]; simp
    exact absurd ((hreject c hcmem).trans (hmem z (by simp)).symm) hc
  · have hlength : ∀ e : AddrPolicy, e.maskbits = 0 → torAddrFamily e.addr = family → addrMatches a e = true := by
      intro e hbits hown
      exact addrMatches_iff.mpr ⟨hfamily.trans hown.symm, fun i hi => by rw [hbits] at hi; cases hi⟩
    cases family with
    | AF_UNSPEC => exact absurd rfl hknown
    | AF_INET => exact ⟨everything4 ADDR_POLICY_REJECT, by simp [policy], by decide, hlength _ rfl rfl⟩
    | AF_INET6 => exact ⟨everything6 ADDR_POLICY_REJECT, by simp [policy], by decide, hlength _ rfl rfl⟩

/-- What `accept *:*` becomes on a relay that is no exit for IPv6. -/
theorem rejecting_all_of_ipv6_rejects_ipv4 :
    let policy := [everything6 ADDR_POLICY_REJECT, everything4 ADDR_POLICY_ACCEPT]
    compareTorAddrToAddrPolicy none 80 (some policy) = ADDR_POLICY_REJECTED ∧
      torAddrIsNull (.inet 0x01020304) = false ∧
      compareTorAddrToAddrPolicy (some (.inet 0x01020304)) 80 (some policy) = ADDR_POLICY_ACCEPTED := by
  decide +kernel

end Badnet.Policies

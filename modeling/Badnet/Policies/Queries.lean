/-
  Badnet.Policies.Queries — questions about whole exit policies (`policy_is_reject_star`,
  `exit_policy_is_general_exit_helper` and the comparison without a port of `core/or/policies.c`).

  Each is an approximation of the first entry that matches; what they answer holds for every address and port that the
  question is about (`exit_queries_sound`), and the table of the /8 networks is never read out of range
  (`exitPolicyIsGeneralExitHelper_returns`). `none` is an assertion that fails or an index out of range.
-/

import Badnet.Policies.Definite

namespace Badnet.Policies

open Lib Net AddrPolicyAction AddrPolicyResult

/-! ## Rejecting everything -/

def rejectStarLoop (family : SaFamily) (defaultReject : Bool) : List AddrPolicy → Bool
  | [] => defaultReject
  | p :: policy =>
    if p.policyType = ADDR_POLICY_ACCEPT ∧ (torAddrFamily p.addr = family ∨ torAddrFamily p.addr = .AF_UNSPEC) then false
    else if p.policyType = ADDR_POLICY_REJECT ∧ p.prtMin ≤ 1 ∧ p.prtMax = 65535 ∧ p.maskbits = 0 ∧
        (torAddrFamily p.addr = family ∨ torAddrFamily p.addr = .AF_UNSPEC) then true
    else rejectStarLoop family defaultReject policy

def policyIsRejectStar (policy : Option (List AddrPolicy)) (family : SaFamily) (defaultReject : Bool) : Bool :=
  match policy with
  | none => defaultReject
  | some policy => rejectStarLoop family defaultReject policy

/-! ## General exits -/

def UINT32_MAX : UInt32 := 0xffffffff

def maskOf (maskbits : UInt8) : UInt32 := if maskbits ≠ 0 then UINT32_MAX <<< (32 - maskbits.toUInt32) else 0

variable (dirAllowPrivateAddresses : Bool)

/-- The first address of a /8 network is local or not routable. -/
def subnetSkipped (i : Nat) : Bool :=
  torAddrIsInternal (.inet (UInt32.ofNat i <<< 24)) false && !dirAllowPrivateAddresses

/-- The loop over the networks from `i` to `last`, and whether it returns 1. -/
def touchSubnets (dirAllowPrivateAddresses : Bool) (p : AddrPolicy) (last i : Nat) (subnetStatus : List Bool) :
    Option (Bool × List Bool) :=
  if i ≤ last then
    match subnetStatus[i]? with
    | none => none
    | some rejected =>
      if rejected then touchSubnets dirAllowPrivateAddresses p last (i + 1) subnetStatus
      else if subnetSkipped dirAllowPrivateAddresses i then
        touchSubnets dirAllowPrivateAddresses p last (i + 1) subnetStatus
      else if p.policyType = ADDR_POLICY_ACCEPT then
        if p.maskbits > 8 then touchSubnets dirAllowPrivateAddresses p last (i + 1) subnetStatus
        else some (true, subnetStatus)
      else touchSubnets dirAllowPrivateAddresses p last (i + 1) (subnetStatus.set i true)
  else some (false, subnetStatus)
termination_by last + 1 - i

def firstSubnet (mask ip : UInt32) : Nat := ((mask &&& ip) >>> 24).toNat

def lastSubnet (mask ip : UInt32) : Nat := (~~~((mask &&& ip) ^^^ mask) >>> 24).toNat

def generalExitLoop (dirAllowPrivateAddresses : Bool) (port : Int) : List AddrPolicy → List Bool → Option Bool
  | [], _ => some false
  | p :: policy, subnetStatus =>
    match p.addr with
    | .inet ip =>
      if (p.prtMin.toNat : Int) > port ∨ (p.prtMax.toNat : Int) < port then
        generalExitLoop dirAllowPrivateAddresses port policy subnetStatus
      else if p.maskbits ≤ 32 then
        let mask := maskOf p.maskbits
        match touchSubnets dirAllowPrivateAddresses p (lastSubnet mask ip) (firstSubnet mask ip) subnetStatus with
        | none => none
        | some (true, _) => some true
        | some (false, subnetStatus) => generalExitLoop dirAllowPrivateAddresses port policy subnetStatus
      else none
    | _ => generalExitLoop dirAllowPrivateAddresses port policy subnetStatus

def exitPolicyIsGeneralExitHelper (policy : List AddrPolicy) (port : Int) : Option Bool :=
  generalExitLoop dirAllowPrivateAddresses port policy (List.replicate 256 false)

/-! ## The networks of a prefix -/

section
variable {m : UInt8} {x ip : UInt32}

theorem maskOf_testBit (hm : m ≤ 32) (j : Nat) : (maskOf m).toNat.testBit j = decide (32 - m.toNat ≤ j ∧ j < 32) := by
  have hle : m.toNat ≤ 32 := UInt8.le_iff_toNat_le.mp hm
  unfold maskOf
  by_cases hzero : m = 0
  · subst hzero
    simp
  · have hpos : m.toNat ≠ 0 := fun h => hzero (UInt8.toNat_inj.mp h)
    have hshift : (32 - m.toUInt32).toNat = 32 - m.toNat := by
      rw [UInt32.toNat_sub_of_le _ _ (UInt32.le_iff_toNat_le.mpr (by simpa using hle)), UInt8.toNat_toUInt32]
      rfl
    rw [if_pos hzero, UInt32.toNat_shiftLeft, hshift, Nat.mod_eq_of_lt (show 32 - m.toNat < 32 by omega),
      show UINT32_MAX.toNat = 2 ^ 32 - 1 from rfl, Nat.testBit_mod_two_pow, Nat.testBit_shiftLeft,
      Nat.testBit_two_pow_sub_one]
    by_cases hj : j < 32 <;> by_cases hk : 32 - m.toNat ≤ j <;> simp [hj, hk]
    omega

/-- Shifting the last `k` bits out and back. -/
theorem shift_back (x k : Nat) : x >>> k <<< k = x / 2 ^ k * 2 ^ k := by
  rw [Nat.shiftRight_eq_div_pow, Nat.shiftLeft_eq]

theorem prefix_toNat (hm : m ≤ 32) :
    (maskOf m &&& ip).toNat = ip.toNat / 2 ^ (32 - m.toNat) * 2 ^ (32 - m.toNat) := by
  rw [← shift_back, UInt32.toNat_and]
  refine Nat.eq_of_testBit_eq fun j => ?_
  rw [Nat.testBit_and, maskOf_testBit hm, Nat.testBit_shiftLeft, Nat.testBit_shiftRight]
  by_cases hk : 32 - m.toNat ≤ j
  · by_cases hj : j < 32
    · simp [hk, hj]
    · have hbit : ip.toNat.testBit j = false :=
        Nat.testBit_lt_two_pow (Nat.lt_of_lt_of_le ip.toNat_lt (Nat.pow_le_pow_right (by decide) (by omega)))
      simp [hk, hj, hbit]
  · simp [hk]

/-- The last address of a prefix. -/
theorem prefix_end_toNat (hm : m ≤ 32) : (~~~((maskOf m &&& ip) ^^^ maskOf m)).toNat =
    ip.toNat / 2 ^ (32 - m.toNat) * 2 ^ (32 - m.toNat) + (2 ^ (32 - m.toNat) - 1) := by
  have hlow : 2 ^ (32 - m.toNat) - 1 < 2 ^ (32 - m.toNat) := Nat.sub_lt (Nat.two_pow_pos _) (by decide)
  rw [← shift_back, Nat.shiftLeft_add_eq_or_of_lt hlow]
  refine Nat.eq_of_testBit_eq fun j => ?_
  have hnot : ∀ y : UInt32, (~~~y).toNat.testBit j = (decide (j < 32) && !y.toNat.testBit j) := by
    intro y
    rw [UInt32.toNat_not, show UInt32.size - 1 - y.toNat = 2 ^ 32 - (y.toNat + 1) by
      rw [Nat.sub_sub, Nat.add_comm]; rfl, Nat.testBit_two_pow_sub_succ y.toNat_lt]
  rw [hnot, UInt32.toNat_xor, UInt32.toNat_and, Nat.testBit_xor, Nat.testBit_and, maskOf_testBit hm, Nat.testBit_or,
    Nat.testBit_shiftLeft, Nat.testBit_shiftRight, Nat.testBit_two_pow_sub_one]
  by_cases hk : 32 - m.toNat ≤ j
  · by_cases hj : j < 32
    · have hnk : ¬ j < 32 - m.toNat := by omega
      simp [hk, hj, hnk]
    · have hbit : ip.toNat.testBit j = false :=
        Nat.testBit_lt_two_pow (Nat.lt_of_lt_of_le ip.toNat_lt (Nat.pow_le_pow_right (by decide) (by omega)))
      simp [hk, hj, hbit]
  · have hj : j < 32 := by omega
    have hjk : j < 32 - m.toNat := by omega
    simp [hk, hj, hjk]

theorem maskedEq_inet_iff (hm : m ≤ 32) : MaskedEq m.toNat (.inet x) (.inet ip) ↔
    x.toNat / 2 ^ (32 - m.toNat) = ip.toNat / 2 ^ (32 - m.toNat) := by
  have hle : m.toNat ≤ 32 := UInt8.le_iff_toNat_le.mp hm
  rw [← compareIpv4_eq_zero, compareIpv4, tristate_eq_zero, Nat.min_eq_left hle, Nat.shiftRight_eq_div_pow,
    Nat.shiftRight_eq_div_pow]

theorem subnet_toNat (x : UInt32) : (x >>> 24).toNat = x.toNat / 2 ^ 24 := by
  rw [UInt32.toNat_shiftRight, show (24 : UInt32).toNat % 32 = 24 from rfl, Nat.shiftRight_eq_div_pow]

/-- The loop meets the network of every address that the prefix matches. -/
theorem subnet_of_match (hm : m ≤ 32) (h : MaskedEq m.toNat (.inet x) (.inet ip)) :
    firstSubnet (maskOf m) ip ≤ (x >>> 24).toNat ∧ (x >>> 24).toNat ≤ lastSubnet (maskOf m) ip := by
  have hx := (maskedEq_inet_iff hm).mp h
  have hsplit := Nat.div_add_mod x.toNat (2 ^ (32 - m.toNat))
  have hmod := Nat.mod_lt x.toNat (Nat.two_pow_pos (32 - m.toNat))
  rw [hx, Nat.mul_comm] at hsplit
  unfold firstSubnet lastSubnet
  rw [subnet_toNat, subnet_toNat, subnet_toNat, prefix_toNat hm, prefix_end_toNat hm]
  exact ⟨Nat.div_le_div_right (by omega), Nat.div_le_div_right (by omega)⟩

/-- A prefix of at most 8 bits matches the whole of each network that the loop meets. -/
theorem match_of_subnet (hm : m ≤ 8) (hfirst : firstSubnet (maskOf m) ip ≤ (x >>> 24).toNat)
    (hlast : (x >>> 24).toNat ≤ lastSubnet (maskOf m) ip) : MaskedEq m.toNat (.inet x) (.inet ip) := by
  have hle : m.toNat ≤ 8 := UInt8.le_iff_toNat_le.mp hm
  have hm32 : m ≤ 32 := UInt8.le_trans hm (by decide)
  refine (maskedEq_inet_iff hm32).mpr ?_
  unfold firstSubnet at hfirst
  unfold lastSubnet at hlast
  rw [subnet_toNat, subnet_toNat, prefix_toNat hm32] at hfirst
  rw [subnet_toNat, subnet_toNat, prefix_end_toNat hm32] at hlast
  generalize ip.toNat / 2 ^ (32 - m.toNat) = q at hfirst hlast ⊢
  have hpow : 2 ^ (32 - m.toNat) = 2 ^ (8 - m.toNat) * 2 ^ 24 := by
    rw [← Nat.pow_add]
    congr 1
    omega
  have hpos : 0 < 2 ^ (8 - m.toNat) := Nat.two_pow_pos _
  generalize 2 ^ (8 - m.toNat) = d at hpow hpos
  rw [hpow, ← Nat.mul_assoc, Nat.mul_div_cancel _ (by decide)] at hfirst
  have hend : (q * (d * 2 ^ 24) + (d * 2 ^ 24 - 1)) / 2 ^ 24 < (q + 1) * d := by
    refine (Nat.div_lt_iff_lt_mul (by decide)).mpr ?_
    rw [Nat.mul_assoc, Nat.add_one_mul]
    omega
  rw [hpow] at hlast
  rw [hpow, Nat.mul_comm d, ← Nat.div_div_eq_div_mul]
  exact Nat.div_eq_of_lt_le hfirst (Nat.lt_of_le_of_lt hlast hend)

end

/-! ## The table -/

/-- What the loop from `i` leaves of a table. -/
structure Touched (dirAllowPrivateAddresses : Bool) (p : AddrPolicy) (last i : Nat) (subnetStatus : List Bool)
    (r : Bool × List Bool) : Prop where
  length : r.2.length = subnetStatus.length
  kept : ∀ j : Nat, r.2[j]? = some false → subnetStatus[j]? = some false
  found : r.1 = true → p.policyType = ADDR_POLICY_ACCEPT ∧ p.maskbits ≤ 8 ∧
    ∃ j : Nat, i ≤ j ∧ j ≤ last ∧ subnetStatus[j]? = some false ∧ subnetSkipped dirAllowPrivateAddresses j = false
  marked : r.1 = false → p.policyType = ADDR_POLICY_REJECT →
    ∀ j : Nat, i ≤ j → j ≤ last → r.2[j]? = some false → subnetSkipped dirAllowPrivateAddresses j = true

section
variable {dirAllowPrivateAddresses : Bool} {p : AddrPolicy} {last i : Nat} {subnetStatus : List Bool}

theorem Touched.next {next : List Bool} {r : Bool × List Bool}
    (h : Touched dirAllowPrivateAddresses p last (i + 1) next r) (hlength : next.length = subnetStatus.length)
    (hkept : ∀ j : Nat, next[j]? = some false → subnetStatus[j]? = some false)
    (hhere : p.policyType = ADDR_POLICY_REJECT → next[i]? = some false → subnetSkipped dirAllowPrivateAddresses i = true) :
    Touched dirAllowPrivateAddresses p last i subnetStatus r where
  length := h.length.trans hlength
  kept j hj := hkept j (h.kept j hj)
  found hr := by
    obtain ⟨haccept, hbits, j, hij, hj, hfree, hskip⟩ := h.found hr
    exact ⟨haccept, hbits, j, by omega, hj, hkept j hfree, hskip⟩
  marked hr hreject j hij hj hfree := by
    rcases Nat.lt_or_eq_of_le hij with hlt | rfl
    · exact h.marked hr hreject j hlt hj hfree
    · exact hhere hreject (h.kept i hfree)

theorem touchSubnets_spec (hlast : last < subnetStatus.length) :
    ∃ r, touchSubnets dirAllowPrivateAddresses p last i subnetStatus = some r ∧
      Touched dirAllowPrivateAddresses p last i subnetStatus r := by
  fun_induction touchSubnets dirAllowPrivateAddresses p last i subnetStatus with
  | case1 i subnetStatus hi hnone => exact absurd hnone (by simp; omega)
  | case2 i subnetStatus hi hget ih =>
    obtain ⟨r, hr, ht⟩ := ih hlast
    refine ⟨r, hr, ht.next rfl (fun _ h => h) fun _ hfree => ?_⟩
    rw [hget] at hfree
    cases hfree
  | case3 i subnetStatus hi rejected hget hrejected hskip ih =>
    obtain ⟨r, hr, ht⟩ := ih hlast
    exact ⟨r, hr, ht.next rfl (fun _ h => h) fun _ _ => hskip⟩
  | case4 i subnetStatus hi rejected hget hrejected hskip haccept hbits ih =>
    obtain ⟨r, hr, ht⟩ := ih hlast
    refine ⟨r, hr, ht.next rfl (fun _ h => h) fun hreject => ?_⟩
    rw [haccept] at hreject
    cases hreject
  | case5 i subnetStatus hi rejected hget hrejected hskip haccept hbits =>
    have hfree : subnetStatus[i]? = some false := by rw [hget, Bool.eq_false_iff.mpr hrejected]
    refine ⟨_, rfl, rfl, fun _ h => h, fun _ => ?_, nofun⟩
    exact ⟨haccept, UInt8.not_lt.mp hbits, i, Nat.le_refl i, hi, hfree, Bool.not_eq_true _ ▸ hskip⟩
  | case6 i subnetStatus hi rejected hget hrejected hskip haccept ih =>
    obtain ⟨r, hr, ht⟩ := ih (by rwa [List.length_set])
    have hset : (subnetStatus.set i true)[i]? = some true :=
      List.getElem?_set_self (List.getElem?_eq_some_iff.mp hget).1
    refine ⟨r, hr, ht.next List.length_set (fun j hj => ?_) fun _ hfree => ?_⟩
    · by_cases hij : i = j
      · subst hij
        rw [hset] at hj
        cases hj
      · rwa [List.getElem?_set_ne hij] at hj
    · rw [hset] at hfree
      cases hfree
  | case7 i subnetStatus hi =>
    exact ⟨_, rfl, rfl, fun _ h => h, nofun, fun _ _ j hij hj => absurd (Nat.le_trans hij hj) hi⟩

theorem lastSubnet_lt (mask ip : UInt32) : lastSubnet mask ip < 256 := by
  rw [lastSubnet, subnet_toNat]
  exact (Nat.div_lt_iff_lt_mul (by decide)).mpr (UInt32.toNat_lt _)

/-- A network that is free has no address that one of the entries rejects. -/
def Clean (dirAllowPrivateAddresses : Bool) (port : UInt16) (pre : List AddrPolicy) (subnetStatus : List Bool) : Prop :=
  ∀ j : Nat, subnetStatus[j]? = some false → subnetSkipped dirAllowPrivateAddresses j = false →
    ∀ e ∈ pre, ∀ x : UInt32, (x >>> 24).toNat = j → entryMatches (.inet x) port e = true → e.policyType = ADDR_POLICY_ACCEPT

variable {port : UInt16} {pre policy : List AddrPolicy}

section

variable (h : Clean dirAllowPrivateAddresses port pre subnetStatus)
include h

theorem Clean.skip (hp : ∀ x, entryMatches (.inet x) port p = false) :
    Clean dirAllowPrivateAddresses port (pre ++ [p]) subnetStatus := by
  intro j hfree hskip e he x hx hit
  rcases List.mem_append.mp he with he | he
  · exact h j hfree hskip e he x hx hit
  · rw [List.mem_singleton.mp he, hp x] at hit
    cases hit

theorem Clean.touch {ip : UInt32} {r : List Bool} (haddr : p.addr = .inet ip) (hbits : p.maskbits ≤ 32)
    (ht : Touched dirAllowPrivateAddresses p (lastSubnet (maskOf p.maskbits) ip) (firstSubnet (maskOf p.maskbits) ip)
      subnetStatus (false, r)) : Clean dirAllowPrivateAddresses port (pre ++ [p]) r := by
  intro j hfree hskip e he x hx hit
  rcases List.mem_append.mp he with he | he
  · exact h j (ht.kept j hfree) hskip e he x hx hit
  · obtain rfl := List.mem_singleton.mp he
    cases htype : e.policyType with
    | ADDR_POLICY_ACCEPT => rfl
    | ADDR_POLICY_REJECT =>
      have hmatch := (entryMatches_iff.mp hit).1
      rw [haddr] at hmatch
      obtain ⟨hfirst, hlast⟩ := subnet_of_match hbits hmatch
      rw [hx] at hfirst hlast
      have hskipped := ht.marked rfl htype j hfirst hlast hfree
      rw [hskip] at hskipped
      cases hskipped

/-- An entry that accepts a whole network where no entry before it rejects an address. -/
theorem accepted_of_clean {post : List AddrPolicy} {j : Nat} {x : UInt32} (hfree : subnetStatus[j]? = some false)
    (hskip : subnetSkipped dirAllowPrivateAddresses j = false) (hx : (x >>> 24).toNat = j)
    (hp : entryMatches (.inet x) port p = true) (haccept : p.policyType = ADDR_POLICY_ACCEPT) :
    compareKnownTorAddrToAddrPolicy (.inet x) port (pre ++ p :: post) = ADDR_POLICY_ACCEPTED := by
  have hfirst : firstMatch (entryMatches (.inet x) port) AddrPolicy.policyType (pre ++ p :: post) = some p.policyType :=
    firstMatch_up_to hp rfl fun c hc hit => (h j hfree hskip c hc x hx hit).trans haccept.symm
  rw [compareKnown_eq, hfirst, haccept]
  rfl

end

theorem generalExitLoop_sound
    (hclean : Clean dirAllowPrivateAddresses port pre subnetStatus) (hlength : subnetStatus.length = 256)
    (h : generalExitLoop dirAllowPrivateAddresses port.toNat policy subnetStatus = some true) :
    ∃ j < 256, subnetSkipped dirAllowPrivateAddresses j = false ∧ ∀ x : UInt32, (x >>> 24).toNat = j →
      compareKnownTorAddrToAddrPolicy (.inet x) port (pre ++ policy) = ADDR_POLICY_ACCEPTED := by
  induction policy generalizing pre subnetStatus with
  | nil => cases h
  | cons p policy ih =>
    have hassoc : pre ++ p :: policy = (pre ++ [p]) ++ policy := by simp
    have hother : (∀ ip, p.addr ≠ .inet ip) → ∀ x, entryMatches (.inet x) port p = false := by
      intro hne x
      by_contra hit
      have hfamily := (entryMatches_iff.mp (Bool.not_eq_false _ ▸ hit)).1.1
      cases haddr : p.addr <;> simp [haddr, torAddrFamily] at hfamily
      exact hne _ haddr
    cases haddr : p.addr with
    | unspec | inet6 a =>
      rw [generalExitLoop, haddr] at h
      rw [hassoc]
      exact ih (hclean.skip (hother fun ip hip => by rw [haddr] at hip; cases hip)) hlength h
    | inet ip =>
      rw [generalExitLoop, haddr] at h
      dsimp only at h
      split at h
      next hport =>
        rw [hassoc]
        refine ih (hclean.skip fun x => ?_) hlength h
        by_contra hit
        obtain ⟨-, hlo, hhi⟩ := entryMatches_iff.mp (Bool.not_eq_false _ ▸ hit)
        have hlo := UInt16.le_iff_toNat_le.mp hlo
        have hhi := UInt16.le_iff_toNat_le.mp hhi
        omega
      next hport =>
        split at h
        next hbits =>
          obtain ⟨⟨found, r⟩, hr, ht⟩ := @touchSubnets_spec dirAllowPrivateAddresses p _
            (firstSubnet (maskOf p.maskbits) ip) _ (hlength ▸ lastSubnet_lt (maskOf p.maskbits) ip)
          rw [hr] at h
          cases found with
          | false =>
            rw [hassoc]
            exact ih (hclean.touch haddr hbits ht) (ht.length.trans hlength) h
          | true =>
            obtain ⟨haccept, hshort, j, hfirst, hlast, hfree, hskip⟩ := ht.found rfl
            refine ⟨j, Nat.lt_of_le_of_lt hlast (lastSubnet_lt _ ip), hskip, fun x hx => ?_⟩
            have hlo : p.prtMin ≤ port := UInt16.le_iff_toNat_le.mpr (by omega)
            have hhi : port ≤ p.prtMax := UInt16.le_iff_toNat_le.mpr (by omega)
            have hmatch := match_of_subnet hshort (hx ▸ hfirst) (hx ▸ hlast)
            have hit : entryMatches (.inet x) port p = true := entryMatches_iff.mpr ⟨haddr ▸ hmatch, hlo, hhi⟩
            exact accepted_of_clean hclean hfree hskip hx hit haccept
        next => cases h

/-- The port is one that some entry covers. -/
theorem generalExitLoop_port {port : Int}
    (h : generalExitLoop dirAllowPrivateAddresses port policy subnetStatus = some true) :
    ∃ e ∈ policy, (e.prtMin.toNat : Int) ≤ port ∧ port ≤ (e.prtMax.toNat : Int) := by
  induction policy generalizing subnetStatus with
  | nil => cases h
  | cons p policy ih =>
    by_cases hport : (p.prtMin.toNat : Int) ≤ port ∧ port ≤ (p.prtMax.toNat : Int)
    · exact ⟨p, List.mem_cons_self, hport⟩
    · have hrest : generalExitLoop dirAllowPrivateAddresses port policy subnetStatus = some true := by
        rw [generalExitLoop] at h
        cases haddr : p.addr with
        | unspec | inet6 a => rwa [haddr] at h
        | inet ip =>
          rw [haddr] at h
          dsimp only at h
          rwa [if_pos (by omega)] at h
      obtain ⟨e, he, hcovers⟩ := ih hrest
      exact ⟨e, List.mem_cons_of_mem p he, hcovers⟩

end

/-! ## What the answers promise -/

def coversAllPorts (e : AddrPolicy) : Bool := e.prtMin ≤ 1 ∧ e.prtMax ≥ 65535

section
variable {a : TorAddr} {policy : List AddrPolicy}

theorem compareTorAddr_noport (ha : torAddrIsNull a = false) : compareTorAddrToAddrPolicy (some a) 0 (some policy) =
    compareUnknown (addrMatches a) coversAllPorts false false policy := by
  have hfilter : (some a).filter (!torAddrIsNull ·) = some a := by simp [ha]
  simp only [compareTorAddrToAddrPolicy, hfilter, if_true]
  rfl

theorem noport_sound {t : AddrPolicyAction} {port : UInt16} (hport : port ≠ 0)
    (h : compareUnknown (addrMatches a) coversAllPorts false false policy = verdictOf t) :
    compareKnownTorAddrToAddrPolicy a port policy = verdictOf t := by
  refine compareUnknown_sound (fun e _ hit => ?_) (fun e _ haddr hports => ?_) h
  · rw [entryMatches_eq, Bool.and_eq_true] at hit
    exact hit.1
  · obtain ⟨hmin, hmax⟩ := of_decide_eq_true hports
    exact entryMatches_iff.mpr ⟨addrMatches_iff.mp haddr, allPorts_cover hport hmin hmax⟩

theorem rejectStar_definite (hpolicy : ∀ e ∈ policy, torAddrFamily e.addr ≠ .AF_UNSPEC)
    (h : rejectStarLoop (torAddrFamily a) false policy = true) :
    Definite (addrMatches a) coversAllPorts ADDR_POLICY_REJECT policy := by
  induction policy with
  | nil => cases h
  | cons p policy ih =>
    have ih := ih fun e he => hpolicy e (List.mem_cons_of_mem p he)
    have hknown := hpolicy p List.mem_cons_self
    rw [rejectStarLoop] at h
    split at h
    · cases h
    next hcont =>
      split at h
      next hall =>
        obtain ⟨hreject, hmin, hmax, hbits, hfamily⟩ := hall
        have haddr : addrMatches a p = true := addrMatches_iff.mpr
          ⟨(hfamily.resolve_right hknown).symm, fun i hi => absurd hi (by rw [hbits]; exact Nat.not_lt_zero i)⟩
        have hports : coversAllPorts p = true := decide_eq_true ⟨hmin, by rw [hmax]; exact UInt16.le_refl _⟩
        rw [Definite, if_pos haddr]
        exact ⟨hreject, .inl hports⟩
      next =>
        rw [Definite]
        split
        next haddr =>
          have hfamily := (addrMatches_iff.mp haddr).1.symm
          refine ⟨?_, .inr (ih h)⟩
          cases htype : p.policyType with
          | ADDR_POLICY_ACCEPT => exact absurd ⟨htype, .inl hfamily⟩ hcont
          | ADDR_POLICY_REJECT => rfl
        next => exact ih h

end

/-- A definite verdict without a port is that of every port; a policy that rejects all of a family rejects its
addresses; a general exit accepts a /8 network that is not internal. -/
theorem exit_queries_sound {policy : List AddrPolicy} (hpolicy : ∀ e ∈ policy, torAddrFamily e.addr ≠ .AF_UNSPEC) :
    (∀ a, torAddrIsNull a = false → ∀ verdict, verdict = ADDR_POLICY_ACCEPTED ∨ verdict = ADDR_POLICY_REJECTED →
      compareTorAddrToAddrPolicy (some a) 0 (some policy) = verdict →
        ∀ port, port ≠ 0 → compareTorAddrToAddrPolicy (some a) port (some policy) = verdict) ∧
    (∀ family, policyIsRejectStar (some policy) family false = true → ∀ a, torAddrFamily a = family →
      (∀ port, port ≠ 0 → compareKnownTorAddrToAddrPolicy a port policy = ADDR_POLICY_REJECTED) ∧
        (torAddrIsNull a = false → ∀ port,
          compareTorAddrToAddrPolicy (some a) port (some policy) = ADDR_POLICY_REJECTED)) ∧
    (∀ port, exitPolicyIsGeneralExitHelper false policy port = some true →
      ∃ prt : UInt16, (prt.toNat : Int) = port ∧ ∃ net < 256,
        torAddrIsInternal (.inet (UInt32.ofNat net <<< 24)) false = false ∧ ∀ ip : UInt32, (ip >>> 24).toNat = net →
          compareKnownTorAddrToAddrPolicy (.inet ip) prt policy = ADDR_POLICY_ACCEPTED ∧
            (prt ≠ 0 → compareTorAddrToAddrPolicy (some (.inet ip)) prt (some policy) = ADDR_POLICY_ACCEPTED)) := by
  refine ⟨fun a ha verdict hverdict h port hport => ?_, fun family h a hfamily => ?_, fun port h => ?_⟩
  · obtain ⟨t, rfl⟩ := verdictOf_of_definite hverdict
    rw [compareTorAddr_noport ha] at h
    rw [compareTorAddr_known hport ha]
    exact noport_sound hport h
  · subst hfamily
    have hscan : compareUnknown (addrMatches a) coversAllPorts false false policy = verdictOf ADDR_POLICY_REJECT :=
      compareUnknown_eq_verdict_iff.mpr (rejectStar_definite hpolicy h)
    refine ⟨fun port hport => noport_sound hport hscan, fun ha port => ?_⟩
    by_cases hport : port = 0
    · rw [hport, compareTorAddr_noport ha]
      exact hscan
    · rw [compareTorAddr_known hport ha]
      exact noport_sound hport hscan
  · obtain ⟨e, -, hlo, hhi⟩ := generalExitLoop_port h
    have hmax := e.prtMax.toNat_lt
    have hprt : ((UInt16.ofNat port.toNat).toNat : Int) = port := by
      rw [UInt16.toNat_ofNat_of_lt' (by show port.toNat < 65536; omega)]
      omega
    refine ⟨UInt16.ofNat port.toNat, hprt, ?_⟩
    rw [exitPolicyIsGeneralExitHelper, ← hprt] at h
    obtain ⟨net, hnet, hskip, haccept⟩ := @generalExitLoop_sound false _ _ [] policy
      (fun _ _ _ _ he => absurd he List.not_mem_nil) List.length_replicate h
    have hexternal : torAddrIsInternal (.inet (UInt32.ofNat net <<< 24)) false = false := by
      simpa [subnetSkipped] using hskip
    refine ⟨net, hnet, hexternal, fun ip hip => ⟨haccept ip hip, fun hport => ?_⟩⟩
    have hnull : torAddrIsNull (.inet ip) = false := by
      by_contra hnull
      have hzero : ip = 0 := by simpa [torAddrIsNull] using hnull
      rw [hzero] at hip
      subst hip
      exact absurd hexternal (by decide)
    rw [compareTorAddr_known hport hnull]
    exact haccept ip hip

/-- `reject 10.0.0.0/8:*, accept *4:80, reject *:*` -/
theorem exit_queries_of_web_exit :
    let policy := [⟨ADDR_POLICY_REJECT, false, 8, .inet 0x0a000000, 1, 65535⟩,
      ⟨ADDR_POLICY_ACCEPT, false, 0, .inet 0, 80, 80⟩, everything4 ADDR_POLICY_REJECT, everything6 ADDR_POLICY_REJECT]
    (∀ port, port ≠ 0 → compareTorAddrToAddrPolicy (some (.inet 0x0a010203)) port (some policy) = ADDR_POLICY_REJECTED) ∧
      (∀ a, torAddrFamily a = .AF_INET6 → torAddrIsNull a = false → ∀ port,
        compareTorAddrToAddrPolicy (some a) port (some policy) = ADDR_POLICY_REJECTED) ∧
      ∃ net < 256, torAddrIsInternal (.inet (UInt32.ofNat net <<< 24)) false = false := by
  intro policy
  obtain ⟨hport, hstar, hgeneral⟩ := exit_queries_sound (show ∀ e ∈ policy, torAddrFamily e.addr ≠ .AF_UNSPEC by decide)
  have hexit : exitPolicyIsGeneralExitHelper false policy 80 = some true := by decide +kernel
  obtain ⟨-, -, net, hnet, hexternal, -⟩ := hgeneral 80 hexit
  exact ⟨hport _ (by decide) _ (.inr rfl) (by decide +kernel), fun a ha => (hstar .AF_INET6 (by decide) a ha).2,
    net, hnet, hexternal⟩

end Badnet.Policies

/-
  Badnet.Nodelist.RoutersetMembership — one router by three descriptions, and the union of two sets
  (`feature/nodelist/routerset.c`).

  The test of a routerstatus passes the IPv4 address, the test of a routerinfo both addresses, null or not, and the test
  of an extend_info its addresses that are not null. A null address with port zero counts as rejected by every policy.
  The union writes the other set out and parses it (`union_setOf`). When do the three tests agree, and a union answer as
  its parts (`membership_iff`)?
-/

import Badnet.Nodelist.Routerset

namespace Badnet.Nodelist.Routersets

open Lib Encoding Dirparse Net Policies Container
open AddrPolicyAction AddrPolicyResult

/-! ## Descriptions of a router -/

variable (ri : RouterinfoT)

/-- What a consensus says of the router. -/
def RouterinfoT.routerstatus : RouterstatusT where
  nickname := ri.nickname
  identityDigest := ri.identityDigest
  ipv4Addr := ri.ipv4Addr
  ipv4Orport := ri.ipv4Orport
  legal := ri.legal

variable (addr : TorAddr)

def torAddrIsUnspec : Bool := torAddrFamily addr = .AF_UNSPEC

variable (ei : ExtendInfo)

/-- `extend_info_add_orport`, into the first slot that is not specified. -/
def extendInfoAddOrport (addr : TorAddr) (port : UInt16) : ExtendInfo :=
  if torAddrIsUnspec ei.orport0.1 then { ei with orport0 := (addr, port) }
  else if torAddrIsUnspec ei.orport1.1 then { ei with orport1 := (addr, port) }
  else ei

/-- `extend_info_new` -/
def extendInfoNew (nickname : Text) (rsaIdDigest : BytesN DIGEST_LEN) (addr : TorAddr) (port : UInt16) : ExtendInfo :=
  extendInfoAddOrport ⟨nickname, rsaIdDigest, (.unspec, 0), (.unspec, 0)⟩ addr port

/-- An extend_info with both addresses, in one order or the other. -/
def RouterinfoT.extendInfo (ipv6First : Bool) : ExtendInfo :=
  if ipv6First then
    extendInfoAddOrport (extendInfoNew ri.nickname ri.identityDigest ri.ipv6Addr ri.ipv6Orport) ri.ipv4Addr ri.ipv4Orport
  else
    extendInfoAddOrport (extendInfoNew ri.nickname ri.identityDigest ri.ipv4Addr ri.ipv4Orport) ri.ipv6Addr ri.ipv6Orport

/-- The address by which the country of an extend_info is looked up. -/
def ExtendInfo.firstAddr : Option TorAddr :=
  if torAddrIsNull ei.orport0.1 then none else some ei.orport0.1

/-! ## The three tests -/

variable (set : Routerset)

/-- The set gives the router's nickname or its fingerprint. -/
def NamedBy (ri : RouterinfoT) : Prop :=
  torStrlower ri.nickname ∈ set.names ∨ ri.identityDigest.1 ∈ set.digests

/-- The address is not null and the patterns of the set reject it. -/
def ShownRejected (slot : TorAddr × UInt16) : Prop :=
  torAddrIsNull slot.1 = false ∧ addrRejected set (some slot.1) slot.2 = true

section
variable {g : Geoip} {set : Routerset} {ri : RouterinfoT}

theorem named_iff {x : Prop} :
    ((∃ n, some ri.nickname = some n ∧ torStrlower n ∈ set.names) ∨
      (∃ d, some ri.identityDigest.1 = some d ∧ d ∈ set.digests) ∨ x) ↔ NamedBy set ri ∨ x := by
  unfold NamedBy
  simp [or_assoc]

theorem containsRouterstatus_iff : routersetContainsRouterstatus g (some set) ri.routerstatus (-1) ≠ 0 ↔
    NamedBy set ri ∨ addrRejected set (some ri.ipv4Addr) ri.ipv4Orport = true ∨
      countryListed g set (some ri.ipv4Addr) (-1) = true := by
  have hnone : addrRejected set none 0 = false := rfl
  refine contains2_ne_zero.trans (named_iff.trans ?_)
  rw [hnone]
  simp [RouterinfoT.routerstatus]

theorem containsRouter_iff : routersetContainsRouter g (some set) ri (-1) ≠ 0 ↔
    NamedBy set ri ∨ addrRejected set (some ri.ipv4Addr) ri.ipv4Orport = true ∨
      addrRejected set (some ri.ipv6Addr) ri.ipv6Orport = true ∨ countryListed g set (some ri.ipv4Addr) (-1) = true :=
  contains2_ne_zero.trans named_iff

/-- A slot with a null address is left out. -/
theorem slot_rejected (slot : TorAddr × UInt16) :
    addrRejected set ((if torAddrIsNull slot.1 then none else some slot).map (·.1))
        ((if torAddrIsNull slot.1 then none else some slot).elim 0 (·.2)) = true ↔ ShownRejected set slot := by
  unfold ShownRejected
  by_cases hnull : torAddrIsNull slot.1 = true
  · rw [if_pos hnull, hnull]
    simp [addrRejected]
  · rw [if_neg hnull]
    simp [Bool.eq_false_iff.mpr hnull]

theorem not_shown {addr : TorAddr} {port : UInt16} (h : torAddrIsUnspec addr = true) : ¬ShownRejected set (addr, port) := by
  intro hshown
  have hnull := hshown.1
  cases addr with
  | unspec => cases hnull
  | inet a => cases h
  | inet6 a => cases h

/-- Two addresses that are put into an extend_info are in its slots, but for one that is not specified. -/
theorem slots_added (a b : TorAddr × UInt16) (nick : Text) (d : BytesN DIGEST_LEN) :
    (ShownRejected set (extendInfoAddOrport (extendInfoNew nick d a.1 a.2) b.1 b.2).orport0 ∨
        ShownRejected set (extendInfoAddOrport (extendInfoNew nick d a.1 a.2) b.1 b.2).orport1) ↔
      ShownRejected set a ∨ ShownRejected set b := by
  have hnew : extendInfoNew nick d a.1 a.2 = ⟨nick, d, a, (.unspec, 0)⟩ := rfl
  have hunused : ¬ShownRejected set (.unspec, 0) := not_shown rfl
  rw [hnew, extendInfoAddOrport]
  dsimp only
  by_cases ha : torAddrIsUnspec a.1 = true
  · have hnot : ¬ShownRejected set a := not_shown ha
    rw [if_pos ha]
    exact (or_iff_left hunused).trans (or_iff_right hnot).symm
  · rw [if_neg ha, if_pos (show torAddrIsUnspec .unspec = true from rfl)]

variable (ipv6First : Bool)

theorem slots_rejected :
    (ShownRejected set (ri.extendInfo ipv6First).orport0 ∨ ShownRejected set (ri.extendInfo ipv6First).orport1) ↔
      ShownRejected set (ri.ipv4Addr, ri.ipv4Orport) ∨ ShownRejected set (ri.ipv6Addr, ri.ipv6Orport) := by
  cases ipv6First with
  | true => exact (slots_added (ri.ipv6Addr, ri.ipv6Orport) (ri.ipv4Addr, ri.ipv4Orport) _ _).trans or_comm
  | false => exact slots_added (ri.ipv4Addr, ri.ipv4Orport) (ri.ipv6Addr, ri.ipv6Orport) _ _

theorem extendInfo_same : (ri.extendInfo ipv6First).nickname = ri.nickname ∧
    (ri.extendInfo ipv6First).identityDigest = ri.identityDigest := by
  have hadd : ∀ (ei : ExtendInfo) (addr : TorAddr) (port : UInt16), (extendInfoAddOrport ei addr port).nickname = ei.nickname ∧
      (extendInfoAddOrport ei addr port).identityDigest = ei.identityDigest := by
    intro ei addr port
    unfold extendInfoAddOrport
    split
    · exact ⟨rfl, rfl⟩
    · split <;> exact ⟨rfl, rfl⟩
  unfold RouterinfoT.extendInfo extendInfoNew
  split <;> exact ⟨(hadd _ _ _).1.trans (hadd _ _ _).1, (hadd _ _ _).2.trans (hadd _ _ _).2⟩

theorem containsExtendinfo_iff : routersetContainsExtendinfo g (some set) (ri.extendInfo ipv6First) ≠ 0 ↔
    NamedBy set ri ∨ ShownRejected set (ri.ipv4Addr, ri.ipv4Orport) ∨ ShownRejected set (ri.ipv6Addr, ri.ipv6Orport) ∨
      countryListed g set (ri.extendInfo ipv6First).firstAddr (-1) = true := by
  obtain ⟨hnick, hid⟩ := @extendInfo_same ri ipv6First
  have hfirst : (if torAddrIsNull (ri.extendInfo ipv6First).orport0.1 then none
      else some (ri.extendInfo ipv6First).orport0).map (·.1) = (ri.extendInfo ipv6First).firstAddr := by
    unfold ExtendInfo.firstAddr
    split <;> rfl
  unfold routersetContainsExtendinfo
  dsimp only
  rw [contains2_ne_zero, hnick, hid, named_iff, slot_rejected, slot_rejected, hfirst]
  refine or_congr_right ?_
  rw [← or_assoc, slots_rejected, or_assoc]

/-- The three tests say the same. -/
structure TestsAgree (g : Geoip) (set : Routerset) (ri : RouterinfoT) (ipv6First : Bool) : Prop where
  router : routersetContainsRouter g (some set) ri (-1) ≠ 0 ↔
    routersetContainsRouterstatus g (some set) ri.routerstatus (-1) ≠ 0
  extendinfo : routersetContainsExtendinfo g (some set) (ri.extendInfo ipv6First) ≠ 0 ↔
    routersetContainsRouterstatus g (some set) ri.routerstatus (-1) ≠ 0

/-- The IPv4 address says yes: a pattern rejects it, or its country is listed. -/
def Ipv4Says (g : Geoip) (set : Routerset) (ri : RouterinfoT) : Prop :=
  addrRejected set (some ri.ipv4Addr) ri.ipv4Orport = true ∨ countryListed g set (some ri.ipv4Addr) (-1) = true

/-- An address that an extend_info shows says yes. -/
def ShownSays (g : Geoip) (set : Routerset) (ri : RouterinfoT) (ipv6First : Bool) : Prop :=
  ShownRejected set (ri.ipv4Addr, ri.ipv4Orport) ∨ ShownRejected set (ri.ipv6Addr, ri.ipv6Orport) ∨
    countryListed g set (ri.extendInfo ipv6First).firstAddr (-1) = true

/-- The router is named; or the IPv4 address says yes and an address that is shown does too; or neither does, and the
IPv6 address, null or not, is not rejected. -/
theorem testsAgree_iff : TestsAgree g set ri ipv6First ↔ NamedBy set ri ∨
    (Ipv4Says g set ri ∧ ShownSays g set ri ipv6First) ∨
      (¬Ipv4Says g set ri ∧ ¬ShownSays g set ri ipv6First ∧ addrRejected set (some ri.ipv6Addr) ri.ipv6Orport = false) := by
  have hrs : routersetContainsRouterstatus g (some set) ri.routerstatus (-1) ≠ 0 ↔ NamedBy set ri ∨ Ipv4Says g set ri :=
    containsRouterstatus_iff
  have hri : routersetContainsRouter g (some set) ri (-1) ≠ 0 ↔
      NamedBy set ri ∨ Ipv4Says g set ri ∨ addrRejected set (some ri.ipv6Addr) ri.ipv6Orport = true := by
    rw [containsRouter_iff, Ipv4Says, or_assoc]
    exact or_congr_right (or_congr_right or_comm)
  have hei : routersetContainsExtendinfo g (some set) (ri.extendInfo ipv6First) ≠ 0 ↔
      NamedBy set ri ∨ ShownSays g set ri ipv6First := containsExtendinfo_iff ipv6First
  have hagree : TestsAgree g set ri ipv6First ↔
      ((NamedBy set ri ∨ Ipv4Says g set ri ∨ addrRejected set (some ri.ipv6Addr) ri.ipv6Orport = true) ↔
        NamedBy set ri ∨ Ipv4Says g set ri) ∧
      ((NamedBy set ri ∨ ShownSays g set ri ipv6First) ↔ NamedBy set ri ∨ Ipv4Says g set ri) := by
    rw [← hrs, ← hri, ← hei]
    exact ⟨fun h => ⟨h.router, h.extendinfo⟩, fun h => ⟨h.1, h.2⟩⟩
  rw [hagree, ← Bool.not_eq_true]
  by_cases hnamed : NamedBy set ri
  · simp [hnamed]
  · by_cases hipv4 : Ipv4Says g set ri <;> by_cases hshown : ShownSays g set ri ipv6First <;> simp [hnamed, hipv4, hshown]

end

/-! ## Two policies, one after the other -/

variable (port : UInt16)

/-- The entry counts for the address and the port. -/
def mayDecide (e : AddrPolicy) : Bool :=
  if torAddrIsNull addr then e.prtMin ≤ port ∧ port ≤ e.prtMax
  else if port = 0 then addrMatches addr e
  else entryMatches addr port e

/-- An entry that counts settles it. -/
def surelyDecides (e : AddrPolicy) : Bool :=
  if torAddrIsNull addr then e.maskbits = 0
  else if port = 0 then e.prtMin ≤ 1 ∧ e.prtMax ≥ 65535
  else true

/-- With both known the first entry that matches settles it. -/
theorem compareKnown_eq_unknown (policy : List AddrPolicy) :
    compareKnownTorAddrToAddrPolicy addr port policy =
      compareUnknown (entryMatches addr port) (fun _ => true) false false policy := by
  induction policy with
  | nil => rfl
  | cons e policy ih =>
    unfold compareKnownTorAddrToAddrPolicy compareUnknown
    by_cases hit : entryMatches addr port e = true
    · rw [if_pos (of_decide_eq_true hit), if_pos hit]
      rfl
    · rw [if_neg (fun h => hit (decide_eq_true h)), if_neg hit, ih]

theorem rejected_iff {addr : TorAddr} {port : UInt16} {policy : List AddrPolicy} :
    compareTorAddrToAddrPolicy (some addr) port (some policy) = ADDR_POLICY_REJECTED ↔
      (torAddrIsNull addr = true ∧ port = 0) ∨
        ¬(torAddrIsNull addr = true ∧ port = 0) ∧
          Definite (mayDecide addr port) (surelyDecides addr port) ADDR_POLICY_REJECT policy := by
  have hverdict : ∀ mayMatch matchesAll, compareUnknown mayMatch matchesAll false false policy = ADDR_POLICY_REJECTED ↔
      Definite mayMatch matchesAll ADDR_POLICY_REJECT policy :=
    fun mayMatch matchesAll => compareUnknown_eq_verdict_iff (t := ADDR_POLICY_REJECT)
  unfold compareTorAddrToAddrPolicy mayDecide surelyDecides
  dsimp only
  by_cases hnull : torAddrIsNull addr = true
  · rw [Option.filter_some_neg (by simp [hnull])]
    dsimp only
    by_cases hport : port = 0
    · simp [hnull, hport]
    · rw [if_neg hport]
      simp only [hnull, if_true, hport, and_false, false_or, not_false_eq_true, true_and]
      exact hverdict _ _
  · rw [Option.filter_some_pos (by simp [hnull])]
    dsimp only
    by_cases hport : port = 0
    · simp only [hport, if_true, hnull, Bool.false_eq_true, if_false, false_and, false_or, not_false_eq_true, true_and]
      exact hverdict _ _
    · simp only [hport, if_false, hnull, Bool.false_eq_true, and_self, false_or, not_false_eq_true, true_and,
        compareKnown_eq_unknown]
      exact hverdict _ _

/-- Every entry of the set that counts for the address rejects. -/
def NoAccept (addr : TorAddr) (port : UInt16) : Prop :=
  ∀ e ∈ set.policies, mayDecide addr port e = true → e.policyType = ADDR_POLICY_REJECT

theorem rejected_append {addr : TorAddr} {port : UInt16} {pre rest : List AddrPolicy} :
    compareTorAddrToAddrPolicy (some addr) port (some (pre ++ rest)) = ADDR_POLICY_REJECTED ↔
      compareTorAddrToAddrPolicy (some addr) port (some pre) = ADDR_POLICY_REJECTED ∨
        (∀ e ∈ pre, mayDecide addr port e = true → e.policyType = ADDR_POLICY_REJECT) ∧
          compareTorAddrToAddrPolicy (some addr) port (some rest) = ADDR_POLICY_REJECTED := by
  rw [rejected_iff, rejected_iff, rejected_iff, definite_append_reject]
  by_cases hzero : torAddrIsNull addr = true ∧ port = 0
  · simp [hzero]
  · simp [hzero]

/-! ## The countries of a set -/

variable (g : Geoip)

/-- The number by which the table is asked. -/
def countryNumber (addr : Option TorAddr) (country : Int) : Int :=
  if country < 0 then addr.elim country g.countryByAddr else country

theorem getCountry_lt {g : Geoip} {country : Text} {n : Nat} (h : g.getCountry country = some n) :
    n < g.countries.length := (List.findIdx?_eq_some_iff_getElem.mp h).1

theorem setBits_iff {g : Geoip} {names : List Text} {bits : List Bool} {n : Nat} (hlen : bits.length = g.countries.length) :
    (((names.foldl (fun bits country => (g.getCountry country).elim bits fun cc => bits.set cc true) bits)[n]?).getD false) = true ↔
      (bits[n]?).getD false = true ∨ ∃ country ∈ names, g.getCountry country = some n := by
  induction names generalizing bits with
  | nil => simp
  | cons country names ih =>
    rw [List.foldl_cons, List.exists_mem_cons_iff]
    cases hc : g.getCountry country with
    | none =>
      rw [Option.elim_none, ih hlen]
      simp
    | some cc =>
      have hcc := getCountry_lt hc
      rw [Option.elim_some, ih (by rw [List.length_set, hlen]), List.getElem?_set]
      by_cases hn : cc = n
      · subst hn
        simp [hlen, hcc]
      · simp [hn]

theorem countryListed_setOf {g : Geoip} {list : List Text} {addr : Option TorAddr} {country : Int} :
    countryListed g (setOf g list) addr country = true ↔ g.loaded4 = true ∧ 0 ≤ countryNumber g addr country ∧
      ∃ nick ∈ list, ∃ cc, (entryOf nick).countryCode? = some cc ∧
        g.getCountry cc = some (countryNumber g addr country).toNat := by
  have hnames : (∃ cc ∈ list.filterMap fun nick => (entryOf nick).countryCode?,
        g.getCountry cc = some (countryNumber g addr country).toNat) ↔
      ∃ nick ∈ list, ∃ cc, (entryOf nick).countryCode? = some cc ∧
        g.getCountry cc = some (countryNumber g addr country).toNat := by
    constructor
    · rintro ⟨cc, hcc, hn⟩
      obtain ⟨nick, hnick, he⟩ := List.mem_filterMap.mp hcc
      exact ⟨nick, hnick, cc, he, hn⟩
    · rintro ⟨nick, hnick, cc, he, hn⟩
      exact ⟨cc, List.mem_filterMap.mpr ⟨nick, hnick, he⟩, hn⟩
  rw [← hnames]
  by_cases hany : (list.any fun nick => (entryOf nick).countryCode?.isSome) = true
  · have hcountries : (setOf g list).countries =
        refreshCountries g (list.filterMap fun nick => (entryOf nick).countryCode?) := if_pos hany
    unfold countryListed
    rw [hcountries, refreshCountries]
    by_cases hloaded : g.loaded4 = true
    · rw [if_pos hloaded]
      simp only [Option.any_some, Bool.and_eq_true, decide_eq_true_eq, hloaded, true_and]
      refine and_congr_right fun _ => ?_
      have hclear : ∀ k m : Nat, ((List.replicate k false)[m]?).getD false = false := by
        intro k m
        rw [List.getElem?_replicate]
        split <;> rfl
      exact (setBits_iff List.length_replicate).trans (or_iff_right (by rw [hclear]; decide))
    · rw [if_neg hloaded]
      simp [hloaded]
  · have hcountries : (setOf g list).countries = none := if_neg hany
    have hnil : list.filterMap (fun nick => (entryOf nick).countryCode?) = [] := by
      rw [List.filterMap_eq_nil_iff]
      intro nick hnick
      cases hc : (entryOf nick).countryCode? with
      | none => rfl
      | some cc => exact absurd (List.any_eq_true.mpr ⟨nick, hnick, by rw [hc]; rfl⟩) hany
    unfold countryListed
    rw [hcountries, hnil]
    simp

/-! ## Unions -/

/-- The set that a text gives. -/
def parsed (s : Text) : Routerset := (routersetParse g routersetNew s).1

/-- The entries of a set are read back as they are written. -/
theorem union_setOf {list list' : List Text} (h : ∀ nick ∈ list', Kept nick ∧ Piece ',' nick) :
    routersetUnion g (setOf g list) (some (setOf g list')) = setOf g (list ++ list') := by
  obtain ⟨kept, hset, -, hall⟩ := routersetParse_spec g list (routersetToString (setOf g list'))
  have hsplit : smartlistSplitString ',' (routersetToString (setOf g list')) = list' :=
    split_join fun nick hnick => (h nick hnick).2
  rw [hsplit] at hall
  obtain ⟨rfl, -⟩ := hall fun nick hnick => (h nick hnick).1
  exact hset

theorem parsed_eq (s : Text) : ∃ list, parsed g s = setOf g list ∧ ∀ nick ∈ list, Kept nick ∧ Piece ',' nick := by
  obtain ⟨kept, hset, hkept, -⟩ := routersetParse_spec g [] s
  exact ⟨kept, hset, fun nick hnick => ⟨(hkept nick hnick).1, split_pieces s nick (hkept nick hnick).2⟩⟩

/-- What a test passes to `routersetContains2`. -/
structure Query where
  addr : Option TorAddr
  orport : UInt16
  addr2 : Option TorAddr
  orport2 : UInt16
  nickname : Option Text
  idDigest : Option Bytes
  country : Int

/-- The test finds the router in the set. -/
def Query.In (q : Query) (g : Geoip) (set : Routerset) : Prop :=
  routersetContains2 g (some set) q.addr q.orport q.addr2 q.orport2 q.nickname q.idDigest q.country ≠ 0

def RouterstatusT.query (rs : RouterstatusT) (country : Int) : Query :=
  ⟨some rs.ipv4Addr, rs.ipv4Orport, none, 0, some rs.nickname, some rs.identityDigest.1, country⟩

def RouterinfoT.query (country : Int) : Query :=
  ⟨some ri.ipv4Addr, ri.ipv4Orport, some ri.ipv6Addr, ri.ipv6Orport, some ri.nickname, some ri.identityDigest.1, country⟩

def ExtendInfo.query : Query :=
  let ap1 := if torAddrIsNull ei.orport0.1 then none else some ei.orport0
  let ap2 := if torAddrIsNull ei.orport1.1 then none else some ei.orport1
  ⟨ap1.map (·.1), ap1.elim 0 (·.2), ap2.map (·.1), ap2.elim 0 (·.2), some ei.nickname, some ei.identityDigest.1, -1⟩

/-- One of the addresses that the query passes. -/
def Query.Passes (q : Query) (addr : TorAddr) (port : UInt16) : Prop :=
  (q.addr = some addr ∧ q.orport = port) ∨ (q.addr2 = some addr ∧ q.orport2 = port)

/-- The nickname, the fingerprint or the country is listed. -/
def Query.ListedBy (q : Query) (g : Geoip) (set : Routerset) : Prop :=
  (∃ n, q.nickname = some n ∧ torStrlower n ∈ set.names) ∨ (∃ d, q.idDigest = some d ∧ d ∈ set.digests) ∨
    countryListed g set q.addr q.country = true

section
variable {g : Geoip} {q : Query} {list list' : List Text}

theorem in_iff {set : Routerset} : q.In g set ↔
    q.ListedBy g set ∨ ∃ addr port, q.Passes addr port ∧ addrRejected set (some addr) port = true := by
  have haddr : ∀ (a : Option TorAddr) (p : UInt16),
      addrRejected set a p = true ↔ ∃ addr, a = some addr ∧ addrRejected set (some addr) p = true := by
    intro a p
    cases a with
    | none => simp [addrRejected]
    | some addr => simp
  have hpasses : (∃ addr port, q.Passes addr port ∧ addrRejected set (some addr) port = true) ↔
      addrRejected set q.addr q.orport = true ∨ addrRejected set q.addr2 q.orport2 = true := by
    rw [haddr q.addr, haddr q.addr2]
    constructor
    · rintro ⟨addr, port, ⟨ha, rfl⟩ | ⟨ha, rfl⟩, hr⟩
      · exact .inl ⟨addr, ha, hr⟩
      · exact .inr ⟨addr, ha, hr⟩
    · rintro (⟨addr, ha, hr⟩ | ⟨addr, ha, hr⟩)
      · exact ⟨addr, q.orport, .inl ⟨ha, rfl⟩, hr⟩
      · exact ⟨addr, q.orport2, .inr ⟨ha, rfl⟩, hr⟩
  rw [hpasses, Query.In, contains2_ne_zero, Query.ListedBy]
  constructor
  · rintro (h | h | h | h | h)
    · exact .inl (.inl h)
    · exact .inl (.inr (.inl h))
    · exact .inr (.inl h)
    · exact .inr (.inr h)
    · exact .inl (.inr (.inr h))
  · rintro ((h | h | h) | h | h)
    · exact .inl h
    · exact .inr (.inl h)
    · exact .inr (.inr (.inr (.inr h)))
    · exact .inr (.inr (.inl h))
    · exact .inr (.inr (.inr (.inl h)))

theorem listedBy_append :
    q.ListedBy g (setOf g (list ++ list')) ↔ q.ListedBy g (setOf g list) ∨ q.ListedBy g (setOf g list') := by
  have hname : ∀ n, n ∈ (setOf g (list ++ list')).names ↔ n ∈ (setOf g list).names ∨ n ∈ (setOf g list').names := by
    intro n
    show n ∈ (list ++ list').filterMap nameKey ↔ _
    rw [List.filterMap_append, List.mem_append]
    exact Iff.rfl
  have hdigest : ∀ d, d ∈ (setOf g (list ++ list')).digests ↔ d ∈ (setOf g list).digests ∨ d ∈ (setOf g list').digests := by
    intro d
    show d ∈ (list ++ list').filterMap (fun nick => (entryOf nick).digest?) ↔ _
    rw [List.filterMap_append, List.mem_append]
    exact Iff.rfl
  have hcountry : countryListed g (setOf g (list ++ list')) q.addr q.country = true ↔
      countryListed g (setOf g list) q.addr q.country = true ∨ countryListed g (setOf g list') q.addr q.country = true := by
    rw [countryListed_setOf, countryListed_setOf, countryListed_setOf, ← and_or_left, ← and_or_left]
    refine and_congr_right fun _ => and_congr_right fun _ => ?_
    constructor
    · rintro ⟨nick, hnick, h⟩
      rcases List.mem_append.mp hnick with hnick | hnick
      · exact .inl ⟨nick, hnick, h⟩
      · exact .inr ⟨nick, hnick, h⟩
    · rintro (⟨nick, hnick, h⟩ | ⟨nick, hnick, h⟩)
      · exact ⟨nick, List.mem_append_left _ hnick, h⟩
      · exact ⟨nick, List.mem_append_right _ hnick, h⟩
  unfold Query.ListedBy
  constructor
  · rintro (⟨n, hn, hmem⟩ | ⟨d, hd, hmem⟩ | h)
    · exact ((hname _).mp hmem).imp (fun h => .inl ⟨n, hn, h⟩) fun h => .inl ⟨n, hn, h⟩
    · exact ((hdigest _).mp hmem).imp (fun h => .inr (.inl ⟨d, hd, h⟩)) fun h => .inr (.inl ⟨d, hd, h⟩)
    · exact (hcountry.mp h).imp (fun h => .inr (.inr h)) fun h => .inr (.inr h)
  · rintro ((⟨n, hn, hmem⟩ | ⟨d, hd, hmem⟩ | h) | (⟨n, hn, hmem⟩ | ⟨d, hd, hmem⟩ | h))
    · exact .inl ⟨n, hn, (hname _).mpr (.inl hmem)⟩
    · exact .inr (.inl ⟨d, hd, (hdigest _).mpr (.inl hmem)⟩)
    · exact .inr (.inr (hcountry.mpr (.inl h)))
    · exact .inl ⟨n, hn, (hname _).mpr (.inr hmem)⟩
    · exact .inr (.inl ⟨d, hd, (hdigest _).mpr (.inr hmem)⟩)
    · exact .inr (.inr (hcountry.mpr (.inr h)))

theorem addrRejected_append {addr : TorAddr} {port : UInt16} :
    addrRejected (setOf g (list ++ list')) (some addr) port = true ↔
      addrRejected (setOf g list) (some addr) port = true ∨
        NoAccept (setOf g list) addr port ∧ addrRejected (setOf g list') (some addr) port = true := by
  have hpolicies : (setOf g (list ++ list')).policies = (setOf g list).policies ++ (setOf g list').policies := by
    show policyExpandUnspec ((list ++ list').filterMap _) = _
    rw [List.filterMap_append]
    exact List.flatMap_append
  have hiff : ∀ set : Routerset, addrRejected set (some addr) port = true ↔
      compareTorAddrToAddrPolicy (some addr) port (some set.policies) = ADDR_POLICY_REJECTED := by
    intro set
    simp [addrRejected]
  rw [hiff, hiff, hiff, hpolicies]
  exact rejected_append

/-- A query finds in the union what it finds in one of the sets exactly if: it finds it in the target; or the other
set lists the router, rejects none of its addresses, or rejects one that no entry of the target accepts. -/
theorem union_iff : ((q.In g (setOf g (list ++ list')) ↔ q.In g (setOf g list) ∨ q.In g (setOf g list'))) ↔
    q.In g (setOf g list) ∨ q.ListedBy g (setOf g list') ∨
      (∀ addr port, q.Passes addr port → addrRejected (setOf g list') (some addr) port = false) ∨
      ∃ addr port, q.Passes addr port ∧ addrRejected (setOf g list') (some addr) port = true ∧
        NoAccept (setOf g list) addr port := by
  have hunion : q.In g (setOf g (list ++ list')) ↔ q.In g (setOf g list) ∨ q.ListedBy g (setOf g list') ∨
      ∃ addr port, q.Passes addr port ∧ addrRejected (setOf g list') (some addr) port = true ∧
        NoAccept (setOf g list) addr port := by
    rw [in_iff, in_iff, listedBy_append]
    constructor
    · rintro ((h | h) | ⟨addr, port, hp, h⟩)
      · exact .inl (.inl h)
      · exact .inr (.inl h)
      · rcases addrRejected_append.mp h with h | ⟨hno, h⟩
        · exact .inl (.inr ⟨addr, port, hp, h⟩)
        · exact .inr (.inr ⟨addr, port, hp, h, hno⟩)
    · rintro ((h | ⟨addr, port, hp, h⟩) | h | ⟨addr, port, hp, h, hno⟩)
      · exact .inl (.inl h)
      · exact .inr ⟨addr, port, hp, addrRejected_append.mpr (.inl h)⟩
      · exact .inl (.inr h)
      · exact .inr ⟨addr, port, hp, addrRejected_append.mpr (.inr ⟨hno, h⟩)⟩
  have hsource := @in_iff g q (setOf g list')
  constructor
  · intro h
    by_cases htarget : q.In g (setOf g list)
    · exact .inl htarget
    by_cases hin : q.In g (setOf g list')
    · rcases hunion.mp (h.mpr (.inr hin)) with h' | h' | h'
      · exact .inl h'
      · exact .inr (.inl h')
      · exact .inr (.inr (.inr h'))
    · refine .inr (.inr (.inl fun addr port hp => ?_))
      exact Bool.eq_false_iff.mpr fun hr => hin (hsource.mpr (.inr ⟨addr, port, hp, hr⟩))
  · intro h
    constructor
    · intro hin
      rcases hunion.mp hin with h' | h' | ⟨addr, port, hp, hr, -⟩
      · exact .inl h'
      · exact .inr (hsource.mpr (.inl h'))
      · exact .inr (hsource.mpr (.inr ⟨addr, port, hp, hr⟩))
    · rintro (hin | hin)
      · exact hunion.mpr (.inl hin)
      · rcases h with h | h | h | h
        · exact hunion.mpr (.inl h)
        · exact hunion.mpr (.inr (.inl h))
        · rcases hsource.mp hin with hl | ⟨addr, port, hp, hr⟩
          · exact hunion.mpr (.inr (.inl hl))
          · rw [h addr port hp] at hr
            cases hr
        · exact hunion.mpr (.inr (.inr h))

end

/-- The three tests of a router agree on a parsed set exactly if the set names the router, or both its addresses say
yes, or the IPv4 one says no and the IPv6 one is not rejected. And a union answers as one of the sets does under the
condition of `union_iff`. -/
theorem membership_iff (g : Geoip) (targetText sourceText : Text) :
    (∀ (ri : RouterinfoT) (ipv6First : Bool), TestsAgree g (parsed g targetText) ri ipv6First ↔
      NamedBy (parsed g targetText) ri ∨
        (Ipv4Says g (parsed g targetText) ri ∧ ShownSays g (parsed g targetText) ri ipv6First) ∨
        (¬Ipv4Says g (parsed g targetText) ri ∧ ¬ShownSays g (parsed g targetText) ri ipv6First ∧
          addrRejected (parsed g targetText) (some ri.ipv6Addr) ri.ipv6Orport = false)) ∧
    ∀ q : Query, ((q.In g (routersetUnion g (parsed g targetText) (some (parsed g sourceText))) ↔
        q.In g (parsed g targetText) ∨ q.In g (parsed g sourceText)) ↔
      q.In g (parsed g targetText) ∨ q.ListedBy g (parsed g sourceText) ∨
        (∀ addr port, q.Passes addr port → addrRejected (parsed g sourceText) (some addr) port = false) ∨
        ∃ addr port, q.Passes addr port ∧ addrRejected (parsed g sourceText) (some addr) port = true ∧
          NoAccept (parsed g targetText) addr port) := by
  obtain ⟨list, htarget, hkept⟩ := parsed_eq g targetText
  obtain ⟨list', hsource, hkept'⟩ := parsed_eq g sourceText
  refine ⟨fun ri ipv6First => testsAgree_iff ipv6First, fun q => ?_⟩
  rw [htarget, hsource, union_setOf g hkept']
  exact union_iff

/-! ## An IPv4 relay and an accept entry -/

/-- A relay with an IPv4 address only. -/
def relayBob : RouterinfoT :=
  ⟨['b', 'o', 'b'], ⟨List.replicate 20 2, rfl⟩, .inet 0x01020304, 9001, .unspec, 0, by decide⟩

def carol : Text := "carol".toList

def acceptEntry : Text := "accept 1.2.3.4:*".toList

def rejectEntry : Text := "1.2.3.4".toList

/-- The null IPv6 address of the routerinfo counts as rejected by the set of another nickname. And a set that rejects
the relay's address, added to one that accepts it, makes no member of it. -/
theorem an_ipv4_relay_is_in_every_set_by_its_routerinfo :
    (routersetContainsRouter noGeoip (some (parsed noGeoip carol)) relayBob (-1) = 3 ∧
      routersetContainsRouterstatus noGeoip (some (parsed noGeoip carol)) relayBob.routerstatus (-1) = 0 ∧
        ¬TestsAgree noGeoip (parsed noGeoip carol) relayBob false) ∧
    (relayBob.routerstatus.query (-1)).In noGeoip (parsed noGeoip rejectEntry) ∧
      ¬(relayBob.routerstatus.query (-1)).In noGeoip
        (routersetUnion noGeoip (parsed noGeoip acceptEntry) (some (parsed noGeoip rejectEntry))) := by
  have hpiece : ∀ nick : Text, nick = carol ∨ nick = acceptEntry ∨ nick = rejectEntry → Kept nick ∧ Piece ',' nick := by
    rintro nick (rfl | rfl | rfl)
    · exact ⟨by decide, Piece.of_ends rfl rfl (by decide) (by decide) (by decide)⟩
    · exact ⟨by decide, Piece.of_ends rfl rfl (by decide) (by decide) (by decide)⟩
    · exact ⟨by decide, Piece.of_ends rfl rfl (by decide) (by decide) (by decide)⟩
  have hparsed : ∀ nick : Text, nick = carol ∨ nick = acceptEntry ∨ nick = rejectEntry →
      parsed noGeoip nick = setOf noGeoip [nick] := by
    intro nick h
    rw [parsed, routersetParse_piece noGeoip (hpiece nick h).2 (hpiece nick h).1]
  have hunion : routersetUnion noGeoip (setOf noGeoip [acceptEntry]) (some (setOf noGeoip [rejectEntry])) =
      setOf noGeoip [acceptEntry, rejectEntry] := by
    refine union_setOf noGeoip fun nick hnick => ?_
    exact hpiece nick (Or.inr (Or.inr (List.mem_singleton.mp hnick)))
  rw [hparsed carol (Or.inl rfl), hparsed acceptEntry (Or.inr (Or.inl rfl)), hparsed rejectEntry (Or.inr (Or.inr rfl)), hunion]
  have hri : routersetContainsRouter noGeoip (some (setOf noGeoip [carol])) relayBob (-1) = 3 := by decide
  have hrs : routersetContainsRouterstatus noGeoip (some (setOf noGeoip [carol])) relayBob.routerstatus (-1) = 0 := by decide
  refine ⟨⟨hri, hrs, fun h => ?_⟩, ?_, ?_⟩
  · have hin := h.router.mp (by rw [hri]; decide)
    exact hin hrs
  · show routersetContains2 _ _ _ _ _ _ _ _ _ ≠ 0
    decide
  · show ¬(routersetContains2 _ _ _ _ _ _ _ _ _ ≠ 0)
    decide

end Badnet.Nodelist.Routersets

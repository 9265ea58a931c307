/-
  Badnet.Policies.PolicyParse — policies as router descriptors and torrc give them (`router_parse_addr_policy` of
  `feature/dirparse/policy_parse.c`, `router_add_exit_policy` of `routerparse.c`, and `policy_expand_private`,
  `policy_expand_unspec` and the loop of `parse_addr_policy` of `policies.c`).

  A policy is a list of tokens: a keyword and its arguments. The outer `none` is a failed assertion, the inner one a
  policy that is rejected. The port `0` becomes the range from 1 to 0, at which `policy_summarize` stops the process
  (`parsed_policies_summarized`).
-/

import Badnet.Dirparse.Tokens
import Badnet.Lib.Run
import Badnet.Policies.ShortPolicy

namespace Badnet.Policies

open Lib Net Encoding Dirparse

/-! ## Tokens -/

inductive PolicyKeyword where
  | K_ACCEPT
  | K_ACCEPT6
  | K_REJECT
  | K_REJECT6
  deriving DecidableEq, Repr

structure PolicyToken where
  tp : PolicyKeyword
  args : List Text
  deriving DecidableEq, Repr

section

variable (tok : PolicyToken)

def PolicyToken.action : AddrPolicyAction :=
  if tok.tp = .K_REJECT ∨ tok.tp = .K_REJECT6 then .ADDR_POLICY_REJECT else .ADDR_POLICY_ACCEPT

def PolicyToken.only6 : Bool := tok.tp = .K_ACCEPT6 ∨ tok.tp = .K_REJECT6

def privateText : Text := ['p', 'r', 'i', 'v', 'a', 't', 'e']

/-- The ports after `private`. -/
def privatePort (arg : Text) : Option Text :=
  match eatWhitespaceEos (arg.drop privateText.length) with
  | ':' :: port => some port
  | _ => none

def routerParseAddrPolicyPrivate (arg : Text) : Option AddrPolicy :=
  if ¬ privateText <+: arg then none
  else (privatePort arg).bind fun port =>
    (parsePortRange (some port)).map fun (portMin, portMax) => ⟨tok.action, true, 0, .unspec, portMin, portMax⟩

def routerParseAddrPolicy (fmtFlags : TapmpFlags) : Option (Option AddrPolicy) :=
  match tok.args with
  | [arg] =>
    if privateText <+: arg then some (routerParseAddrPolicyPrivate tok arg)
    else
      let fmtFlags := if fmtFlags.extendedStar ∧ tok.only6 then { fmtFlags with starIpv6Only := true } else fmtFlags
      (torAddrParseMaskPorts arg fmtFlags true .range).map fun
        | some ⟨addr, some maskbits, some (prtMin, prtMax)⟩ => some ⟨tok.action, false, maskbits, addr, prtMin, prtMax⟩
        | _ => none
  | _ => some none

/-! ## Lists -/

def policyExpandPrivate (policy : List AddrPolicy) : Option (List AddrPolicy) :=
  (policy.mapM fun p =>
    if ¬ p.isPrivate then some [p]
    else privateNets.mapM fun net =>
      match torAddrParseMaskPorts net.toList ⟨false, false, false⟩ true .range with
      | some (some ⟨addr, some maskbits, _⟩) => some { p with isPrivate := false, addr := addr, maskbits := maskbits }
      | _ => none).map List.flatten

def policyExpandUnspec (policy : List AddrPolicy) : List AddrPolicy :=
  policy.flatMap fun p =>
    if torAddrFamily p.addr = .AF_INET6 ∨ torAddrFamily p.addr = .AF_INET ∨ p.isPrivate then [p]
    else [{ p with maskbits := 0, addr := .inet 0 }, { p with maskbits := 0, addr := .inet6 nilBytes }]

/-- The entries of a descriptor; a field and an address of different families reject the descriptor. -/
def routerAddExitPolicy : Option (Option AddrPolicy) :=
  (routerParseAddrPolicy tok ⟨false, false, false⟩).map fun newe =>
    newe.filter fun e => ¬ ((tok.only6 ∧ torAddrFamily e.addr = .AF_INET) ∨ (¬ tok.only6 ∧ torAddrFamily e.addr = .AF_INET6))

/-- The exit policy of a router descriptor. -/
def descriptorPolicy (tokens : List PolicyToken) : Option (Option (List AddrPolicy)) :=
  (tokens.mapM routerAddExitPolicy).bind fun entries =>
    match entries.mapM id with
    | none => some none
    | some policy => (policyExpandPrivate policy).map some

/-- `router_parse_addr_policy_item_from_string` after the token: the outer `some none` discards the list, the inner one
    the entry. -/
def torrcItem : Option (Option (Option AddrPolicy)) :=
  (routerParseAddrPolicy tok ⟨true, false, false⟩).map fun r =>
    r.map fun e => if tok.only6 ∧ torAddrFamily e.addr ≠ .AF_INET6 then none else some e

/-- The policy of a torrc. -/
def torrcPolicy (tokens : List PolicyToken) : Option (Option (List AddrPolicy)) :=
  (tokens.mapM torrcItem).bind fun items =>
    match items.mapM id with
    | none => some none
    | some entries => (policyExpandPrivate (entries.filterMap id)).map fun policy => some (policyExpandUnspec policy)

/-! ## One item from a text -/

def policyKeyword (kwd : Text) : Option PolicyKeyword :=
  if kwd = acceptPrefix then some .K_ACCEPT
  else if kwd = rejectPrefix then some .K_REJECT
  else if kwd = acceptPrefix ++ ['6'] then some .K_ACCEPT6
  else if kwd = rejectPrefix ++ ['6'] then some .K_REJECT6
  else none

/-- What `get_next_token` takes for the begin line of an object; no policy keyword has one. -/
def objectBegins (s : Text) : Bool := '\n' ∈ s ∧ (s.takeWhile (· ≠ '\n')).length ≥ 11 ∧ beginTag <+: s

/-- `get_next_token` where only the four policy keywords are wanted; `none` is an error or another keyword. -/
def policyToken (cp : Text) : Option PolicyToken :=
  let s := eatWhitespaceEos cp
  let line := s.takeWhile (· ≠ '\n')
  if line.length > MAX_LINE_LENGTH then none
  else
    let line := if line.takeWhile isWordChar = ['o', 'p', 't'] then eatWhitespaceEosNoNl (line.dropWhile isWordChar) else line
    (policyKeyword (line.takeWhile isWordChar)).bind fun tp =>
      (getTokenArguments (eatWhitespaceEosNoNl (line.dropWhile isWordChar))).bind fun args =>
        if objectBegins (eatWhitespaceEos (s.dropWhile (· ≠ '\n'))) then none else some ⟨tp, args⟩

/-- The size of `line`: `TOR_ADDR_BUF_LEN*2 + 32`. -/
def POLICY_LINE_SIZE : Nat := 128

/-- The text that is tokenized; `none` is one that does not fit the buffer. -/
def policyLine (s : Text) (assumeAction : Option AddrPolicyAction) : Option Text :=
  let s := eatWhitespaceEos s
  match assumeAction with
  | none => some s
  | some action =>
    if s.head?.any fun c => c = '*' ∨ c = '[' ∨ c.isDigit then
      let line := (if action = .ADDR_POLICY_ACCEPT then acceptPrefix else rejectPrefix) ++ ' ' :: s
      if line.length < POLICY_LINE_SIZE then some (line.map Char.toLower) else none
    else some s

/-- An entry, or none; and then whether the whole list is to be discarded. -/
inductive PolicyItem where
  | entry (p : AddrPolicy)
  | ignored
  | malformed
  deriving DecidableEq

/-- The flags that the assertion of `tor_addr_parse_mask_ports` is about are not both set. -/
theorem torrcItem_returns : (torrcItem tok).isSome = true := by
  unfold torrcItem routerParseAddrPolicy torAddrParseMaskPorts
  rw [Option.isSome_map]
  split
  · split
    · rfl
    · rw [Option.isSome_map, if_neg]
      · rfl
      · dsimp only
        split <;> simp
  · rfl

end

def routerParseAddrPolicyItemFromString (s : Text) (assumeAction : Option AddrPolicyAction) : PolicyItem :=
  match policyLine s assumeAction with
  | none => .ignored
  | some cp =>
    match policyToken cp with
    | none => .malformed
    | some tok =>
      match (torrcItem tok).get (torrcItem_returns tok) with
      | none => .malformed
      | some none => .ignored
      | some (some e) => .entry e

/-! ## Entries of a parsed policy -/

/-- The port of an entry. -/
def tokenPort (tok : PolicyToken) : Option Text :=
  match tok.args with
  | [arg] => if privateText <+: arg then privatePort arg else patternPort arg
  | _ => none

/-- The ports of an entry that comes from the token: a range, or the range from 1 to 0 for a lone zero. -/
def PortsOf (tok : PolicyToken) (e : AddrPolicy) : Prop :=
  (loneZero (tokenPort tok) = false → PortsOk e.prtMin e.prtMax) ∧
    (loneZero (tokenPort tok) = true → e.prtMin = 1 ∧ e.prtMax = 0)

variable {tok : PolicyToken} {e : AddrPolicy} {policy : List AddrPolicy} {tokens : List PolicyToken}

theorem routerParseAddrPolicy_ports {flags : TapmpFlags}
    (h : routerParseAddrPolicy tok flags = some (some e)) : PortsOf tok e := by
  unfold routerParseAddrPolicy at h
  unfold PortsOf tokenPort
  split at h
  next arg hargs =>
    split at h
    next hpriv =>
      rw [if_pos hpriv]
      have h := Option.some.inj h
      rw [routerParseAddrPolicyPrivate, if_neg (not_not_intro hpriv)] at h
      obtain ⟨port, hport, h⟩ := Option.bind_eq_some_iff.mp h
      obtain ⟨⟨lo, hi⟩, hrange, rfl⟩ := Option.map_eq_some_iff.mp h
      rw [hport]
      exact ⟨(parsePortRange_ok hrange).mpr, parsePortRange_zero hrange⟩
    next hpriv =>
      rw [if_neg hpriv]
      obtain ⟨r, hr, hmatch⟩ := Option.map_eq_some_iff.mp h
      split at hmatch
      next addr maskbits prtMin prtMax =>
        cases hmatch
        obtain ⟨bits, lo, hi, -, hports, -, hok, hzero⟩ := torAddrParseMaskPorts_ok hr
        cases hports
        exact ⟨hok.mpr, hzero⟩
      · cases hmatch
  · cases h

/-- The expansions leave the ports alone. -/
theorem policyExpandPrivate_ports {policy' : List AddrPolicy} (h : policyExpandPrivate policy = some policy') :
    ∀ e ∈ policy', ∃ p ∈ policy, e.prtMin = p.prtMin ∧ e.prtMax = p.prtMax := by
  obtain ⟨ls, hls, rfl⟩ := Option.map_eq_some_iff.mp h
  intro e he
  obtain ⟨l, hl, he⟩ := List.mem_flatten.mp he
  obtain ⟨p, hp, hpl⟩ := mem_mapM hls l hl
  refine ⟨p, hp, ?_⟩
  split at hpl
  · cases hpl
    rw [List.mem_singleton.mp he]
    exact ⟨rfl, rfl⟩
  · obtain ⟨net, -, hnet⟩ := mem_mapM hpl e he
    split at hnet
    · cases hnet
      exact ⟨rfl, rfl⟩
    · cases hnet

theorem policyExpandUnspec_ports :
    ∀ e ∈ policyExpandUnspec policy, ∃ p ∈ policy, e.prtMin = p.prtMin ∧ e.prtMax = p.prtMax := by
  intro e he
  obtain ⟨p, hp, he⟩ := List.mem_flatMap.mp he
  refine ⟨p, hp, ?_⟩
  split at he
  · rw [List.mem_singleton.mp he]
    exact ⟨rfl, rfl⟩
  · rcases List.mem_cons.mp he with rfl | he
    · exact ⟨rfl, rfl⟩
    · rw [List.mem_singleton.mp he]
      exact ⟨rfl, rfl⟩

theorem PortsOf.congr {p : AddrPolicy} (h : PortsOf tok p) (hports : e.prtMin = p.prtMin ∧ e.prtMax = p.prtMax) :
    PortsOf tok e := by
  unfold PortsOf
  rw [hports.1, hports.2]
  exact h

/-- An entry of a descriptor, before the expansion, is the parse of one of its tokens. -/
theorem descriptor_entry_parsed {entries : List (Option AddrPolicy)} {parsed : List AddrPolicy}
    (hentries : tokens.mapM routerAddExitPolicy = some entries) (hparsed : entries.mapM id = some parsed) :
    ∀ p ∈ parsed, ∃ tok ∈ tokens, ∃ flags, routerParseAddrPolicy tok flags = some (some p) := by
  intro p hp
  obtain ⟨r, hr, hrp⟩ := mem_mapM hparsed p hp
  obtain ⟨tok, htok, hadd⟩ := mem_mapM hentries r hr
  obtain ⟨newe, hnewe, hfilter⟩ := Option.map_eq_some_iff.mp hadd
  rw [show r = some p from hrp] at hfilter
  rw [(Option.filter_eq_some_iff.mp hfilter).1] at hnewe
  exact ⟨tok, htok, _, hnewe⟩

theorem torrc_entry_parsed {items : List (Option (Option AddrPolicy))}
    {entries : List (Option AddrPolicy)} (hitems : tokens.mapM torrcItem = some items)
    (hentries : items.mapM id = some entries) :
    ∀ p ∈ entries.filterMap id, ∃ tok ∈ tokens, ∃ flags, routerParseAddrPolicy tok flags = some (some p) := by
  intro p hp
  obtain ⟨r, hr, hrp⟩ := List.mem_filterMap.mp hp
  obtain ⟨item, hitem, hir⟩ := mem_mapM hentries r hr
  obtain ⟨tok, htok, hparse⟩ := mem_mapM hitems item hitem
  obtain ⟨newe, hnewe, hmap⟩ := Option.map_eq_some_iff.mp hparse
  rw [show item = some r from hir, show r = some p from hrp] at hmap
  obtain ⟨e, he, hif⟩ := Option.map_eq_some_iff.mp hmap
  split at hif
  · cases hif
  · cases hif
    rw [he] at hnewe
    exact ⟨tok, htok, _, hnewe⟩

theorem descriptorPolicy_ports
    (h : descriptorPolicy tokens = some (some policy)) : ∀ e ∈ policy, ∃ tok ∈ tokens, PortsOf tok e := by
  obtain ⟨entries, hentries, h⟩ := Option.bind_eq_some_iff.mp h
  intro e he
  split at h
  · cases h
  next parsed hparsed =>
    obtain ⟨expanded, hexp, hpolicy⟩ := Option.map_eq_some_iff.mp h
    cases hpolicy
    obtain ⟨p, hp, hports⟩ := policyExpandPrivate_ports hexp e he
    obtain ⟨tok, htok, flags, hparse⟩ := descriptor_entry_parsed hentries hparsed p hp
    exact ⟨tok, htok, PortsOf.congr (routerParseAddrPolicy_ports hparse) hports⟩

theorem torrcPolicy_ports
    (h : torrcPolicy tokens = some (some policy)) : ∀ e ∈ policy, ∃ tok ∈ tokens, PortsOf tok e := by
  obtain ⟨items, hitems, h⟩ := Option.bind_eq_some_iff.mp h
  intro e he
  split at h
  · cases h
  next entries hentries =>
    obtain ⟨expanded, hexp, hpolicy⟩ := Option.map_eq_some_iff.mp h
    cases hpolicy
    obtain ⟨q, hq, hports⟩ := policyExpandUnspec_ports e he
    obtain ⟨p, hp, hports'⟩ := policyExpandPrivate_ports hexp q hq
    obtain ⟨tok, htok, flags, hparse⟩ := torrc_entry_parsed hitems hentries p hp
    exact ⟨tok, htok, PortsOf.congr (PortsOf.congr (routerParseAddrPolicy_ports hparse) hports') hports⟩

/-! ## Prefixes of a parsed policy -/

theorem routerParseAddrPolicy_mask {flags : TapmpFlags}
    (h : routerParseAddrPolicy tok flags = some (some e)) : e.isPrivate = true ∨ MaskFits e.addr e.maskbits.toNat := by
  unfold routerParseAddrPolicy at h
  split at h
  · split at h
    next hpriv =>
      have h := Option.some.inj h
      rw [routerParseAddrPolicyPrivate, if_neg (not_not_intro hpriv)] at h
      obtain ⟨port, -, h⟩ := Option.bind_eq_some_iff.mp h
      obtain ⟨range, -, rfl⟩ := Option.map_eq_some_iff.mp h
      exact .inl rfl
    next =>
      obtain ⟨r, hr, hmatch⟩ := Option.map_eq_some_iff.mp h
      split at hmatch
      next addr maskbits prtMin prtMax =>
        cases hmatch
        obtain ⟨bits, lo, hi, hbits, -, hfits, -⟩ := torAddrParseMaskPorts_ok hr
        cases hbits
        exact .inr hfits
      · cases hmatch
  · cases h

/-- The private networks have prefixes of their families too. -/
theorem policyExpandPrivate_masks {policy' : List AddrPolicy} (h : policyExpandPrivate policy = some policy')
    (hmasks : ∀ p ∈ policy, p.isPrivate = true ∨ MaskFits p.addr p.maskbits.toNat) :
    ∀ e ∈ policy', MaskFits e.addr e.maskbits.toNat := by
  obtain ⟨ls, hls, rfl⟩ := Option.map_eq_some_iff.mp h
  intro e he
  obtain ⟨l, hl, he⟩ := List.mem_flatten.mp he
  obtain ⟨p, hp, hpl⟩ := mem_mapM hls l hl
  split at hpl
  next hpriv =>
    cases hpl
    rw [List.mem_singleton.mp he]
    exact (hmasks p hp).resolve_left hpriv
  next =>
    obtain ⟨net, -, hnet⟩ := mem_mapM hpl e he
    split at hnet
    next addr maskbits ports hparse =>
      cases hnet
      obtain ⟨bits, lo, hi, hbits, -, hfits, -⟩ := torAddrParseMaskPorts_ok hparse
      cases hbits
      exact hfits
    · cases hnet

theorem policyExpandUnspec_masks (hmasks : ∀ p ∈ policy, MaskFits p.addr p.maskbits.toNat) :
    ∀ e ∈ policyExpandUnspec policy, MaskFits e.addr e.maskbits.toNat := by
  intro e he
  obtain ⟨p, hp, he⟩ := List.mem_flatMap.mp he
  split at he
  · rw [List.mem_singleton.mp he]
    exact hmasks p hp
  · rcases List.mem_cons.mp he with rfl | he
    · exact Nat.zero_le _
    · rw [List.mem_singleton.mp he]
      exact Nat.zero_le _

theorem descriptorPolicy_masks
    (h : descriptorPolicy tokens = some (some policy)) : ∀ e ∈ policy, MaskFits e.addr e.maskbits.toNat := by
  obtain ⟨entries, hentries, h⟩ := Option.bind_eq_some_iff.mp h
  split at h
  · cases h
  next parsed hparsed =>
    obtain ⟨expanded, hexp, hpolicy⟩ := Option.map_eq_some_iff.mp h
    cases hpolicy
    refine policyExpandPrivate_masks hexp fun p hp => ?_
    obtain ⟨tok, -, flags, hparse⟩ := descriptor_entry_parsed hentries hparsed p hp
    exact routerParseAddrPolicy_mask hparse

theorem torrcPolicy_masks
    (h : torrcPolicy tokens = some (some policy)) : ∀ e ∈ policy, MaskFits e.addr e.maskbits.toNat := by
  obtain ⟨items, hitems, h⟩ := Option.bind_eq_some_iff.mp h
  split at h
  · cases h
  next entries hentries =>
    obtain ⟨expanded, hexp, hpolicy⟩ := Option.map_eq_some_iff.mp h
    cases hpolicy
    refine policyExpandUnspec_masks (policyExpandPrivate_masks hexp fun p hp => ?_)
    obtain ⟨tok, -, flags, hparse⟩ := torrc_entry_parsed hitems hentries p hp
    exact routerParseAddrPolicy_mask hparse

/-! ## When a summary fails -/

/-- The range from 1 to 0 splits the first item before its start. -/
theorem policySummarySplit_empty {items : List PolicySummaryItem} {f : Nat → UInt64 × Bool} (hpart : Partition items f) :
    policySummarySplit items 1 0 = none := by
  obtain ⟨hitems, -⟩ := hpart
  cases items with
  | nil => cases hitems
  | cons item rest =>
    obtain ⟨hfirst, hlast, -⟩ := hitems
    have hmin : item.prtMin = 1 := UInt16.toNat_inj.mp hfirst
    have hmax : item.prtMax ≠ 0 := fun e => by
      unfold lastPort at hlast
      rw [e] at hlast
      cases hlast
    have hskip : ∀ port : UInt16, port.toNat ≤ 1 → skipBelow (item :: rest) port 0 = some 0 := by
      intro port hport
      have heq : skipBelow ([] ++ item :: rest) port 0 = some ([] : List PolicySummaryItem).length :=
        skipBelow_eq (Nat.le_refl 0) nofun (Nat.le_trans hport hlast)
      exact heq
    have hsplit : policySummaryItemSplit item (0 + 1) = none := by
      rw [policySummaryItemSplit, if_neg]
      intro h
      have hle : item.prtMin ≤ 0 + 1 - 1 := h.1
      rw [hmin] at hle
      exact absurd hle (by decide)
    have hstart : startAt (item :: rest) 1 = some (item :: rest, 0) := by
      simp [startAt, hskip 1 (by decide), hmin]
    have hend : endAt (item :: rest) 0 0 = none := by
      rw [UInt16.zero_add] at hsplit
      simp [endAt, hskip 0 (by decide), hmax, splitItem, hsplit]
    simp [policySummarySplit, hstart, hend]

/-- The entry counts in a summary of the family, and its range is the one of a lone zero. -/
def Crashes (family : SaFamily) (e : AddrPolicy) : Prop :=
  torAddrFamily e.addr = family ∧ (e.prtMin = 1 ∧ e.prtMax = 0) ∧
    ((e.policyType = .ADDR_POLICY_ACCEPT ∧ e.maskbits = 0) ∨ (e.policyType = .ADDR_POLICY_REJECT ∧ isPrivateEntry e = false))

/-- One entry fails an assertion exactly if it counts and has no ports. -/
theorem policySummaryAddItem_none {summary : Summary} {f : Nat → UInt64 × Bool}
    (hpart : Partition summary.items f) (hports : PortsOk e.prtMin e.prtMax ∨ (e.prtMin = 1 ∧ e.prtMax = 0)) :
    (policySummaryAddItem summary e = none ↔ Crashes (torAddrFamily e.addr) e) ∧
      ∀ summary', policySummaryAddItem summary e = some summary' → ∃ f', Partition summary'.items f' := by
  rcases hports with hok | hempty
  · obtain ⟨summary', hs, hpart', -⟩ := policySummaryAddItem_spec hpart hok
    rw [hs]
    refine ⟨⟨nofun, fun h => ?_⟩, fun s' hs' => ⟨_, by cases hs'; exact hpart'⟩⟩
    obtain ⟨-, ⟨hmin, hmax⟩, -⟩ := h
    rw [hmin, hmax] at hok
    exact absurd hok (by decide)
  · have hsplit := policySummarySplit_empty hpart
    unfold policySummaryAddItem Crashes
    rw [isPrivateNet_eq]
    cases htype : e.policyType with
    | ADDR_POLICY_ACCEPT =>
      by_cases hbits : e.maskbits = 0
      · simp [hbits, hempty, policySummaryAccept, hsplit]
      · simp only [hbits, if_false]
        exact ⟨⟨nofun, fun h => by simp at h⟩, fun s' hs' => ⟨f, by cases hs'; exact hpart⟩⟩
    | ADDR_POLICY_REJECT =>
      cases hpriv : isPrivateEntry e with
      | true =>
        simp only [Bool.true_eq_false, and_false, or_false]
        exact ⟨⟨nofun, fun h => by simp at h⟩, fun s' hs' => ⟨f, by cases hs'; exact hpart⟩⟩
      | false => simp [hempty, policySummaryReject, hsplit]

/-- The ports of a parsed entry. -/
def ParsedPorts (e : AddrPolicy) : Prop := PortsOk e.prtMin e.prtMax ∨ (e.prtMin = 1 ∧ e.prtMax = 0)

theorem PortsOf.parsed (h : PortsOf tok e) : ParsedPorts e := by
  cases hzero : loneZero (tokenPort tok) with
  | false => exact .inl (h.1 hzero)
  | true => exact .inr (h.2 hzero)

/-- The loop over the entries fails exactly if one of them does, and it ends with a partition otherwise. -/
theorem summarizeEntries_parsed {family : SaFamily} (hports : ∀ e ∈ policy, ParsedPorts e)
    {summary : Summary} (hpart : ∃ f, Partition summary.items f) :
    let loop := policy.foldlM (fun summary p =>
      if torAddrFamily p.addr ≠ family then some summary else policySummaryAddItem summary p) summary
    (loop = none ↔ ∃ e ∈ policy, Crashes family e) ∧ ∀ s, loop = some s → ∃ f, Partition s.items f := by
  induction policy generalizing summary with
  | nil => exact ⟨by simp, fun s hs => by cases hs; exact hpart⟩
  | cons e policy ih =>
    obtain ⟨f, hf⟩ := hpart
    have ih := fun {s : Summary} => @ih (fun e' he' => hports e' (List.mem_cons_of_mem e he')) s
    intro loop
    have hloop : loop = (if torAddrFamily e.addr ≠ family then some summary else policySummaryAddItem summary e).bind _ :=
      List.foldlM_cons
    rw [hloop, List.exists_mem_cons_iff]
    by_cases hfam : torAddrFamily e.addr = family
    · subst hfam
      obtain ⟨hnone, hsome⟩ := policySummaryAddItem_none hf (hports e List.mem_cons_self)
      rw [if_neg (not_not_intro rfl), ← hnone]
      cases hs : policySummaryAddItem summary e with
      | none => simp
      | some summary' =>
        obtain ⟨ih1, ih2⟩ := ih (hsome summary' hs)
        rw [Option.bind_some]
        refine ⟨ih1.trans (by simp), ih2⟩
    · have hnot : ¬ Crashes family e := fun h => hfam h.1
      obtain ⟨ih1, ih2⟩ := ih ⟨f, hf⟩
      rw [if_pos hfam, Option.bind_some]
      refine ⟨ih1.trans (by simp [hnot]), ih2⟩

/-- A summary of parsed entries fails exactly if one of them has no ports and counts. -/
theorem policySummarize_none {family : SaFamily} (hports : ∀ e ∈ policy, ParsedPorts e) :
    policySummarize policy family = none ↔ ∃ e ∈ policy, Crashes family e := by
  obtain ⟨hnone, hsome⟩ : (summarizeEntries policy family = none ↔ ∃ e ∈ policy, Crashes family e) ∧
      ∀ s, summarizeEntries policy family = some s → ∃ f, Partition s.items f :=
    summarizeEntries_parsed hports ⟨_, policySummaryCreate_spec⟩
  rw [← hnone]
  cases hs : summarizeEntries policy family with
  | none => simp [policySummarize, summaryRanges, hs]
  | some summary =>
    obtain ⟨f, hf⟩ := hsome summary hs
    obtain ⟨rs, hrs, hok⟩ := mergeRanges_spec hf
    obtain ⟨result, hresult, -⟩ := summaryText_spec hok
    simp [policySummarize, summaryRanges, hs, hrs, hresult]

/-- An entry has the range from 1 to 0 exactly if its token has a lone zero. -/
theorem PortsOf.empty_iff (h : PortsOf tok e) :
    (e.prtMin = 1 ∧ e.prtMax = 0) ↔ loneZero (tokenPort tok) = true := by
  refine ⟨fun hempty => ?_, h.2⟩
  cases hzero : loneZero (tokenPort tok) with
  | true => rfl
  | false =>
    have hok := h.1 hzero
    rw [hempty.1, hempty.2] at hok
    exact absurd hok (by decide)

/-- The range of the port `0` ends before it starts, and the summary of the policy fails an assertion. -/
theorem port_zero_stops_the_summary :
    let policy : List AddrPolicy := [⟨.ADDR_POLICY_ACCEPT, false, 0, .inet 0, 1, 0⟩]
    torAddrParseMaskPorts "*:0".toList ⟨false, false, false⟩ true .range = some (some ⟨.inet 0, some 0, some (1, 0)⟩) ∧
      descriptorPolicy [⟨.K_ACCEPT, ["*:0".toList]⟩] = some (some policy) ∧
      ¬ PortsOk 1 0 ∧ policySummarize policy .AF_INET = none := by
  refine ⟨?_, ?_, ?_, ?_⟩
  · decide +kernel
  · decide +kernel
  · decide
  · decide +kernel

/-- An accepted pattern has a prefix of its family, and a range of ports exactly when its port is not a lone zero.
The summary fails a fatal assertion exactly when an entry that counts has a lone zero. -/
theorem parsed_policies_summarized (s : Text) (flags : TapmpFlags) (tokens : List PolicyToken) (family : SaFamily) :
    (∀ p : AddrPattern, torAddrParseMaskPorts s flags true .range = some (some p) →
      ∃ bits lo hi, p.maskbits = some bits ∧ p.ports = some (lo, hi) ∧
        ((PortsOk lo hi ∧ MaskFits p.addr bits.toNat) ↔ loneZero (patternPort s) = false)) ∧
    ∀ policy : List AddrPolicy,
      descriptorPolicy tokens = some (some policy) ∨ torrcPolicy tokens = some (some policy) →
      (∀ e ∈ policy, ∃ tok ∈ tokens, (e.prtMin = 1 ∧ e.prtMax = 0) ↔ loneZero (tokenPort tok) = true) ∧
      (policySummarize policy family ≠ none ↔ ∀ e ∈ policy, ¬ Crashes family e) ∧
      ((∀ tok ∈ tokens, loneZero (tokenPort tok) = false) →
        policySummarize policy family ≠ none ∧
        (family ≠ .AF_UNSPEC → policy.length < 2 ^ 32 →
          ∀ summary, summarizeEntries policy family = some summary → summary.bug = false)) := by
  refine ⟨fun p h => ?_, fun policy h => ?_⟩
  · obtain ⟨bits, lo, hi, hbits, hports, hfits, hok, -⟩ := torAddrParseMaskPorts_ok h
    exact ⟨bits, lo, hi, hbits, hports, (and_iff_left hfits).trans hok⟩
  · have hfrom : ∀ e ∈ policy, ∃ tok ∈ tokens, PortsOf tok e := h.elim descriptorPolicy_ports torrcPolicy_ports
    have hmasks : ∀ e ∈ policy, MaskFits e.addr e.maskbits.toNat := h.elim descriptorPolicy_masks torrcPolicy_masks
    have hparsed : ∀ e ∈ policy, ParsedPorts e := by
      intro e he
      obtain ⟨tok, -, hof⟩ := hfrom e he
      exact hof.parsed
    have hnone : policySummarize policy family ≠ none ↔ ∀ e ∈ policy, ¬ Crashes family e :=
      (not_congr (policySummarize_none hparsed)).trans (by simp)
    refine ⟨fun e he => ?_, hnone, fun hzero => ?_⟩
    · obtain ⟨tok, htok, hof⟩ := hfrom e he
      exact ⟨tok, htok, hof.empty_iff⟩
    · have hports : ∀ e ∈ policy, PortsOk e.prtMin e.prtMax := by
        intro e he
        obtain ⟨tok, htok, hof⟩ := hfrom e he
        exact hof.1 (hzero tok htok)
      refine ⟨hnone.mpr fun e he hcrash => ?_, fun hfamily hlen summary hsummary => ?_⟩
      · obtain ⟨-, ⟨hmin, hmax⟩, -⟩ := hcrash
        have hok := hports e he
        rw [hmin, hmax] at hok
        exact absurd hok (by decide)
      · exact summarizeEntries_no_bug hfamily hports hmasks hlen hsummary

/-- `accept *:80` and `reject *:*` of a descriptor. -/
theorem parsed_policies_summarized_of_web :
    let tokens : List PolicyToken := [⟨.K_ACCEPT, ["*:80".toList]⟩, ⟨.K_REJECT, ["*:*".toList]⟩]
    ∃ policy, descriptorPolicy tokens = some (some policy) ∧ policySummarize policy .AF_INET ≠ none := by
  intro tokens
  have h : descriptorPolicy tokens = some (some [⟨.ADDR_POLICY_ACCEPT, false, 0, .inet 0, 80, 80⟩,
      ⟨.ADDR_POLICY_REJECT, false, 0, .inet 0, 1, 65535⟩]) := by decide +kernel
  exact ⟨_, h, (((parsed_policies_summarized [] ⟨false, false, false⟩ tokens .AF_INET).2 _ (.inl h)).2.2 (by decide +kernel)).1⟩

end Badnet.Policies

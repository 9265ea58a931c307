/-
  Badnet.Nodelist.Routerset — sets of relays given by nicknames, fingerprints, address patterns and countries
  (`feature/nodelist/routerset.c`).

  A set keeps the entries it was parsed from next to what they stand for: two maps, a policy and a table of countries.
  An entry that is discarded is replaced by the last one of the list, which is looked at next; a set is the one of the
  entries that are kept (`routersetParse_spec`, `setOf`).
-/

import Badnet.Container.SplitString
import Badnet.Dirparse.Sri
import Badnet.Encoding.Base16
import Badnet.Lib.Intrusive
import Badnet.Policies.Definite
import Badnet.Policies.PolicyParse

namespace Badnet.Nodelist.Routersets

open Lib Encoding Dirparse Net Policies Container

/-! ## Names of relays -/

def HEX_DIGEST_LEN : Nat := 40

/-- `HEX_CHARACTERS`. -/
def isHexCharacter (c : Char) : Bool := ('0' ≤ c ∧ c ≤ '9') ∨ ('A' ≤ c ∧ c ≤ 'F') ∨ ('a' ≤ c ∧ c ≤ 'f')

/-- Without a `$` in front. -/
def skipDollar : Text → Text
  | '$' :: s => s
  | s => s

/-- The character after the digits says that a nickname follows. -/
def isQualifier (c : Char) : Bool := c = '=' ∨ c = '~'

def isLegalHexdigest (s : Text) : Bool :=
  let s := skipDollar s
  (if s.length > HEX_DIGEST_LEN then
      (s[HEX_DIGEST_LEN]?).any isQualifier && isLegalNickname (s.drop (HEX_DIGEST_LEN + 1))
    else true) &&
  (s.length ≥ HEX_DIGEST_LEN ∧ (s.takeWhile isHexCharacter).length = HEX_DIGEST_LEN)

/-- `none` is -1; the nickname that may follow is not looked at by the callers here. -/
def hexDigestNicknameDecode (hexdigest : Text) : Option (Bytes × Option Char) :=
  let s := skipDollar hexdigest
  if s.length < HEX_DIGEST_LEN then none
  else if s.length > HEX_DIGEST_LEN ∧ (s[HEX_DIGEST_LEN]?).any isQualifier ∧
      s.length ≤ HEX_DIGEST_LEN + 1 + MAX_NICKNAME_LEN then
    (base16Decode DIGEST_LEN (s.take HEX_DIGEST_LEN)).map fun d => (d, s[HEX_DIGEST_LEN]?)
  else if s.length = HEX_DIGEST_LEN then
    (base16Decode DIGEST_LEN (s.take HEX_DIGEST_LEN)).map fun d => (d, none)
  else none

def torStrlower (s : Text) : Text := s.map Char.toLower

/-- `strcasecmp` finds no difference. -/
def sameCase (a b : Text) : Bool := torStrlower a = torStrlower b

/-- `UNNAMED_ROUTER_NICKNAME`. -/
def unnamedRouterNickname : Text := "Unnamed".toList

/-- Digits are digits to the decoder too. -/
theorem hexDecodeDigit_isSome {c : Char} (h : isHexCharacter c = true) : (hexDecodeDigit c).isSome = true := by
  unfold isHexCharacter at h
  unfold hexDecodeDigit
  split
  · rfl
  · split
    · rfl
    · split
      · rfl
      · simp_all

theorem base16DecodeLoop_isSome {s : Text} (h : ∀ c ∈ s, isHexCharacter c = true) : (base16DecodeLoop s).isSome = true := by
  fun_induction base16DecodeLoop s with
  | case1 c1 c2 src ih =>
    obtain ⟨v1, h1⟩ := Option.isSome_iff_exists.mp (hexDecodeDigit_isSome (h c1 (by simp)))
    obtain ⟨v2, h2⟩ := Option.isSome_iff_exists.mp (hexDecodeDigit_isSome (h c2 (by simp)))
    obtain ⟨bytes, hb⟩ := Option.isSome_iff_exists.mp (ih fun c hc => h c (by simp [hc]))
    simp [h1, h2, hb]
  | case2 => rfl

theorem takeWhile_hex_isSome {s : Text} (h : (s.takeWhile isHexCharacter).length = HEX_DIGEST_LEN) :
    (base16Decode DIGEST_LEN (s.take HEX_DIGEST_LEN)).isSome = true := by
  have htake : s.take HEX_DIGEST_LEN = s.takeWhile isHexCharacter := by
    rw [← h]
    exact (List.prefix_iff_eq_take.mp (List.takeWhile_prefix _)).symm
  have hdigits : ∀ c ∈ s.take HEX_DIGEST_LEN, isHexCharacter c = true := by
    rw [htake]
    exact fun c hc => List.mem_takeWhile_imp hc
  have hlen : (s.take HEX_DIGEST_LEN).length = 40 := by
    rw [htake, h]
    rfl
  unfold base16Decode
  rw [hlen, if_neg (by decide), if_neg (by decide)]
  exact base16DecodeLoop_isSome hdigits

theorem hexdigest_decodes {s : Text} (h : isLegalHexdigest s = true) :
    (base16Decode DIGEST_LEN ((skipDollar s).take HEX_DIGEST_LEN)).isSome = true := by
  simp only [isLegalHexdigest, Bool.and_eq_true, decide_eq_true_eq] at h
  exact takeWhile_hex_isSome h.2.2

/-! ## Countries -/

/-- A loaded geoip database: the country codes in the order of their numbers, and the tables as a function. -/
structure Geoip where
  loaded4 : Bool
  countries : List Text
  /-- `geoip_get_country_by_addr` -/
  countryByAddr : TorAddr → Int

def noGeoip : Geoip := ⟨false, [], fun _ => -1⟩

variable (g : Geoip)

/-- The number of a country code; `none` is -1. -/
def Geoip.getCountry (country : Text) : Option Nat := g.countries.findIdx? (sameCase country)

/-- `routerset_get_countryname`. -/
def routersetGetCountryname (c : Text) : Option Text :=
  match c with
  | '{' :: c1 :: c2 :: '}' :: _ => some (torStrlower [c1, c2])
  | _ => none

/-! ## Sets -/

structure Routerset where
  list : List Text
  /-- the keys of `names`, in lower case -/
  names : List Text
  digests : List Bytes
  policies : List AddrPolicy
  countryNames : List Text
  /-- the bit array and its length -/
  countries : Option (List Bool)
  deriving DecidableEq

def routersetNew : Routerset := ⟨[], [], [], [], [], none⟩

/-- `routerset_refresh_countries` -/
def refreshCountries (countryNames : List Text) : Option (List Bool) :=
  if g.loaded4 then
    some (countryNames.foldl (fun bits country => (g.getCountry country).elim bits fun cc => bits.set cc true)
      (List.replicate g.countries.length false))
  else none

/-- What one element of the list stands for. -/
inductive Entry where
  | digest (d : Bytes)
  | name
  | country (cc : Text)
  | address (p : AddrPolicy)
  | malformed
  | ignored

variable (nick : Text)

def entryOf : Entry :=
  if h : isLegalHexdigest nick then .digest ((base16Decode DIGEST_LEN ((skipDollar nick).take HEX_DIGEST_LEN)).get (hexdigest_decodes h))
  else if isLegalNickname nick then .name
  else match routersetGetCountryname nick with
  | some cc => .country cc
  | none =>
    if '.' ∈ nick ∨ ':' ∈ nick ∨ '*' ∈ nick then
      match routerParseAddrPolicyItemFromString nick (some .ADDR_POLICY_REJECT) with
      | .entry p => .address p
      | .ignored => .ignored
      | .malformed => .malformed
    else .malformed

/-- The element is not taken out of the list. -/
def Kept : Prop :=
  match entryOf nick with
  | .malformed | .ignored => False
  | _ => True

instance (nick : Text) : Decidable (Kept nick) := by
  unfold Kept
  split <;> infer_instance

/-- One element that is kept. -/
def addEntry (set : Routerset) (nick : Text) : Routerset :=
  match entryOf nick with
  | .digest d => { set with digests := set.digests ++ [d] }
  | .name => { set with names := set.names ++ [torStrlower nick] }
  | .country cc => { set with countryNames := set.countryNames ++ [cc] }
  | .address p => { set with policies := set.policies ++ [p] }
  | .malformed | .ignored => set

/-- The loop from position `i` on, with `todo` elements to come: the list it leaves, the set, and whether an element
was malformed. -/
def parseLoop : (todo i : Nat) → List Text → Routerset → Bool → List Text × Routerset × Bool
  | 0, _, list, set, bad => (list, set, bad)
  | todo + 1, i, list, set, bad =>
    match list[i]? with
    | none => (list, set, bad)
    | some nick =>
      match entryOf nick with
      | .malformed => parseLoop todo i (swapRemove list i) set true
      | .ignored => parseLoop todo i (swapRemove list i) set bad
      | _ => parseLoop todo (i + 1) list (addEntry set nick) bad

/-- The result is the set and whether it is 0. -/
def routersetParse (target : Routerset) (s : Text) : Routerset × Bool :=
  let list := smartlistSplitString ',' s
  let (list, set, bad) := parseLoop list.length 0 list target false
  let set := { set with policies := policyExpandUnspec set.policies, list := set.list ++ list }
  let added := list.any fun nick => match entryOf nick with | .country _ => true | _ => false
  (if added then { set with countries := refreshCountries g set.countryNames } else set, !bad)

/-- `routerset_to_string`. -/
def routersetToString (set : Routerset) : Text := smartlistJoinStrings ',' set.list

def routersetUnion (target : Routerset) (source : Option Routerset) : Routerset :=
  match source with
  | none => target
  | some source => (routersetParse g target (routersetToString source)).1

def routersetIsList (set : Routerset) : Bool := set.countryNames.isEmpty && set.policies.isEmpty

/-! ## Membership -/

/-- `addr && compare_tor_addr_to_addr_policy(addr, orport, set->policies) == ADDR_POLICY_REJECTED` -/
def addrRejected (set : Routerset) (addr : Option TorAddr) (orport : UInt16) : Bool :=
  addr.any fun addr => compareTorAddrToAddrPolicy (some addr) orport (some set.policies) = .ADDR_POLICY_REJECTED

/-- The bit of a country; -1 is looked up by the address. -/
def countryListed (set : Routerset) (addr : Option TorAddr) (country : Int) : Bool :=
  set.countries.any fun bits =>
    let country := if country < 0 then addr.elim country g.countryByAddr else country
    decide (0 ≤ country) && (bits[country.toNat]?).getD false

variable (set : Option Routerset)

section

local instance text_lawfulBEq : LawfulBEq Text := inferInstance

def routersetContains2 (addr : Option TorAddr) (orport : UInt16) (addr2 : Option TorAddr) (orport2 : UInt16)
    (nickname : Option Text) (idDigest : Option Bytes) (country : Int) : Nat :=
  match set with
  | none => 0
  | some set =>
    if nickname.any fun nickname => torStrlower nickname ∈ set.names then 4
    else if idDigest.any fun idDigest => idDigest ∈ set.digests then 4
    else if addrRejected set addr orport then 3
    else if addrRejected set addr2 orport2 then 3
    else if countryListed g set addr country then 2
    else 0

end

def routersetContains (addr : Option TorAddr) (orport : UInt16) (nickname : Option Text) (idDigest : Option Bytes)
    (country : Int) : Nat :=
  routersetContains2 g set addr orport none 0 nickname idDigest country

structure RouterstatusT where
  nickname : Text
  identityDigest : BytesN DIGEST_LEN
  ipv4Addr : TorAddr
  ipv4Orport : UInt16
  legal : isLegalNickname nickname = true
  deriving DecidableEq

structure RouterinfoT where
  nickname : Text
  identityDigest : BytesN DIGEST_LEN
  ipv4Addr : TorAddr
  ipv4Orport : UInt16
  ipv6Addr : TorAddr
  ipv6Orport : UInt16
  legal : isLegalNickname nickname = true
  deriving DecidableEq

/-- An `extend_info_t`; a slot that is not used has a null address. -/
structure ExtendInfo where
  nickname : Text
  identityDigest : BytesN DIGEST_LEN
  orport0 : TorAddr × UInt16
  orport1 : TorAddr × UInt16

def routersetContainsExtendinfo (ei : ExtendInfo) : Nat :=
  let ap1 := if torAddrIsNull ei.orport0.1 then none else some ei.orport0
  let ap2 := if torAddrIsNull ei.orport1.1 then none else some ei.orport1
  routersetContains2 g set (ap1.map (·.1)) (ap1.elim 0 (·.2)) (ap2.map (·.1)) (ap2.elim 0 (·.2)) (some ei.nickname)
    (some ei.identityDigest.1) (-1)

def routersetContainsRouter (ri : RouterinfoT) (country : Int) : Nat :=
  routersetContains2 g set (some ri.ipv4Addr) ri.ipv4Orport (some ri.ipv6Addr) ri.ipv6Orport (some ri.nickname)
    (some ri.identityDigest.1) country

def routersetContainsRouterstatus (rs : RouterstatusT) (country : Int) : Nat :=
  routersetContains g set (some rs.ipv4Addr) rs.ipv4Orport (some rs.nickname) (some rs.identityDigest.1) country

/-- A `node_t` of the nodelist: it has a routerstatus or a routerinfo, and they are of its identity. -/
structure Node where
  identity : BytesN DIGEST_LEN
  rs : Option RouterstatusT
  ri : Option RouterinfoT
  country : Int
  isRunning : Bool
  usable : rs.isSome = true ∨ ri.isSome = true
  rsIdentity : ∀ r, rs = some r → r.identityDigest = identity
  riIdentity : ∀ r, ri = some r → r.identityDigest = identity
  deriving DecidableEq

def routersetContainsNode (node : Node) : Nat :=
  match node.rs, node.ri with
  | some rs, _ => routersetContainsRouterstatus g set rs node.country
  | none, some ri => routersetContainsRouter g set ri node.country
  | none, none => 0

/-! ## What a parse leaves -/

def Entry.digest? : Entry → Option Bytes
  | .digest d => some d
  | _ => none

def Entry.countryCode? : Entry → Option Text
  | .country cc => some cc
  | _ => none

def Entry.policy? : Entry → Option AddrPolicy
  | .address p => some p
  | _ => none

/-- The key in `names`. -/
def nameKey : Option Text :=
  match entryOf nick with
  | .name => some (torStrlower nick)
  | _ => none

variable (list : List Text)

/-- The set of the entries: what it holds is what they stand for. -/
def setOf : Routerset where
  list
  names := list.filterMap nameKey
  digests := list.filterMap fun nick => (entryOf nick).digest?
  policies := policyExpandUnspec (list.filterMap fun nick => (entryOf nick).policy?)
  countryNames := list.filterMap fun nick => (entryOf nick).countryCode?
  countries :=
    if list.any fun nick => (entryOf nick).countryCode?.isSome then
      refreshCountries g (list.filterMap fun nick => (entryOf nick).countryCode?)
    else none

theorem setOf_nil : setOf g [] = routersetNew := rfl

theorem foldl_addEntry (set : Routerset) : list.foldl addEntry set =
    { set with
      names := set.names ++ list.filterMap nameKey
      digests := set.digests ++ list.filterMap fun nick => (entryOf nick).digest?
      policies := set.policies ++ list.filterMap fun nick => (entryOf nick).policy?
      countryNames := set.countryNames ++ list.filterMap fun nick => (entryOf nick).countryCode? } := by
  induction list generalizing set with
  | nil => simp
  | cons nick list ih =>
    rw [List.foldl_cons, ih]
    unfold addEntry
    cases he : entryOf nick <;> simp [he, nameKey, Entry.digest?, Entry.policy?, Entry.countryCode?]

theorem kept_iff {nick : Text} : Kept nick ↔ entryOf nick ≠ .malformed ∧ entryOf nick ≠ .ignored := by
  unfold Kept
  cases entryOf nick <;> simp

/-- The loop keeps some of the elements to come, and adds these; all of them, if none is to be taken out. -/
theorem parseLoop_spec (todo : Nat) : ∀ (i : Nat) (list : List Text) (set : Routerset) (bad : Bool),
    i + todo = list.length → ∃ kept bad', parseLoop todo i list set bad = (list.take i ++ kept, kept.foldl addEntry set, bad') ∧
      (∀ nick ∈ kept, Kept nick ∧ nick ∈ list.drop i) ∧ ((∀ nick ∈ list.drop i, Kept nick) → kept = list.drop i ∧ bad' = bad) := by
  induction todo with
  | zero =>
    intro i list set bad hlen
    have hdrop : list.drop i = [] := List.drop_eq_nil_of_le (by omega)
    refine ⟨[], bad, ?_, by simp, fun _ => ⟨hdrop.symm, rfl⟩⟩
    rw [parseLoop, List.take_of_length_le (by omega)]
    simp
  | succ todo ih =>
    intro i list set bad hlen
    have hi : i < list.length := by omega
    have hget := List.getElem?_eq_getElem hi
    have hcons := List.drop_eq_getElem_cons hi
    have hremoved : ∀ b, ∃ kept bad', parseLoop todo i (swapRemove list i) set b =
        (list.take i ++ kept, kept.foldl addEntry set, bad') ∧ ∀ nick ∈ kept, Kept nick ∧ nick ∈ list.drop i := by
      intro b
      have hlast : list[list.length - 1]? = some list[list.length - 1] := List.getElem?_eq_getElem (by omega)
      have hrem : swapRemove list i = list.take i ++ (list[list.length - 1] :: list.drop (i + 1)).dropLast := by
        rw [swapRemove, hlast]
        dsimp only
        rw [List.set_eq_take_append_cons_drop, if_pos hi, List.dropLast_append_of_ne_nil (by simp)]
      have htake : (list.take i).length = i := List.length_take_of_le (by omega)
      have hlen' : i + todo = (swapRemove list i).length := by
        rw [hrem, List.length_append, htake, List.length_dropLast, List.length_cons, List.length_drop]
        omega
      obtain ⟨kept, bad', heq, hkept, -⟩ := ih i (swapRemove list i) set b hlen'
      refine ⟨kept, bad', ?_, fun nick hnick => ⟨(hkept nick hnick).1, ?_⟩⟩
      · rw [heq, hrem, List.take_left' htake]
      · have hmem := (hkept nick hnick).2
        rw [hrem, List.drop_left' htake] at hmem
        rcases List.mem_cons.mp (List.mem_of_mem_dropLast hmem) with rfl | hmem
        · exact List.mem_drop_iff_getElem.mpr ⟨list.length - 1 - i, by omega, by congr 1; omega⟩
        · rw [hcons]
          exact List.mem_cons_of_mem _ hmem
    by_cases hkept : Kept list[i]
    · have hadd : parseLoop (todo + 1) i list set bad = parseLoop todo (i + 1) list (addEntry set list[i]) bad := by
        obtain ⟨hmal, hign⟩ := kept_iff.mp hkept
        rw [parseLoop, hget]
        dsimp only
        cases he : entryOf list[i] <;> first | rfl | exact absurd he hmal | exact absurd he hign
      obtain ⟨kept, bad', heq, hmem, hall⟩ := ih (i + 1) list (addEntry set list[i]) bad (by omega)
      refine ⟨list[i] :: kept, bad', ?_, ?_, ?_⟩
      · rw [hadd, heq, List.foldl_cons, List.take_succ_eq_append_getElem hi, List.append_assoc]
        rfl
      · rw [hcons, List.forall_mem_cons]
        exact ⟨⟨hkept, List.mem_cons_self⟩, fun nick hnick => ⟨(hmem nick hnick).1, List.mem_cons_of_mem _ (hmem nick hnick).2⟩⟩
      · rw [hcons]
        intro h
        obtain ⟨-, hrest⟩ := List.forall_mem_cons.mp h
        obtain ⟨rfl, rfl⟩ := hall hrest
        exact ⟨rfl, rfl⟩
    · have hnot : ¬∀ nick ∈ list.drop i, Kept nick := by
        rw [hcons]
        exact fun h => hkept (h _ List.mem_cons_self)
      have hout : entryOf list[i] = .malformed ∨ entryOf list[i] = .ignored := by
        by_contra h
        rw [not_or] at h
        exact hkept (kept_iff.mpr h)
      rw [parseLoop, hget]
      dsimp only
      rcases hout with he | he <;> rw [he] <;> dsimp only
      · obtain ⟨kept, bad', heq, hmem⟩ := hremoved true
        exact ⟨kept, bad', heq, hmem, fun h => absurd h hnot⟩
      · obtain ⟨kept, bad', heq, hmem⟩ := hremoved bad
        exact ⟨kept, bad', heq, hmem, fun h => absurd h hnot⟩

theorem policyExpandUnspec_append (a b : List AddrPolicy) :
    policyExpandUnspec (policyExpandUnspec a ++ b) = policyExpandUnspec (a ++ b) := by
  have hidem : policyExpandUnspec (policyExpandUnspec a) = policyExpandUnspec a := by
    unfold policyExpandUnspec
    rw [List.flatMap_assoc]
    congr 1
    funext p
    by_cases hp : torAddrFamily p.addr = .AF_INET6 ∨ torAddrFamily p.addr = .AF_INET ∨ p.isPrivate = true
    · rw [if_pos hp, List.flatMap_singleton, if_pos hp]
    · rw [if_neg hp]
      rfl
  have happend : ∀ x y : List AddrPolicy, policyExpandUnspec (x ++ y) = policyExpandUnspec x ++ policyExpandUnspec y :=
    fun x y => List.flatMap_append
  rw [happend, happend, hidem]

/-- What the elements that are kept make of the set of others: the set of all of them. -/
theorem parse_setOf {list kept : List Text} : (let set := { kept.foldl addEntry (setOf g list) with
        policies := policyExpandUnspec (kept.foldl addEntry (setOf g list)).policies, list := list ++ kept }
      if (kept.any fun nick => (entryOf nick).countryCode?.isSome) then
        { set with countries := refreshCountries g set.countryNames } else set) = setOf g (list ++ kept) := by
  rw [foldl_addEntry]
  dsimp only [setOf]
  rw [policyExpandUnspec_append]
  simp only [List.filterMap_append, List.any_append]
  by_cases hadded : (kept.any fun nick => (entryOf nick).countryCode?.isSome) = true
  · rw [if_pos hadded, hadded, Bool.or_true, if_pos rfl]
  · have hnone : kept.filterMap (fun nick => (entryOf nick).countryCode?) = [] := by
      rw [List.filterMap_eq_nil_iff]
      intro nick hnick
      cases hc : (entryOf nick).countryCode? with
      | none => rfl
      | some cc => exact absurd (List.any_eq_true.mpr ⟨nick, hnick, by rw [hc]; rfl⟩) hadded
    rw [if_neg hadded, Bool.eq_false_iff.mpr hadded, Bool.or_false, hnone, List.append_nil]

theorem country_isSome :
    (match entryOf nick with | .country _ => true | _ => false) = (entryOf nick).countryCode?.isSome := by
  cases entryOf nick <;> rfl

/-- A parse adds the entries that it keeps; all of the list, if there is nothing to take out, and then the result is 0. -/
theorem routersetParse_spec (s : Text) :
    ∃ kept, (routersetParse g (setOf g list) s).1 = setOf g (list ++ kept) ∧
      (∀ nick ∈ kept, Kept nick ∧ nick ∈ smartlistSplitString ',' s) ∧
      ((∀ nick ∈ smartlistSplitString ',' s, Kept nick) →
        kept = smartlistSplitString ',' s ∧ (routersetParse g (setOf g list) s).2 = true) := by
  obtain ⟨kept, bad, heq, hkept, hall⟩ :=
    parseLoop_spec (smartlistSplitString ',' s).length 0 (smartlistSplitString ',' s) (setOf g list) false (Nat.zero_add _)
  have hresult : routersetParse g (setOf g list) s = (setOf g (list ++ kept), !bad) := by
    rw [← parse_setOf, routersetParse]
    simp only [heq, country_isSome, List.take_zero, List.nil_append]
    rw [foldl_addEntry]
    rfl
  rw [hresult]
  refine ⟨kept, rfl, hkept, fun h => ?_⟩
  obtain ⟨rfl, rfl⟩ := hall h
  exact ⟨rfl, rfl⟩

/-- One entry that is cut out as it is. -/
theorem routersetParse_piece {nick : Text} (hpiece : Piece ',' nick) (hkept : Kept nick) :
    routersetParse g routersetNew nick = (setOf g [nick], true) := by
  obtain ⟨kept, hset, -, hall⟩ := routersetParse_spec g [] nick
  rw [split_piece hpiece] at hall
  obtain ⟨rfl, hret⟩ := hall (by simp [hkept])
  exact Prod.ext hset hret

/-! ## What makes a member -/

section
variable {g : Geoip} {set : Routerset}

theorem contains2_ne_zero {addr addr2 : Option TorAddr} {orport orport2 : UInt16} {nickname : Option Text}
    {idDigest : Option Bytes} {country : Int} :
    routersetContains2 g (some set) addr orport addr2 orport2 nickname idDigest country ≠ 0 ↔
      (∃ n, nickname = some n ∧ torStrlower n ∈ set.names) ∨ (∃ d, idDigest = some d ∧ d ∈ set.digests) ∨
        addrRejected set addr orport = true ∨ addrRejected set addr2 orport2 = true ∨
          countryListed g set addr country = true := by
  have hname : (nickname.any fun nickname => decide (torStrlower nickname ∈ set.names)) = true ↔
      ∃ n, nickname = some n ∧ torStrlower n ∈ set.names := by
    cases nickname <;> simp
  have hid : (idDigest.any fun idDigest => decide (idDigest ∈ set.digests)) = true ↔
      ∃ d, idDigest = some d ∧ d ∈ set.digests := by
    cases idDigest <;> simp
  rw [← hname, ← hid, routersetContains2]
  split
  next h => simp [h]
  next h =>
    split
    next h' => simp [h']
    next h' =>
      split
      next h'' => simp [h'']
      next h'' =>
        split
        next h3 => simp [h3]
        next h3 =>
          split
          next h4 => simp [h4]
          next h4 => simp [h, h', h'', h3, h4]

/-- The node's routerstatus is asked, or its routerinfo. -/
theorem containsNode_cases (node : Node) :
    (∃ rs, node.rs = some rs ∧ ∀ set, routersetContainsNode g set node = routersetContainsRouterstatus g set rs node.country) ∨
      node.rs = none ∧ ∃ ri, node.ri = some ri ∧
        ∀ set, routersetContainsNode g set node = routersetContainsRouter g set ri node.country := by
  cases hrs : node.rs with
  | some rs =>
    refine .inl ⟨rs, rfl, fun set => ?_⟩
    simp only [routersetContainsNode, hrs]
  | none =>
    cases hri : node.ri with
    | some ri =>
      refine .inr ⟨rfl, ri, rfl, fun set => ?_⟩
      simp only [routersetContainsNode, hrs, hri]
    | none =>
      have husable := node.usable
      rw [hrs, hri] at husable
      simp at husable

theorem containsNode_of_identity {node : Node} (h : node.identity.1 ∈ set.digests) :
    routersetContainsNode g (some set) node ≠ 0 := by
  rcases containsNode_cases (g := g) node with ⟨rs, hrs, heq⟩ | ⟨-, ri, hri, heq⟩ <;> rw [heq]
  · refine contains2_ne_zero.mpr (.inr (.inl ⟨rs.identityDigest.1, rfl, ?_⟩))
    rw [node.rsIdentity rs hrs]
    exact h
  · refine contains2_ne_zero.mpr (.inr (.inl ⟨ri.identityDigest.1, rfl, ?_⟩))
    rw [node.riIdentity ri hri]
    exact h

/-- `node_get_nickname` -/
def nodeGetNickname (node : Node) : Option Text :=
  match node.rs, node.ri with
  | some rs, _ => some rs.nickname
  | none, some ri => some ri.nickname
  | none, none => none

theorem containsNode_of_name {node : Node} {nick : Text} (hnick : nodeGetNickname node = some nick)
    (h : torStrlower nick ∈ set.names) : routersetContainsNode g (some set) node ≠ 0 := by
  unfold nodeGetNickname at hnick
  rcases containsNode_cases (g := g) node with ⟨rs, hrs, heq⟩ | ⟨hrs, ri, hri, heq⟩ <;> rw [heq]
  · simp only [hrs] at hnick
    obtain rfl := Option.some.inj hnick
    exact contains2_ne_zero.mpr (.inl ⟨rs.nickname, rfl, h⟩)
  · simp only [hrs, hri] at hnick
    obtain rfl := Option.some.inj hnick
    exact contains2_ne_zero.mpr (.inl ⟨ri.nickname, rfl, h⟩)

end

end Badnet.Nodelist.Routersets

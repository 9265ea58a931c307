/-
  Badnet.Client.Addressmap — the rewriting of addresses at a client (`feature/client/addressmap.c`).

  An entry of the address map is for one address, or for all addresses below a domain as well (`srcWildcard`); of the
  latter it may replace the domain only (`dstWildcard`). The matcher of suffixes cuts the address at the dot when it
  finds an entry that replaces the domain.
-/

import Badnet.Net.Address
import Badnet.Net.AddrText

namespace Badnet.Client

open Encoding Net

/-! ## Entries -/

inductive AddressmapEntrySource where
  | CONTROLLER
  | AUTOMAP
  | TORRC
  | TRACKEXIT
  | DNS
  | NONE
  deriving DecidableEq

/-- An entry without a new address is of a resolve that is not over; `expires` is 0 for an entry of the configuration
    and 1 for one of a controller. -/
structure AddressmapEntry where
  newAddress : Option Text
  expires : Int
  source : AddressmapEntrySource
  srcWildcard : Bool
  dstWildcard : Bool
  deriving DecidableEq

abbrev Addressmap := Text → Option AddressmapEntry

def TIME_MAX : Int := 9223372036854775807

/-! ## Strings -/

def torStrlower (s : Text) : Text := s.map Char.toLower

/-- `strcasecmp` finds no difference. -/
def sameCase (a b : Text) : Bool := decide (torStrlower a = torStrlower b)

/-- To a buffer of `siz` bytes. -/
def strlcpy (dst src : Text) (siz : Nat) : Text := if siz = 0 then dst else src.take (siz - 1)

def strlcat (dst src : Text) (siz : Nat) : Text := if siz ≤ dst.length then dst else dst ++ src.take (siz - dst.length - 1)

/-- `strcmpend` finds no difference. -/
def endsWith (s suffix : Text) : Bool := suffix.isSuffixOf s

/-! ## Rewriting -/

structure AmrFlags where
  useIpv4Dns : Bool
  useIpv6Dns : Bool
  useMapaddress : Bool
  useAutomap : Bool
  useTrackexit : Bool

/-- Goes through the dots of `cp`; `before` is what stands before it in the buffer. -/
def superdomainsFrom (map : Addressmap) (before : Text) : Text → Option AddressmapEntry × Text
  | [] => (none, before)
  | c :: cp =>
    if c = '.' then
      match map (torStrlower cp) with
      | some val =>
        if val.srcWildcard then (some val, if val.dstWildcard then before else before ++ c :: cp)
        else superdomainsFrom map (before ++ [c]) cp
      | none => superdomainsFrom map (before ++ [c]) cp
    else superdomainsFrom map (before ++ [c]) cp

variable (map : Addressmap)

/-- The entry, and what is in the buffer then. -/
def addressmapMatchSuperdomains (address : Text) : Option AddressmapEntry × Text :=
  superdomainsFrom map [] address

variable (flags : AmrFlags)

/-- Whether the flags let a mapping be used. -/
def mappingAllowed (source : AddressmapEntrySource) (newAddress : Text) : Bool :=
  match source with
  | .DNS =>
    let f := (torAddrParse newAddress).map torAddrFamily
    if f = some .AF_INET ∧ ¬ flags.useIpv4Dns then false
    else if f = some .AF_INET6 ∧ ¬ flags.useIpv6Dns then false
    else true
  | .CONTROLLER => flags.useMapaddress
  | .TORRC => flags.useMapaddress
  | .AUTOMAP => flags.useAutomap
  | .TRACKEXIT => flags.useTrackexit
  | .NONE => false

/-- What one turn of the loop makes of the buffer. -/
inductive RewriteTurn where
  | done (address : Text)
  | rewritten (address : Text) (ent : AddressmapEntry)
  deriving DecidableEq

variable (maxlen : Nat) (address : Text)

/-- An entry was found, and the buffer is as the search left it. -/
def applyEntry (ent : AddressmapEntry) (exactMatch : Bool) : RewriteTurn :=
  match ent.newAddress with
  | none => .done address
  | some newAddress =>
    if !mappingAllowed flags ent.source newAddress then .done address
    else if ent.dstWildcard && !exactMatch then .rewritten (strlcat (strlcat address ['.'] maxlen) newAddress maxlen) ent
    else .rewritten (strlcpy address newAddress maxlen) ent

/-- No entry under the address itself is for it. -/
def rewriteBySuperdomain : RewriteTurn :=
  match addressmapMatchSuperdomains map address with
  | (none, address) => .done address
  | (some ent, address) => applyEntry flags maxlen address ent false

def rewriteOnce : RewriteTurn :=
  match map address with
  | none => rewriteBySuperdomain map flags maxlen address
  | some ent =>
    match ent.newAddress with
    | none => rewriteBySuperdomain map flags maxlen address
    | some newAddress =>
      -- "rewrite *.example.com to example.com", for "example.com"
      if ent.srcWildcard && !ent.dstWildcard && sameCase address newAddress then .done address
      else applyEntry flags maxlen address ent true

/-- The buffer, the number of rewrites, and what is returned besides. -/
structure Rewriting where
  address : Text
  rewrites : Nat
  expires : Int
  exitSource : AddressmapEntrySource
  deriving DecidableEq

def Rewriting.byEntry (st : Rewriting) (addrOrig address : Text) (ent : AddressmapEntry) : Rewriting where
  address
  rewrites := st.rewrites + 1
  expires := if ent.expires > 1 ∧ ent.expires < st.expires then ent.expires else st.expires
  exitSource :=
    if endsWith address ".exit".toList ∧ ¬ endsWith addrOrig ".exit".toList ∧ st.exitSource = .NONE then ent.source
    else st.exitSource

/-- The turns of the loop that are left. -/
def rewriteLoop (map : Addressmap) (flags : AmrFlags) (maxlen : Nat) (addrOrig : Text) : Nat → Rewriting → Rewriting
  | 0, st => st
  | n + 1, st =>
    match rewriteOnce map flags maxlen st.address with
    | .done address => { st with address }
    | .rewritten address ent => rewriteLoop map flags maxlen addrOrig n (st.byEntry addrOrig address ent)

def addressmapRewrite : Rewriting :=
  rewriteLoop map flags maxlen address 16 ⟨address, 0, TIME_MAX, .NONE⟩

/-- What the function returns. -/
def Rewriting.changed (st : Rewriting) : Bool := decide (st.rewrites > 0)

end Badnet.Client

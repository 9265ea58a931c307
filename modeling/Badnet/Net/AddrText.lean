/-
  Badnet.Net.AddrText — addresses and destinations as texts (`lib/net/inaddr.c`, `lib/net/address.c`).

  `tor_addr_to_str` prints an address, `tor_addr_parse` reads one, and `string_is_valid_dest` is what a client may ask
  for. The text of an IPv4 address is a destination and is read back (`stringIsValidDest_ntoa`, `torAddrParse_ntoa`).
-/

import Badnet.Net.Inaddr

namespace Badnet.Net

open Encoding

/-! ## Printing -/

def addrWords (addr : Vector UInt8 16) : List Nat :=
  (List.finRange 8).map fun i => addr[2 * i.val].toNat * 256 + addr[2 * i.val + 1].toNat

/-- The first of the longest runs of zero words from position `i` on that is longer than `best`, as its position and
    its length. -/
def longestGap (i : Nat) (best : Nat × Nat) : List Nat → Nat × Nat
  | [] => best
  | w :: words =>
    if w = 0 then
      let len := 1 + (words.takeWhile (· = 0)).length
      longestGap (i + len) (if len > best.2 then (i, len) else best) (words.dropWhile (· = 0))
    else longestGap (i + 1) best words
termination_by words => words.length
decreasing_by
  · exact Nat.lt_succ_of_le (List.dropWhile_suffix _).length_le
  · exact Nat.lt_succ_self _

/-- The words from position `i` on, with the run of zeros at `gap` left out. -/
def formatWords (gap : Option Nat) (i : Nat) : List Nat → Text
  | [] => []
  | w :: words =>
    if w = 0 ∧ gap = some i then
      (if i = 0 then [':'] else []) ++
        ':' :: formatWords gap (i + 1 + (words.takeWhile (· = 0)).length) (words.dropWhile (· = 0))
    else Nat.toDigits 16 w ++ (if i ≠ 7 then [':'] else []) ++ formatWords gap (i + 1) words
termination_by words => words.length
decreasing_by
  · exact Nat.lt_succ_of_le (List.dropWhile_suffix _).length_le
  · exact Nat.lt_succ_self _

/-- `tor_inet_ntop` for `AF_INET6`. -/
def torInetNtop6 (addr : Vector UInt8 16) : Text :=
  let words := addrWords addr
  let dotted := torInetNtoa (torAddrToMappedIpv4h addr)
  if words.take 5 = [0, 0, 0, 0, 0] ∧
      (words[5]? = some 0 ∧ words[6]? ≠ some 0 ∧ words[7]? ≠ some 0 ∨ words[5]? = some 0xffff) then
    if words[5]? = some 0 then ':' :: ':' :: dotted else ':' :: ':' :: (Nat.toDigits 16 0xffff ++ ':' :: dotted)
  else
    let (pos, len) := longestGap 0 (0, 0) words
    formatWords (if len ≤ 1 then none else some pos) 0 words

/-- Into a buffer that is long enough for any address. -/
def torAddrToStr (addr : TorAddr) (decorate : Bool) : Option Text :=
  match addr with
  | .unspec => none
  | .inet a => some (torInetNtoa a)
  | .inet6 a => some (if decorate then '[' :: (torInetNtop6 a ++ [']']) else torInetNtop6 a)

example : torAddrToStr (.inet6 #v[0xfe, 0x80, 0, 0, 0, 0, 0, 1, 0, 0, 0, 0, 0, 0, 0, 2]) true = some "[fe80:0:0:1::2]".toList := by
  decide +kernel

/-! ## Reading -/

variable (s : Text)

/-- The text in square brackets, if it is in some. -/
def inBrackets : Option Text :=
  if s.head? = some '[' ∧ s.getLast? = some ']' then some s.tail.dropLast else none

/-- IPv6 with or without brackets, IPv4 without. -/
def torAddrParse (src : Text) : Option TorAddr :=
  match inBrackets src with
  | some inside => (torInetPton6 inside).map .inet6
  | none => ((torInetAton src).map .inet).or ((torInetPton6 src).map .inet6)

def stringIsValidIpv4Address : Bool := (torInetAton s).isSome

def stringIsValidIpv6Address : Bool := (torInetPton6 s).isSome

/-- `TOR_ISALNUM` -/
def isAlnum (c : Char) : Bool := c.isDigit ∨ ('a' ≤ c ∧ c ≤ 'z') ∨ ('A' ≤ c ∧ c ≤ 'Z')

/-- A label does not start with a hyphen or an underscore; an empty one is refused by the first turn of the loop. -/
def validLabel (label : Text) : Bool :=
  label ≠ [] ∧ label.head? ≠ some '-' ∧ label.head? ≠ some '_' ∧ label.all fun c => isAlnum c ∨ c = '-' ∨ c = '_'

/-- One dot at the end is allowed. -/
def stringIsValidNonrfcHostname : Bool :=
  if s = [] then false
  else if stringIsValidIpv4Address s then false
  else
    let components := s.splitOn '.'
    (if components.getLast? = some [] then components.dropLast else components).all validLabel

def stringIsValidDest : Bool :=
  if s = [] then false
  else
    let s := (inBrackets s).getD s
    stringIsValidIpv4Address s || stringIsValidIpv6Address s || stringIsValidNonrfcHostname s

variable (a : UInt32)

theorem inBrackets_ntoa : inBrackets (torInetNtoa a) = none := by
  refine if_neg fun h => ?_
  obtain ⟨c, digits, hdigits⟩ := List.exists_cons_of_ne_nil (decimal_ne_nil (octet a 3))
  have hhead : (torInetNtoa a).head? = some c := by
    rw [torInetNtoa, hdigits]
    rfl
  have hc : c.isDigit = true := isDigit_decimal c (hdigits ▸ List.mem_cons_self)
  rw [hhead] at h
  cases h.1
  cases hc

theorem stringIsValidDest_ntoa : stringIsValidDest (torInetNtoa a) = true := by
  have hne : torInetNtoa a ≠ [] := by simp [torInetNtoa]
  simp [stringIsValidDest, hne, inBrackets_ntoa, stringIsValidIpv4Address, torInetAton_ntoa]

theorem torAddrParse_ntoa : torAddrParse (torInetNtoa a) = some (.inet a) := by
  simp [torAddrParse, inBrackets_ntoa, torInetAton_ntoa]

end Badnet.Net

/-
  Badnet.Net.AddrPort — an address and a port in one text (`tor_addr_port_split` and `tor_addr_port_parse` of
  `lib/net/address.c`).

  A text that is an IPv6 address by itself has no port. In any other text the port stands behind the last colon, and the
  address before it needs its brackets. An address that is printed with brackets and its port is read back
  (`torAddrPortParse_fmt`).
-/

import Mathlib.Data.List.DropRight
import Badnet.Net.PtrName

namespace Badnet.Net

open Encoding Lib

/-- `tor_addr_parse_impl`. -/
def torAddrParseImpl (src : Text) (allowIpv6WithoutBrackets : Bool) : Option TorAddr :=
  match inBrackets src with
  | some inside => (torInetPton6 inside).map .inet6
  | none =>
    ((torInetAton src).map .inet).or (if allowIpv6WithoutBrackets then (torInetPton6 src).map .inet6 else none)

/-- The text before the last colon, and the one behind it (`strrchr`). -/
def splitLastColon (s : Text) : Option (Text × Text) :=
  if ':' ∈ s then some ((s.rdropWhile (· ≠ ':')).dropLast, s.rtakeWhile (· ≠ ':')) else none

/-- Port 0 when there is none. -/
def torAddrPortSplit (addrport : Text) : Option (Text × UInt16) :=
  if (torAddrParse addrport).any fun a => torAddrFamily a = .AF_INET6 then some (addrport, 0)
  else
    match splitLastColon addrport with
    | none => some (addrport, 0)
    | some (address, port) => (torParseLong port 1 65535).map fun p => (address, UInt16.ofNat p.toNat)

/-- Without a default, for a `defaultPort` below 0, the text needs a port. -/
def torAddrPortParse (addrport : Text) (defaultPort : Int) : Option (TorAddr × UInt16) := do
  let (address, port) ← torAddrPortSplit addrport
  let hasPort := decide (port ≠ 0)
  if !hasPort ∧ defaultPort < 0 then none
  let addr ← torAddrParseImpl address (!hasPort)
  return (addr, if hasPort then port else UInt16.ofNat defaultPort.toNat)

/-- `fmt_and_decorate_addr`. -/
def fmtAndDecorateAddr (addr : TorAddr) : Text := (torAddrToStr addr true).getD ['?', '?', '?']

/-- `fmt_addrport`, "%s:%u". -/
def fmtAddrport (addr : TorAddr) (port : UInt16) : Text := fmtAndDecorateAddr addr ++ ':' :: decimal port.toNat

example : torAddrPortParse "[fe80::1]:9001".toList (-1) = some (.inet6 #v[0xfe, 0x80, 0, 0, 0, 0, 0, 0, 0, 0, 0, 0, 0, 0, 0, 1], 9001) := by
  decide +kernel

/-! ## The last colon -/

theorem splitLastColon_eq (front : Text) {digits : Text} (h : ∀ c ∈ digits, c.isDigit = true) :
    splitLastColon (front ++ ':' :: digits) = some (front, digits) := by
  have hdigits : ∀ c ∈ digits.reverse, decide (c ≠ ':') = true := by
    intro c hc
    refine decide_eq_true fun he => ?_
    have hdigit := h c (List.mem_reverse.mp hc)
    rw [he] at hdigit
    exact absurd hdigit (by decide)
  have hcolon : ∀ c ∈ (':' :: front.reverse).head?, decide (c ≠ ':') = false := by
    intro c hc
    cases hc
    rfl
  have hrev : (front ++ ':' :: digits).reverse = digits.reverse ++ ':' :: front.reverse := by
    rw [List.reverse_append, List.reverse_cons, List.append_assoc]
    rfl
  have hfront : (front ++ ':' :: digits).rdropWhile (· ≠ ':') = front ++ [':'] := by
    rw [List.rdropWhile, hrev, dropWhile_run hdigits hcolon, List.reverse_cons, List.reverse_reverse]
  have hback : (front ++ ':' :: digits).rtakeWhile (· ≠ ':') = digits := by
    rw [List.rtakeWhile, hrev, takeWhile_run hdigits hcolon, List.reverse_reverse]
  rw [splitLastColon, if_pos (List.mem_append_right _ List.mem_cons_self), hfront, hback, List.dropLast_concat]

/-! ## A text with a port is no IPv6 address -/

theorem readWords_bracket (s : Words) (rest : Text) : readWords s ('[' :: rest) = none := by
  have hx : isXDigit '[' = false := by decide
  rw [readWords]
  simp [hx]

theorem torInetPton6_of_split {t : Text} (h : ∀ words dotted, splitDotted t = some (words, dotted) →
    readWords ⟨[], none⟩ words = none) : torInetPton6 t = none := by
  unfold torInetPton6
  by_cases hend : t.length > 2 ∧ t.getLast? = some ':' ∧ t.dropLast.getLast? ≠ some ':'
  · rw [if_pos hend]
    rfl
  rw [if_neg hend]
  by_cases hdot : t.head? = some '.'
  · rw [if_pos hdot]
    rfl
  rw [if_neg hdot]
  cases hsplit : splitDotted t with
  | none => rfl
  | some parts =>
    have hread := h parts.1 parts.2 hsplit
    simp only [Option.bind_eq_bind, Option.bind_some, hread, Option.bind_none]

/-- The words are the whole text, or what stands up to a colon before the dotted address. -/
theorem splitDotted_front {src front : Text} {dotted : List Nat} (h : splitDotted src = some (front, dotted)) :
    front <+: src ∧ (front = src ∨ front.getLast? = some ':') := by
  unfold splitDotted at h
  simp only at h
  split at h
  · cases h
    exact ⟨List.prefix_rfl, .inl rfl⟩
  split at h
  · cases h
  next hcolon =>
    obtain ⟨scanned, -, hpair⟩ := Option.map_eq_some_iff.mp h
    cases hpair
    have hsuffix := List.reverse_prefix.mpr (List.dropWhile_suffix (l := (src.takeWhile (· ≠ '.')).reverse) Char.isDigit)
    rw [List.reverse_reverse] at hsuffix
    exact ⟨hsuffix.trans (List.takeWhile_prefix _), .inr (not_not.mp hcolon)⟩

theorem torInetPton6_bracket (rest : Text) : torInetPton6 ('[' :: rest) = none := by
  refine torInetPton6_of_split fun words dotted hsplit => ?_
  obtain ⟨hfront, hwords⟩ := splitDotted_front hsplit
  cases words with
  | nil => rcases hwords with h | h <;> cases h
  | cons c words =>
    obtain ⟨tail, htail⟩ := hfront
    cases htail
    exact readWords_bracket _ _

/-- A dotted address at the start is not behind a colon. -/
theorem splitDotted_decimal (n : Nat) (rest : Text) : splitDotted (decimal n ++ '.' :: rest) = none := by
  have hdigits : ∀ c ∈ decimal n, decide (c ≠ '.') = true := by
    intro c hc
    exact decide_eq_true fun he => dot_notMem_decimal n (he ▸ hc)
  have hdot : ∀ c ∈ ('.' :: rest).head?, decide (c ≠ '.') = false := by
    intro c hc
    cases hc
    rfl
  have hne : decimal n ≠ decimal n ++ '.' :: rest := by
    intro he
    have hlen := congrArg List.length he
    rw [List.length_append, List.length_cons] at hlen
    omega
  have hnone : (decimal n).reverse.dropWhile Char.isDigit = [] :=
    List.dropWhile_eq_nil_iff.mpr fun c hc => isDigit_decimal c (List.mem_reverse.mp hc)
  unfold splitDotted
  simp only
  rw [takeWhile_run hdigits hdot, if_neg hne, hnone]
  rfl

theorem torInetPton6_decimal (n : Nat) (rest : Text) : torInetPton6 (decimal n ++ '.' :: rest) = none := by
  refine torInetPton6_of_split fun words dotted hsplit => ?_
  rw [splitDotted_decimal] at hsplit
  cases hsplit

section
variable {addr : TorAddr} {port : UInt16}

theorem fmtAddrport_inet (a : UInt32) : fmtAddrport (.inet a) port = torInetNtoa a ++ ':' :: decimal port.toNat := rfl

/-- The last character is one of the port. -/
theorem inBrackets_addrport (addr : TorAddr) (port : UInt16) : inBrackets (fmtAddrport addr port) = none := by
  refine if_neg fun h => ?_
  have hne : decimal port.toNat ≠ [] := decimal_ne_nil _
  have hlast : (fmtAddrport addr port).getLast? = (decimal port.toNat).getLast? := by
    rw [fmtAddrport, List.getLast?_append, List.getLast?_cons, List.getLast?_eq_some_getLast hne]
    rfl
  rw [hlast] at h
  exact absurd (isDigit_decimal _ (List.mem_of_getLast? h.2)) (by decide)

theorem fmtAddrport_not_inet6 (haddr : addr ≠ .unspec) :
    (torAddrParse (fmtAddrport addr port)).any (fun a => torAddrFamily a = .AF_INET6) = false := by
  have hcolon : ':' ∈ fmtAddrport addr port := List.mem_append_right _ List.mem_cons_self
  have hpton : torInetPton6 (fmtAddrport addr port) = none := by
    cases addr with
    | unspec => exact absurd rfl haddr
    | inet a =>
      rw [fmtAddrport_inet, torInetNtoa, List.append_assoc]
      exact torInetPton6_decimal _ _
    | inet6 a => exact torInetPton6_bracket _
  rw [torAddrParse, inBrackets_addrport, torInetAton_colon hcolon, hpton]
  rfl

/-- The address is read from its text as it is printed here: with brackets if it needs them. -/
theorem torAddrParseImpl_fmt (haddr : addr ≠ .unspec) : torAddrParseImpl (fmtAndDecorateAddr addr) false = some addr := by
  cases addr with
  | unspec => exact absurd rfl haddr
  | inet a =>
    have htext : fmtAndDecorateAddr (.inet a) = torInetNtoa a := rfl
    simp [htext, torAddrParseImpl, inBrackets_ntoa, torInetAton_ntoa]
  | inet6 a =>
    have htext : fmtAndDecorateAddr (.inet6 a) = '[' :: (torInetNtop6 a ++ [']']) := rfl
    have hinside : inBrackets ('[' :: (torInetNtop6 a ++ [']'])) = some (torInetNtop6 a) := by
      rw [inBrackets, if_pos ⟨rfl, by rw [← List.cons_append, List.getLast?_concat]⟩, List.tail_cons, List.dropLast_concat]
    rw [htext, torAddrParseImpl, hinside]
    simp only [torInetPton6_ntop6, Option.map_some]

theorem torAddrPortParse_fmt (haddr : addr ≠ .unspec) (hport : port ≠ 0) (defaultPort : Int) :
    torAddrPortParse (fmtAddrport addr port) defaultPort = some (addr, port) := by
  have hpos : 1 ≤ port.toNat := Nat.pos_of_ne_zero fun h => hport (UInt16.toNat_inj.mp h)
  have hlt := port.toNat_lt
  have hnumber : torParseLong (decimal port.toNat) 1 65535 = some (port.toNat : Int) :=
    torParseLong_decimal_from (by omega) (by omega) (by unfold LONG_MAX; omega)
  have hsplit : torAddrPortSplit (fmtAddrport addr port) = some (fmtAndDecorateAddr addr, port) := by
    rw [torAddrPortSplit, fmtAddrport_not_inet6 haddr, fmtAddrport, splitLastColon_eq _ isDigit_decimal]
    simp [hnumber]
  rw [torAddrPortParse, hsplit]
  simp [hport, torAddrParseImpl_fmt haddr]

end

end Badnet.Net

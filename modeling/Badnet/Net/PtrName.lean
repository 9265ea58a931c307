/-
  Badnet.Net.PtrName — the names of reverse lookups and the buffers that addresses are printed to (`lib/net/address.c`).

  A buffer of the documented size holds every text, so that every address returns from its text and from its name, and
  no text makes the parser fail (`address_texts_are_read_back`).
-/

import Badnet.Encoding.Base16
import Badnet.Net.InetPton
import Badnet.Net.Ntop

namespace Badnet.Net

open Encoding Lib

/-! ## Printing to a buffer -/

def REVERSE_LOOKUP_NAME_BUF_LEN : Nat := 73

/-- `tor_snprintf`, with `none` for -1. -/
def torSnprintf (size : Nat) (text : Text) : Option Text :=
  if size = 0 ∨ size > SIZE_T_CEILING ∨ text.length ≥ size then none else some text

def torInetNtop (addr : TorAddr) (len : Nat) : Option Text :=
  match addr with
  | .unspec => none
  | .inet a => torSnprintf len (torInetNtoa a)
  | .inet6 a => if (torInetNtop6 a).length + 1 > len then none else some (torInetNtop6 a)

/-- `tor_addr_to_str` into a buffer of `len` bytes. -/
def torAddrToStrIn (len : Nat) (addr : TorAddr) (decorate : Bool) : Option Text :=
  match addr with
  | .unspec => none
  | .inet _ => if len < 8 then none else torInetNtop addr len
  | .inet6 _ =>
    if len < 3 + (if decorate then 2 else 0) then none
    else if decorate then (torInetNtop addr (len - 2)).map fun text => '[' :: (text ++ [']'])
    else torInetNtop addr len

/-! ## Names of reverse lookups -/

def ipv4Suffix : Text := ".in-addr.arpa".toList

def ipv6Suffix : Text := ".ip6.arpa".toList

def hexDigitsLower : Text := "0123456789abcdef".toList

/-- A byte as its low nibble and its high nibble. -/
def nibbles (b : UInt8) : Text :=
  [hexDigitsLower.getD (b.toNat % 16) '0', '.', hexDigitsLower.getD (b.toNat / 16) '0', '.']

/-- `tor_addr_to_PTR_name` -/
def torAddrToPTRName (outlen : Nat) (addr : TorAddr) : Option Text :=
  match addr with
  | .unspec => none
  | .inet a => torSnprintf outlen (decimal (octet a 0) ++ '.' :: (decimal (octet a 1) ++ '.' :: (decimal (octet a 2) ++ '.' ::
      (decimal (octet a 3) ++ ipv4Suffix))))
  | .inet6 a => if outlen < REVERSE_LOOKUP_NAME_BUF_LEN then none else some (a.toList.reverse.flatMap nibbles ++ ipv6Suffix.tail)

/-- Whether `strcasecmpend` returns 0. -/
def endsWithCase (s suffix : Text) : Bool :=
  suffix.length ≤ s.length ∧ (s.drop (s.length - suffix.length)).map Char.toLower = suffix.map Char.toLower

variable (a : UInt32)

def reverseBytes : UInt32 :=
  (a &&& 0x000000ff) <<< 24 ||| (a &&& 0x0000ff00) <<< 8 ||| (a &&& 0x00ff0000) >>> 8 ||| (a &&& 0xff000000) >>> 24

/-- The nibbles of `n` bytes, the last of which come first; the bytes read so far and what is left of the name. -/
def readNibbles : Nat → List UInt8 → Text → Option (List UInt8 × Text)
  | 0, bytes, cp => some (bytes, cp)
  | n + 1, bytes, c0 :: d0 :: c1 :: d1 :: cp =>
    if d0 ≠ '.' ∨ d1 ≠ '.' then none
    else
      match hexDecodeDigit c0, hexDecodeDigit c1 with
      | some n0, some n1 => readNibbles n (UInt8.ofNat (n0 ||| n1 <<< 4) :: bytes) cp
      | _, _ => none
  | _ + 1, _, _ => none

/-- The results 1, -1 and 0 of `tor_addr_parse_PTR_name`. -/
inductive PTRResult where
  | parsed (addr : TorAddr)
  | illFormed
  | notPTRName
  deriving DecidableEq, Repr

def torAddrParsePTRName (address : Text) (family : SaFamily) (acceptRegular : Bool) : PTRResult :=
  if endsWithCase address ipv4Suffix then
    if family = .AF_INET6 then .illFormed
    else
      let len := address.length - ipv4Suffix.length
      if len ≥ INET_NTOA_BUF_LEN then .illFormed
      else
        match torInetAton (address.take len) with
        | none => .illFormed
        | some inaddr => .parsed (.inet (reverseBytes inaddr))
  else if endsWithCase address ipv6Suffix then
    if family = .AF_INET then .illFormed
    else
      match readNibbles 16 [] address with
      | none => .illFormed
      | some (bytes, cp) =>
        if cp.map Char.toLower ≠ ipv6Suffix.tail then .illFormed
        else .parsed (.inet6 (Vector.ofFn fun i => bytes.getD i.val 0))
  else if acceptRegular then
    match torAddrParse address with
    | none => .notPTRName
    | some tmp => if torAddrFamily tmp ≠ family ∧ family ≠ .AF_UNSPEC then .illFormed else .parsed tmp
  else .notPTRName

/-! ## The texts fit their buffers -/

theorem length_decimal_octet (k : Nat) : (decimal (octet a k)).length ≤ 3 :=
  (Nat.length_toDigits_le_iff (by decide) (by decide)).mpr (by have := octet_lt a k; omega)

theorem length_torInetNtoa : (torInetNtoa a).length ≤ 15 := by
  have h0 := length_decimal_octet a 0
  have h1 := length_decimal_octet a 1
  have h2 := length_decimal_octet a 2
  have h3 := length_decimal_octet a 3
  simp only [torInetNtoa, List.length_append, List.length_cons]
  omega

/-- A word takes at most five characters with its colon, and the gap takes two. -/
theorem length_formatWords (gap : Option Nat) (i : Nat) (ws : List Nat) :
    (∀ w ∈ ws, w < 65536) → (formatWords gap i ws).length ≤ 5 * ws.length := by
  fun_induction formatWords gap i ws with
  | case1 => intro _; simp
  | case2 i w words h ih =>
    intro hws
    have hrest := ih fun v hv => hws v (List.mem_cons_of_mem _ ((List.dropWhile_suffix _).subset hv))
    have hle := (List.dropWhile_suffix (l := words) (fun w => decide (w = 0))).length_le
    simp only [List.length_append, List.length_cons]
    split
    · rw [List.length_singleton]
      omega
    · rw [List.length_nil]
      omega
  | case3 i w words h ih =>
    intro hws
    have hword : (Nat.toDigits 16 w).length ≤ 4 :=
      (Nat.length_toDigits_le_iff (by decide) (by decide)).mpr (hws w List.mem_cons_self)
    have hrest := ih fun v hv => hws v (List.mem_cons_of_mem _ hv)
    simp only [List.length_append, List.length_cons]
    split
    · rw [List.length_singleton]
      omega
    · rw [List.length_nil]
      omega

theorem length_torInetNtop6 (a : Vector UInt8 16) : (torInetNtop6 a).length ≤ 40 := by
  have hdotted := length_torInetNtoa (torAddrToMappedIpv4h a)
  unfold torInetNtop6
  simp only
  split
  · split
    · simp only [List.length_cons]
      omega
    · have hffff : (Nat.toDigits 16 0xffff).length = 4 := by decide
      simp only [List.length_cons, List.length_append, hffff]
      omega
  · exact Nat.le_trans (length_formatWords _ _ _ (addrWords_lt a)) (by rw [length_addrWords])

/-- A buffer of the documented size takes every address. -/
theorem torAddrToStrIn_eq {len : Nat} (hlen : TOR_ADDR_BUF_LEN ≤ len) (hmax : len ≤ SIZE_T_CEILING) (addr : TorAddr) (decorate : Bool) :
    torAddrToStrIn len addr decorate = torAddrToStr addr decorate := by
  unfold TOR_ADDR_BUF_LEN at hlen
  cases addr with
  | unspec => rfl
  | inet a =>
    have := length_torInetNtoa a
    simp only [torAddrToStrIn, torInetNtop, torSnprintf, torAddrToStr]
    rw [if_neg (by omega), if_neg (by omega)]
  | inet6 a =>
    have := length_torInetNtop6 a
    simp only [torAddrToStrIn, torInetNtop, torAddrToStr]
    cases decorate with
    | false =>
      simp only [Bool.false_eq_true, if_false]
      rw [if_neg (by omega), if_neg (by omega)]
    | true =>
      simp only [if_true]
      rw [if_neg (by omega), if_neg (by omega)]
      rfl

/-! ## Names that are read back -/

/-- The octets of an address as bytes. -/
def octetByte (k : Nat) : UInt8 := UInt8.ofNat (octet a k)

theorem octetByte_toNat (k : Nat) : (octetByte a k).toNat = octet a k :=
  UInt8.toNat_ofNat_of_lt' (octet_lt a k)

theorem shift_octets :
    (a &&& 0x000000ff) <<< 24 = (octetByte a 0).toUInt32 <<< 24 ∧ (a &&& 0x0000ff00) <<< 8 = (octetByte a 1).toUInt32 <<< 16 ∧
    (a &&& 0x00ff0000) >>> 8 = (octetByte a 2).toUInt32 <<< 8 ∧ (a &&& 0xff000000) >>> 24 = (octetByte a 3).toUInt32 := by
  have h2 := octet_lt a 2
  have m0 : a.toNat &&& 255 = octet a 0 := by simpa [octet] using and_byte a.toNat 0
  have m1 : a.toNat &&& 65280 = octet a 1 * 256 := and_byte a.toNat 1
  have m2 : a.toNat &&& 16711680 = octet a 2 * 65536 := and_byte a.toNat 2
  have m3 : a.toNat &&& 4278190080 = octet a 3 * 16777216 := and_byte a.toNat 3
  refine ⟨?_, ?_, ?_, ?_⟩
  · congr 1
    apply UInt32.toNat_inj.mp
    rw [UInt32.toNat_and, UInt8.toNat_toUInt32, octetByte_toNat]
    exact m0
  · apply UInt32.toNat_inj.mp
    rw [UInt32.toNat_shiftLeft, UInt32.toNat_shiftLeft, UInt32.toNat_and, UInt8.toNat_toUInt32, octetByte_toNat,
      show (0x0000ff00 : UInt32).toNat = 65280 from rfl, m1, Nat.shiftLeft_eq, Nat.shiftLeft_eq]
    simp only [UInt32.reduceToNat, Nat.reduceMod, Nat.reducePow]
    omega
  · apply UInt32.toNat_inj.mp
    rw [UInt32.toNat_shiftLeft, UInt32.toNat_shiftRight, UInt32.toNat_and, UInt8.toNat_toUInt32, octetByte_toNat,
      show (0x00ff0000 : UInt32).toNat = 16711680 from rfl, m2, Nat.shiftLeft_eq, Nat.shiftRight_eq_div_pow]
    simp only [UInt32.reduceToNat, Nat.reduceMod, Nat.reducePow]
    omega
  · apply UInt32.toNat_inj.mp
    rw [UInt32.toNat_shiftRight, UInt32.toNat_and, UInt8.toNat_toUInt32, octetByte_toNat,
      show (0xff000000 : UInt32).toNat = 4278190080 from rfl, m3, Nat.shiftRight_eq_div_pow]
    simp only [UInt32.reduceToNat, Nat.reduceMod, Nat.reducePow]
    omega

theorem reverseBytes_toNat :
    (reverseBytes a).toNat = ofBE [octetByte a 0, octetByte a 1, octetByte a 2, octetByte a 3] := by
  obtain ⟨e0, e1, e2, e3⟩ := shift_octets a
  rw [reverseBytes, e0, e1, e2, e3, or_bytes]

theorem octet_reverseBytes : octet (reverseBytes a) 3 = octet a 0 ∧ octet (reverseBytes a) 2 = octet a 1 ∧
    octet (reverseBytes a) 1 = octet a 2 ∧ octet (reverseBytes a) 0 = octet a 3 := by
  have h0 := octet_lt a 0
  have h1 := octet_lt a 1
  have h2 := octet_lt a 2
  have h3 := octet_lt a 3
  have hvalue := reverseBytes_toNat a
  simp only [ofBE, List.foldl_cons, List.foldl_nil, octetByte_toNat] at hvalue
  have hoctet : ∀ k, octet (reverseBytes a) k = (reverseBytes a).toNat / 256 ^ k % 256 := fun k => rfl
  simp only [hoctet, hvalue, Nat.reducePow]
  omega

theorem reverseBytes_reverseBytes : reverseBytes (reverseBytes a) = a := by
  obtain ⟨h3, h2, h1, h0⟩ := octet_reverseBytes a
  have hvalue := reverseBytes_toNat (reverseBytes a)
  simp only [ofBE, List.foldl_cons, List.foldl_nil, octetByte_toNat, h0, h1, h2, h3] at hvalue
  have hlt := a.toNat_lt
  apply UInt32.toNat_inj.mp
  rw [hvalue]
  simp only [octet, Nat.reducePow]
  omega

variable {outlen : Nat} {family : SaFamily} {addr : TorAddr}

/-- The name of an IPv4 address is the text of the address with its bytes reversed, and the suffix. -/
theorem torAddrToPTRName_inet {a : UInt32} {name : Text} (h : torAddrToPTRName outlen (.inet a) = some name) :
    name = torInetNtoa (reverseBytes a) ++ ipv4Suffix := by
  obtain ⟨h3, h2, h1, h0⟩ := octet_reverseBytes a
  unfold torAddrToPTRName torSnprintf at h
  simp only at h
  split at h
  · cases h
  · cases h
    rw [torInetNtoa, h0, h1, h2, h3]
    simp

theorem endsWithCase_append (front suffix : Text) : endsWithCase (front ++ suffix) suffix = true := by
  have hlen : (front ++ suffix).length - suffix.length = front.length := by simp
  rw [endsWithCase, hlen, List.drop_left]
  simp

theorem torAddrParsePTRName_inet (a : UInt32) (hfamily : family ≠ .AF_INET6) (acceptRegular : Bool) :
    torAddrParsePTRName (torInetNtoa (reverseBytes a) ++ ipv4Suffix) family acceptRegular = .parsed (.inet a) := by
  have hlen : (torInetNtoa (reverseBytes a) ++ ipv4Suffix).length - ipv4Suffix.length = (torInetNtoa (reverseBytes a)).length := by
    simp
  have hshort : ¬ (torInetNtoa (reverseBytes a)).length ≥ INET_NTOA_BUF_LEN := by
    have := length_torInetNtoa (reverseBytes a)
    simp only [INET_NTOA_BUF_LEN]
    omega
  simp only [torAddrParsePTRName, endsWithCase_append, if_true, if_neg hfamily, hlen, if_neg hshort, List.take_left,
    torInetAton_ntoa, reverseBytes_reverseBytes]

/-! ### Nibbles -/

theorem hexDecodeDigit_lower : ∀ d < 16, hexDecodeDigit (hexDigitsLower.getD d '0') = some d := by decide

theorem readNibbles_byte (n : Nat) (acc : List UInt8) (b : UInt8) (rest : Text) :
    readNibbles (n + 1) acc (nibbles b ++ rest) = readNibbles n (b :: acc) rest := by
  have hb := b.toNat_lt
  have hbyte : UInt8.ofNat (b.toNat % 16 ||| (b.toNat / 16) <<< 4) = b := by
    rw [Nat.or_comm, ← Nat.shiftLeft_add_eq_or_of_lt (Nat.mod_lt _ (by decide)), Nat.shiftLeft_eq, Nat.div_add_mod',
      UInt8.ofNat_toNat]
  have hdots : ¬ ('.' ≠ '.' ∨ '.' ≠ '.') := by decide
  simp only [nibbles, List.cons_append, List.nil_append, readNibbles, if_neg hdots, hexDecodeDigit_lower _ (Nat.mod_lt _ (by decide : 0 < 16)),
    hexDecodeDigit_lower _ (by omega : b.toNat / 16 < 16), hbyte]

theorem readNibbles_flatMap (bytes : List UInt8) (rest : Text) : ∀ acc,
    readNibbles bytes.length acc (bytes.flatMap nibbles ++ rest) = some (bytes.reverse ++ acc, rest) := by
  induction bytes with
  | nil => intro acc; rfl
  | cons b bytes ih =>
    intro acc
    rw [List.length_cons, List.flatMap_cons, List.append_assoc, readNibbles_byte, ih, List.reverse_cons, List.append_assoc,
      List.singleton_append]

/-- A name ends in one of the two suffixes only. -/
theorem not_ipv4Suffix (front : Text) : endsWithCase (front ++ ipv6Suffix) ipv4Suffix = false := by
  refine Bool.eq_false_iff.mpr fun h => ?_
  simp only [endsWithCase, decide_eq_true_eq, List.map_drop] at h
  have hsix : ipv6Suffix.map Char.toLower <:+ (front ++ ipv6Suffix).map Char.toLower := by
    rw [List.map_append]
    exact List.suffix_append _ _
  have hfour : ipv4Suffix.map Char.toLower <:+ (front ++ ipv6Suffix).map Char.toLower := h.2 ▸ List.drop_suffix _ _
  have hboth := List.suffix_of_suffix_length_le hsix hfour (by decide)
  exact absurd hboth (by decide)

theorem torAddrParsePTRName_inet6 (a : Vector UInt8 16) (hfamily : family ≠ .AF_INET) (acceptRegular : Bool) :
    torAddrParsePTRName (a.toList.reverse.flatMap nibbles ++ ipv6Suffix.tail) family acceptRegular = .parsed (.inet6 a) := by
  have hread : readNibbles 16 [] (a.toList.reverse.flatMap nibbles ++ ipv6Suffix.tail) = some (a.toList, ipv6Suffix.tail) := by
    have hflat := readNibbles_flatMap a.toList.reverse ipv6Suffix.tail []
    rwa [List.length_reverse, Vector.length_toList, List.reverse_reverse, List.append_nil] at hflat
  have hbytes : (Vector.ofFn fun i => a.toList.getD i.val 0 : Vector UInt8 16) = a := by
    apply Vector.ext
    intro i hi
    simp
  obtain ⟨front, hfront⟩ : ∃ front, a.toList.reverse.flatMap nibbles = front ++ ['.'] := by
    obtain ⟨b, bytes, hcons⟩ := List.exists_cons_of_ne_nil (l := a.toList) (by simp [← List.length_eq_zero_iff])
    rw [hcons, List.reverse_cons, List.flatMap_append]
    exact ⟨_, (List.append_assoc _ [_, '.', _] ['.']).symm⟩
  have hname : a.toList.reverse.flatMap nibbles ++ ipv6Suffix.tail = front ++ ipv6Suffix := by
    rw [hfront, List.append_assoc]
    rfl
  rw [hname] at hread ⊢
  have hlower : ¬ ipv6Suffix.tail.map Char.toLower ≠ ipv6Suffix.tail := by decide
  simp only [torAddrParsePTRName, not_ipv4Suffix, Bool.false_eq_true, if_false, endsWithCase_append, if_true, if_neg hfamily,
    hread, if_neg hlower, hbytes]

/-! ## Round trips -/

theorem colon_of_scanUnsigned {width v : Nat} {buf rest : Text} (h : scanUnsigned width buf = some (v, rest)) (hcolon : ':' ∈ buf) :
    ':' ∈ rest := by
  unfold scanUnsigned at h
  simp only at h
  split at h
  · cases h
  obtain ⟨-, rfl⟩ := Prod.mk.inj (Option.some.inj h)
  let digits := (buf.takeWhile Char.isDigit).take width
  have hprefix : digits <+: buf := (List.take_prefix _ _).trans (List.takeWhile_prefix _)
  have hbuf : digits ++ buf.drop digits.length = buf := by
    obtain ⟨more, hmore⟩ := hprefix
    nth_rewrite 1 [← hmore]
    rw [List.drop_left, hmore]
  rw [← hbuf, List.mem_append] at hcolon
  refine hcolon.resolve_left fun hdigit => ?_
  have := List.all_eq_true.mp (List.all_takeWhile (p := Char.isDigit)) ':' (List.mem_of_mem_take hdigit)
  exact absurd this (by decide)

theorem colon_of_scanChar {buf rest : Text} (h : scanChar '.' buf = some rest) (hcolon : ':' ∈ buf) : ':' ∈ rest := by
  cases buf with
  | nil => cases hcolon
  | cons d buf =>
    rw [scanChar] at h
    split at h
    next hd =>
      cases h
      exact (List.mem_cons.mp hcolon).resolve_left fun e => absurd (e.trans hd) (by decide)
    · cases h

/-- An IPv4 address has no colon. -/
theorem torInetAton_colon {t : Text} (h : ':' ∈ t) : torInetAton t = none := by
  refine Option.eq_none_iff_forall_ne_some.mpr fun x hx => ?_
  unfold torInetAton at hx
  simp only [Option.bind_eq_bind, Option.bind_eq_some_iff] at hx
  obtain ⟨⟨v0, b0⟩, h0, b1, h1, ⟨v2, b2⟩, h2, b3, h3, ⟨v4, b4⟩, h4, b5, h5, ⟨v6, b6⟩, h6, hrest⟩ := hx
  have hcolon : ':' ∈ b6 := colon_of_scanUnsigned h6 <| colon_of_scanChar h5 <| colon_of_scanUnsigned h4 <| colon_of_scanChar h3 <|
    colon_of_scanUnsigned h2 <| colon_of_scanChar h1 <| colon_of_scanUnsigned h0 h
  rw [if_pos (List.ne_nil_of_mem hcolon)] at hrest
  cases hrest

theorem colon_mem_formatWords (gap : Option Nat) {ws : List Nat} (h : ws ≠ []) : ':' ∈ formatWords gap 0 ws := by
  obtain ⟨w, words, rfl⟩ := List.exists_cons_of_ne_nil h
  rw [formatWords]
  split
  · simp
  · simp

/-- An IPv6 address has a colon, and is not in brackets of its own. -/
theorem ntop6_plain (a : Vector UInt8 16) : ':' ∈ torInetNtop6 a ∧ inBrackets (torInetNtop6 a) = none := by
  have hne : addrWords a ≠ [] := fun h => by simpa [h] using length_addrWords a
  unfold torInetNtop6
  simp only
  split
  · split
    · exact ⟨List.mem_cons_self, if_neg fun h => absurd h.1 (by simp)⟩
    · exact ⟨List.mem_cons_self, if_neg fun h => absurd h.1 (by simp)⟩
  · refine ⟨colon_mem_formatWords _ hne, if_neg fun h => ?_⟩
    exact absurd (mem_formatWords _ _ _ '[' (List.mem_of_mem_head? h.1)) (by decide)

/-- Every address is read back from its text, in brackets or not. -/
theorem torAddrParse_toStr {decorate : Bool} {text : Text} (h : torAddrToStr addr decorate = some text) :
    torAddrParse text = some addr := by
  cases addr with
  | unspec => cases h
  | inet a =>
    cases h
    exact torAddrParse_ntoa a
  | inet6 a =>
    obtain ⟨hcolon, hplain⟩ := ntop6_plain a
    cases decorate with
    | false =>
      obtain rfl : torInetNtop6 a = text := Option.some.inj h
      rw [torAddrParse, hplain]
      simp only [torInetAton_colon hcolon, torInetPton6_ntop6, Option.map_none, Option.none_or, Option.map_some]
    | true =>
      obtain rfl : '[' :: (torInetNtop6 a ++ [']']) = text := Option.some.inj h
      have hinside : inBrackets ('[' :: (torInetNtop6 a ++ [']'])) = some (torInetNtop6 a) := by
        rw [inBrackets, if_pos ⟨rfl, by rw [← List.cons_append, List.getLast?_concat]⟩, List.tail_cons, List.dropLast_concat]
      rw [torAddrParse, hinside]
      simp only [torInetPton6_ntop6, Option.map_some]

/-- Every address is read back from its name. -/
theorem torAddrParsePTRName_toPTRName {name : Text} (h : torAddrToPTRName outlen addr = some name)
    (hfamily : family = .AF_UNSPEC ∨ family = torAddrFamily addr) (acceptRegular : Bool) :
    torAddrParsePTRName name family acceptRegular = .parsed addr := by
  cases addr with
  | unspec => cases h
  | inet a =>
    rw [torAddrToPTRName_inet h]
    exact torAddrParsePTRName_inet a (by rcases hfamily with rfl | rfl <;> simp [torAddrFamily]) acceptRegular
  | inet6 a =>
    unfold torAddrToPTRName at h
    simp only at h
    split at h
    · cases h
    · cases h
      exact torAddrParsePTRName_inet6 a (by rcases hfamily with rfl | rfl <;> simp [torAddrFamily]) acceptRegular

/-- A buffer of the documented size takes every name. -/
theorem torAddrToPTRName_isSome (hlen : REVERSE_LOOKUP_NAME_BUF_LEN ≤ outlen) (hmax : outlen ≤ SIZE_T_CEILING)
    (hknown : addr ≠ .unspec) : (torAddrToPTRName outlen addr).isSome = true := by
  have hroom : 73 ≤ outlen := hlen
  cases addr with
  | unspec => exact absurd rfl hknown
  | inet a =>
    have h0 := length_decimal_octet a 0
    have h1 := length_decimal_octet a 1
    have h2 := length_decimal_octet a 2
    have h3 := length_decimal_octet a 3
    have hsuffix : ipv4Suffix.length = 13 := by decide
    simp only [torAddrToPTRName, torSnprintf]
    rw [if_neg]
    · rfl
    · simp only [List.length_append, List.length_cons, hsuffix]
      omega
  | inet6 a =>
    simp only [torAddrToPTRName, if_neg (Nat.not_lt.mpr hlen)]
    rfl

/-- Addresses survive being printed, in a buffer of the documented size, and parsed; and parsing any text sets only
    words of the array and passes its assertions. -/
theorem address_texts_are_read_back :
    (∀ addr : TorAddr, addr ≠ .unspec →
      (∀ decorate len, TOR_ADDR_BUF_LEN ≤ len → len ≤ SIZE_T_CEILING →
        ∃ text, torAddrToStrIn len addr decorate = some text ∧ torAddrParse text = some addr) ∧
      ∀ outlen family acceptRegular, REVERSE_LOOKUP_NAME_BUF_LEN ≤ outlen → outlen ≤ SIZE_T_CEILING →
        family = .AF_UNSPEC ∨ family = torAddrFamily addr →
        ∃ name, torAddrToPTRName outlen addr = some name ∧ torAddrParsePTRName name family acceptRegular = .parsed addr) ∧
    ∀ src, torInetPton src = .ok (torInetPton6 src) := by
  refine ⟨fun addr hknown => ⟨fun decorate len hlen hmax => ?_, fun outlen family acceptRegular hlen hmax hfamily => ?_⟩,
    torInetPton_eq⟩
  · obtain ⟨text, htext⟩ : ∃ text, torAddrToStr addr decorate = some text := by
      cases addr with
      | unspec => exact absurd rfl hknown
      | inet a => exact ⟨_, rfl⟩
      | inet6 a => exact ⟨_, rfl⟩
    exact ⟨text, by rw [torAddrToStrIn_eq hlen hmax, htext], torAddrParse_toStr htext⟩
  · obtain ⟨name, hname⟩ := Option.isSome_iff_exists.mp (torAddrToPTRName_isSome hlen hmax hknown)
    exact ⟨name, hname, torAddrParsePTRName_toPTRName hname hfamily acceptRegular⟩

theorem loopback_is_read_back :
    (∃ text, torAddrToStrIn 48 (.inet 2130706433) true = some text ∧ torAddrParse text = some (.inet 2130706433)) ∧
    ∃ name, torAddrToPTRName 73 (.inet 2130706433) = some name ∧
      torAddrParsePTRName name .AF_INET true = .parsed (.inet 2130706433) :=
  have h := address_texts_are_read_back.1 (.inet 2130706433) (by decide)
  ⟨h.1 true 48 (by decide) (by decide), h.2 73 .AF_INET true (by decide) (by decide) (Or.inr rfl)⟩

end Badnet.Net

/-
  Badnet.Net.PatternMeaning — which addresses an address pattern matches (`tor_addr_parse_mask_ports` and
  `tor_addr_compare_masked` of `lib/net/address.c`).

  A pattern `A/m` stands for the addresses of A's family that agree with A on the first m bits; for an IPv4 address
  mapped into IPv6 a number up to 32 counts the bits of the IPv4 address. The mask of a mapped address is `96 +
  bits%32`, which maps 32 and 128 to 96, and the number goes through an `int` (`patternMeans_iff`).
-/

import Mathlib.Data.List.TakeWhile
import Badnet.Net.AddrPattern

namespace Badnet.Net

open Encoding

/-! ## Prefixes -/

def familyBits : SaFamily → Nat
  | .AF_UNSPEC => 0
  | .AF_INET => 32
  | .AF_INET6 => 128

theorem bitAt_of_le {a : TorAddr} {i : Nat} (h : familyBits (torAddrFamily a) ≤ i) : bitAt a i = false := by
  cases a with
  | unspec => rfl
  | inet x =>
    have hlt : ¬ i < 32 := Nat.not_lt.mpr h
    simp [bitAt, hlt]
  | inet6 x =>
    have hle : 128 ≤ i := h
    have hout : ¬ i / 8 < 16 := by omega
    simp [bitAt, hout]

variable {n : Nat} {addr : TorAddr}

theorem maskedEq_min {a : TorAddr} :
    MaskedEq (min n (familyBits (torAddrFamily addr))) a addr ↔ MaskedEq n a addr := by
  refine ⟨fun h => ⟨h.1, fun i hi => ?_⟩, fun h => h.mono (Nat.min_le_left _ _)⟩
  by_cases hlt : i < familyBits (torAddrFamily addr)
  · exact h.2 i (by omega)
  · rw [bitAt_of_le (by rw [h.1]; omega), bitAt_of_le (by omega)]

theorem flip_lt {w x k : Nat} (hx : x < 2 ^ w) (hk : k < w) : x ^^^ 2 ^ k < 2 ^ w :=
  Nat.xor_lt_two_pow hx (Nat.pow_lt_pow_right (by decide) hk)

/-- Another address of the family that differs in one bit. -/
theorem exists_flipped (hn : n < familyBits (torAddrFamily addr)) :
    ∃ a, torAddrFamily a = torAddrFamily addr ∧ bitAt a n ≠ bitAt addr n ∧ ∀ i < n, bitAt a i = bitAt addr i := by
  cases addr with
  | unspec => cases hn
  | inet x =>
    have hn : n < 32 := hn
    obtain ⟨y, hflip⟩ : ∃ y : UInt32, y.toNat = x.toNat ^^^ 2 ^ (31 - n) :=
      ⟨UInt32.ofNat _, UInt32.toNat_ofNat_of_lt' (flip_lt x.toNat_lt (by omega))⟩
    refine ⟨.inet y, rfl, ?_, fun i hi => ?_⟩
    · simp [bitAt, hn, hflip, Nat.testBit_xor]
    · have hne : ¬ 31 - n = 31 - i := by omega
      simp [bitAt, hflip, Nat.testBit_xor, hne]
  | inet6 x =>
    have hn : n < 128 := hn
    have hbyte : n / 8 < 16 := by omega
    obtain ⟨y, hflip⟩ : ∃ y : UInt8, y.toNat = x[n / 8].toNat ^^^ 2 ^ (7 - n % 8) :=
      ⟨UInt8.ofNat _, UInt8.toNat_ofNat_of_lt' (@flip_lt 8 _ (7 - n % 8) (UInt8.toNat_lt _) (by omega))⟩
    refine ⟨.inet6 (x.set (n / 8) y), rfl, ?_, fun i hi => ?_⟩
    · simp [bitAt, hflip, hbyte, Nat.testBit_xor]
    · by_cases hsame : n / 8 = i / 8
      · have hne : ¬ 7 - n % 8 = 7 - i % 8 := by omega
        simp [bitAt, hflip, hbyte, ← hsame, Nat.testBit_xor, hne]
      · simp [bitAt, Vector.getElem?_set_ne, hsame]

/-- Two prefix lengths match the same addresses only when they are the same up to the end of the address. -/
theorem maskedEq_iff_iff {k : Nat} : (∀ a, MaskedEq k a addr ↔ MaskedEq n a addr) ↔
    min k (familyBits (torAddrFamily addr)) = min n (familyBits (torAddrFamily addr)) := by
  have hless : ∀ {k n : Nat}, k < n → k < familyBits (torAddrFamily addr) → ∃ a, MaskedEq k a addr ∧ ¬ MaskedEq n a addr := by
    intro k n hkn hk
    obtain ⟨a, hfamily, hne, hsame⟩ := exists_flipped hk
    exact ⟨a, ⟨hfamily, hsame⟩, fun h => hne (h.2 k hkn)⟩
  refine ⟨fun h => ?_, fun h a => by rw [← maskedEq_min, h, maskedEq_min]⟩
  by_contra hne
  rcases Nat.lt_or_ge k n with hkn | hkn
  · obtain ⟨a, hk, hn⟩ := hless hkn (by omega)
    exact hn ((h a).mp hk)
  · obtain ⟨a, hn, hk⟩ := hless (show n < k by omega) (by omega)
    exact hk ((h a).mpr hn)

/-! ## What a pattern says -/

/-- The integer that a text is, after blanks and with a sign or without. -/
def maskInteger (mask : Text) : Option Int :=
  let t := mask.dropWhile isspace
  let neg := t.head? = some '-'
  let digits := if t.head? = some '-' ∨ t.head? = some '+' then t.tail else t
  if digits = [] ∨ ¬ digits.all Char.isDigit then none
  else some (if neg then -(Nat.ofDigitChars 10 digits 0 : Int) else Nat.ofDigitChars 10 digits 0)

def literalAddress (address : Text) : Option TorAddr :=
  match torInetPton6 address with
  | some a => some (.inet6 a)
  | none => (torInetAton address).map .inet

def patternAddress (s : Text) : Option Text := (splitPattern s).map (·.address)

def patternMask (s : Text) : Option Text := (splitPattern s).bind (·.mask)

/-- An IPv4 address mapped into IPv6. -/
def isV4Mapped (addr : TorAddr) : Bool := torAddrFamily addr = .AF_INET6 ∧ torAddrIsV4 addr

/-- How many bits of the address the number of a pattern stands for. -/
def meantBits (addr : TorAddr) : Option Nat → Nat
  | none => familyBits (torAddrFamily addr)
  | some m => if isV4Mapped addr ∧ m ≤ 32 then 96 + m else m

section
variable {mask address : Text} {addr : TorAddr} {m bits : Nat}

theorem strtol_of_integer (h : maskInteger mask = some (m : Int)) :
    (strtol mask).1 = (min m LONG_MAX : Nat) ∧ (strtol mask).2.1 = [] := by
  unfold maskInteger at h
  dsimp only at h
  unfold strtol
  dsimp only
  generalize (mask.dropWhile isspace).head? = sign at h ⊢
  generalize (if sign = some '-' ∨ sign = some '+' then (mask.dropWhile isspace).tail else mask.dropWhile isspace) =
    digits at h ⊢
  split at h
  · cases h
  next hdigits =>
    rw [not_or, Classical.not_not] at hdigits
    have htake : digits.takeWhile Char.isDigit = digits :=
      List.takeWhile_eq_self_iff.mpr (List.all_eq_true.mp hdigits.2)
    rw [htake, if_neg hdigits.1, List.drop_length]
    have hvalue := Option.some.inj h
    generalize Nat.ofDigitChars 10 digits 0 = v at hvalue ⊢
    have hmax : LONG_MAX = 9223372036854775807 := rfl
    by_cases hneg : sign = some '-'
    · rw [if_pos hneg] at hvalue
      simp only [hneg, true_and, not_true_eq_false, false_and, if_false]
      rw [if_neg (by omega)]
      exact ⟨by simp; omega, rfl⟩
    · rw [if_neg hneg] at hvalue
      simp only [hneg, false_and, if_false, not_false_eq_true, true_and]
      split
      · exact ⟨by omega, rfl⟩
      · exact ⟨by simp; omega, rfl⟩

/-- The number of a mask goes through an `int`. -/
theorem maskNumber_of_integer (hm : maskInteger mask = some (m : Int)) (h : maskNumber addr mask = some bits) :
    bits = m % 2 ^ 32 := by
  obtain ⟨hvalue, hend⟩ := strtol_of_integer hm
  unfold maskNumber at h
  split at h
  next r endptr erange hs =>
    rw [hs] at hvalue hend
    obtain rfl : r = (min m LONG_MAX : Nat) := hvalue
    obtain rfl : endptr = [] := hend
    dsimp only at h
    rw [if_pos rfl] at h
    split at h
    · cases h
    next hrange =>
      have hbits := Option.some.inj h
      have hmax : LONG_MAX = 9223372036854775807 := rfl
      have hint : 0 ≤ Int.bmod (min m LONG_MAX : Nat) (2 ^ 32) ∧ Int.bmod (min m LONG_MAX : Nat) (2 ^ 32) ≤ 128 := by
        omega
      rw [Int.bmod_def] at hbits hint
      split at hbits <;> omega

theorem parseAddress_literal {flags : TapmpFlags} (h : literalAddress address = some addr) :
    parseAddress flags address = some (addr, false) := by
  have hliteral : ∀ w : Text, literalAddress w = none → address ≠ w := by
    rintro w hw rfl
    rw [hw] at h
    cases h
  have hstar := hliteral ['*'] (by decide +kernel)
  have hstar4 := hliteral ['*', '4'] (by decide +kernel)
  have hstar6 := hliteral ['*', '6'] (by decide +kernel)
  simp only [parseAddress, hstar, hstar4, hstar6, false_and, if_false]
  unfold literalAddress at h
  cases hpton : torInetPton6 address with
  | some a =>
    rw [hpton] at h
    cases h
    rfl
  | none =>
    rw [hpton] at h
    obtain ⟨a, ha, rfl⟩ := Option.map_eq_some_iff.mp h
    simp only [ha]
    rfl

theorem literalAddress_family (h : literalAddress address = some addr) : torAddrFamily addr ≠ .AF_UNSPEC := by
  unfold literalAddress at h
  split at h
  · cases h
    simp [torAddrFamily]
  · obtain ⟨a, -, rfl⟩ := Option.map_eq_some_iff.mp h
    simp [torAddrFamily]

/-- The prefix length of an accepted number. -/
theorem parseMask_integer (hm : maskInteger mask = some (m : Int)) (h : parseMask addr false (some mask) = some bits) :
    m % 2 ^ 32 ≤ 128 ∧ (torAddrFamily addr = .AF_INET → m % 2 ^ 32 ≤ 32) ∧
      (isV4Mapped addr = true → m % 2 ^ 32 ≤ 32 ∨ 96 ≤ m % 2 ^ 32) ∧
      bits = if isV4Mapped addr then 96 + m % 2 ^ 32 % 32 else m % 2 ^ 32 := by
  rw [parseMask] at h
  split at h
  · cases h
  next n hn =>
    obtain rfl := maskNumber_of_integer hm hn
    obtain ⟨hle, hle4⟩ := maskNumber_le hn
    split at h
    · cases h
    next hcrazy =>
      have hmapped : isV4Mapped addr = true → m % 2 ^ 32 ≤ 32 ∨ 96 ≤ m % 2 ^ 32 := by
        intro hmapped
        obtain ⟨hfamily, hv4⟩ := of_decide_eq_true hmapped
        by_contra hbetween
        exact hcrazy ⟨hfamily, hv4, by omega, by omega⟩
      refine ⟨hle, hle4, hmapped, ?_⟩
      rw [if_neg Bool.false_ne_true] at h
      have hbits := Option.some.inj h
      simpa [isV4Mapped] using hbits.symm

/-- The number stands for what it says. -/
def NumberKept (addr : TorAddr) (m : Nat) : Prop :=
  if m < 2 ^ 31 then ¬ (isV4Mapped addr = true ∧ (m = 32 ∨ m = 128))
  else isV4Mapped addr = false ∧ m % 2 ^ 32 = familyBits (torAddrFamily addr)

theorem numberKept_iff (hfamily : torAddrFamily addr ≠ .AF_UNSPEC) (hm : maskInteger mask = some (m : Int))
    (h : parseMask addr false (some mask) = some bits) : NumberKept addr m ↔
      min bits (familyBits (torAddrFamily addr)) = min (meantBits addr (some m)) (familyBits (torAddrFamily addr)) := by
  obtain ⟨hle, hle4, hgap, rfl⟩ := parseMask_integer hm h
  unfold NumberKept meantBits
  by_cases hmapped : isV4Mapped addr = true
  · have hgap := hgap hmapped
    have hlength : familyBits (torAddrFamily addr) = 128 := by
      rw [(of_decide_eq_true hmapped).1]
      rfl
    simp only [hmapped, if_true, true_and, hlength]
    by_cases hsmall : m < 2 ^ 31
    · rw [if_pos hsmall]
      split <;> omega
    · rw [if_neg hsmall, if_neg (by omega)]
      simp only [Bool.true_eq_false, false_and, false_iff]
      omega
  · have hbits : m % 2 ^ 32 ≤ familyBits (torAddrFamily addr) ∧ familyBits (torAddrFamily addr) ≤ 128 := by
      cases hcase : torAddrFamily addr with
      | AF_UNSPEC => exact absurd hcase hfamily
      | AF_INET => exact ⟨hle4 hcase, by decide⟩
      | AF_INET6 => exact ⟨hle, by decide⟩
    rw [Bool.not_eq_true] at hmapped
    simp only [hmapped, Bool.false_eq_true, if_false, false_and, not_false_eq_true, true_and]
    by_cases hsmall : m < 2 ^ 31
    · simp only [hsmall, if_true, true_iff]
      omega
    · rw [if_neg hsmall]
      omega

end

/-- An accepted pattern matches the addresses that it stands for exactly when its number is kept. -/
theorem patternMeans_iff {s : Text} {flags : TapmpFlags} {portsOut : PortsOut} {p : AddrPattern} {addr : TorAddr}
    {m : Option Nat} (h : torAddrParseMaskPorts s flags true portsOut = some (some p))
    (haddr : (patternAddress s).bind literalAddress = some addr)
    (hm : (patternMask s).map maskInteger = m.map fun n => some (n : Int)) :
    (∃ bits, p.maskbits = some bits ∧
        ∀ a, torAddrCompareMasked a p.addr bits .CMP_EXACT = 0 ↔ MaskedEq (meantBits addr m) a addr) ↔
      ∀ n, m = some n → NumberKept addr n := by
  unfold torAddrParseMaskPorts at h
  split at h
  · cases h
  have h := Option.some.inj h
  unfold parsePattern at h
  split at h
  · cases h
  obtain ⟨parts, hparts, h⟩ := Option.bind_eq_some_iff.mp h
  rw [patternAddress, hparts] at haddr
  rw [patternMask, hparts] at hm
  obtain ⟨⟨read, anyFlag⟩, hread, h⟩ := Option.bind_eq_some_iff.mp h
  obtain ⟨maskbits, hmask, h⟩ := Option.bind_eq_some_iff.mp h
  obtain ⟨ports, -, h⟩ := Option.bind_eq_some_iff.mp h
  cases h
  have haddr : literalAddress parts.address = some addr := haddr
  rw [parseAddress_literal haddr] at hread
  obtain ⟨rfl, rfl⟩ := Prod.mk.inj (Option.some.inj hread)
  have hfamily := literalAddress_family haddr
  obtain ⟨bits, hbits, rfl⟩ := Option.map_eq_some_iff.mp hmask
  have hle := (parseMask_fits (fun h => absurd h hfamily) hbits).2
  have htoNat : (UInt8.ofNat bits).toNat = bits := UInt8.toNat_ofNat_of_lt' (show bits < 256 by omega)
  have hmatch : (∃ b, some (UInt8.ofNat bits) = some b ∧
      ∀ a, torAddrCompareMasked a addr b .CMP_EXACT = 0 ↔ MaskedEq (meantBits addr m) a addr) ↔
      min bits (familyBits (torAddrFamily addr)) = min (meantBits addr m) (familyBits (torAddrFamily addr)) := by
    rw [← maskedEq_iff_iff]
    simp [torAddrCompareMasked_eq_zero, htoNat]
  refine hmatch.trans ?_
  have hm : parts.mask.map maskInteger = m.map fun n => some (n : Int) := hm
  cases m with
  | none =>
    rw [Option.map_eq_none_iff.mp hm] at hbits
    have hfull : bits = familyBits (torAddrFamily addr) := by
      rw [parseMask, if_neg Bool.false_ne_true] at hbits
      cases hcase : torAddrFamily addr <;> rw [hcase] at hbits <;> exact (Option.some.inj hbits).symm
    simp [hfull, meantBits]
  | some n =>
    obtain ⟨mask, hmask, hn⟩ := Option.map_eq_some_iff.mp hm
    rw [hmask] at hbits
    rw [← numberKept_iff hfamily hn hbits]
    simp

theorem patternMeans_of_slash_8 :
    ∃ p, torAddrParseMaskPorts "10.1.2.3/8".toList ⟨true, false, false⟩ true .range = some (some p) ∧
      ∃ bits, p.maskbits = some bits ∧
        ∀ a, torAddrCompareMasked a p.addr bits .CMP_EXACT = 0 ↔ MaskedEq 8 a (.inet 0x0a010203) := by
  have hparse : torAddrParseMaskPorts "10.1.2.3/8".toList ⟨true, false, false⟩ true .range =
      some (some ⟨.inet 0x0a010203, some 8, some (1, 65535)⟩) := by
    decide +kernel
  have hkept : ∀ n, some 8 = some n → NumberKept (.inet 0x0a010203) n := by
    intro n hn
    cases hn
    unfold NumberKept
    decide
  exact ⟨_, hparse, (patternMeans_iff hparse (by decide +kernel) (by decide +kernel)).mpr hkept⟩

/-- The full mask of `::ffff:1.2.3.4`, in IPv4 bits and in IPv6 bits, matches `::ffff:9.9.9.9` too. -/
theorem full_mask_matches_all_mapped :
    let mapped := TorAddr.inet6 #v[0, 0, 0, 0, 0, 0, 0, 0, 0, 0, 0xff, 0xff, 1, 2, 3, 4]
    let other := TorAddr.inet6 #v[0, 0, 0, 0, 0, 0, 0, 0, 0, 0, 0xff, 0xff, 9, 9, 9, 9]
    torAddrParseMaskPorts "[::ffff:1.2.3.4]/32".toList ⟨true, false, false⟩ true .range =
        some (some ⟨mapped, some 96, some (1, 65535)⟩) ∧
      torAddrParseMaskPorts "[::ffff:1.2.3.4]/128".toList ⟨true, false, false⟩ true .range =
        some (some ⟨mapped, some 96, some (1, 65535)⟩) ∧
      torAddrCompareMasked other mapped 96 .CMP_EXACT = 0 ∧ meantBits mapped (some 32) = 128 ∧ ¬ MaskedEq 128 other mapped := by
  refine ⟨by decide +kernel, by decide +kernel, by decide +kernel, by decide +kernel, fun h => ?_⟩
  have hbit := h.2 100 (by decide)
  revert hbit
  decide +kernel

end Badnet.Net

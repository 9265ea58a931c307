/-
  Badnet.Net.Address — addresses and masked comparison (`lib/net/address.c`).

  An address is unspecified, IPv4 or IPv6. `tor_addr_compare_masked` orders two of them by their first bits; an exact
  comparison tells the families apart.

  Proved: that two addresses agree up to a number of bits is symmetric and transitive, and they agree up to any
  smaller number too (`MaskedEq.mono`).
-/

import Mathlib.Algebra.Ring.Nat

namespace Badnet.Net

inductive SaFamily where
  | AF_UNSPEC
  | AF_INET
  | AF_INET6
  deriving DecidableEq, Repr

/-- The number of a family. -/
def SaFamily.num : SaFamily → Nat
  | .AF_UNSPEC => 0
  | .AF_INET => 2
  | .AF_INET6 => 10

/-- An IPv4 address is in host order. -/
inductive TorAddr where
  | unspec
  | inet (addr : UInt32)
  | inet6 (addr : Vector UInt8 16)
  deriving DecidableEq, Repr

def torAddrFamily : TorAddr → SaFamily
  | .unspec => .AF_UNSPEC
  | .inet _ => .AF_INET
  | .inet6 _ => .AF_INET6

def torAddrIsNull : TorAddr → Bool
  | .unspec => true
  | .inet a => a = 0
  | .inet6 a => a.toList.all (· = 0)

/-- IPv4, or IPv4 mapped into IPv6. -/
def torAddrIsV4 : TorAddr → Bool
  | .unspec => false
  | .inet _ => true
  | .inet6 a => a.toList.take 12 = [0, 0, 0, 0, 0, 0, 0, 0, 0, 0, 0xff, 0xff]

/-- The last four bytes of an IPv6 address, in host order. -/
def torAddrToMappedIpv4h (a : Vector UInt8 16) : UInt32 :=
  a[12].toUInt32 <<< 24 ||| a[13].toUInt32 <<< 16 ||| a[14].toUInt32 <<< 8 ||| a[15].toUInt32

/-! ## Internal addresses -/

def isInternalIpv4 (iph4 : UInt32) (forListening : Bool) : Bool :=
  if forListening ∧ (iph4 = 0 ∨ iph4 &&& 0xffc00000 = 0x64400000) then false
  else iph4 &&& 0xff000000 = 0x0a000000 ∨ iph4 &&& 0xff000000 = 0x00000000 ∨ iph4 &&& 0xff000000 = 0x7f000000 ∨
    iph4 &&& 0xffc00000 = 0x64400000 ∨ iph4 &&& 0xffff0000 = 0xa9fe0000 ∨ iph4 &&& 0xfff00000 = 0xac100000 ∨
    iph4 &&& 0xffff0000 = 0xc0a80000

/-- A word of an IPv6 address, in host order. -/
def iph6 (a : Vector UInt8 16) (i : Nat) : UInt32 :=
  let byte (j : Nat) := (a[4 * i + j]?.getD 0).toUInt32
  byte 0 <<< 24 ||| byte 1 <<< 16 ||| byte 2 <<< 8 ||| byte 3

def isInternalIpv6 (a : Vector UInt8 16) (forListening : Bool) : Bool :=
  if forListening ∧ iph6 a 0 = 0 ∧ iph6 a 1 = 0 ∧ iph6 a 2 = 0 ∧ iph6 a 3 = 0 then false
  else if iph6 a 0 &&& 0xfe000000 = 0xfc000000 ∨ iph6 a 0 &&& 0xffc00000 = 0xfe800000 ∨
      iph6 a 0 &&& 0xffc00000 = 0xfec00000 then true
  else iph6 a 0 = 0 ∧ iph6 a 1 = 0 ∧ iph6 a 2 = 0 ∧ iph6 a 3 &&& 0xfffffffe = 0

def torAddrIsInternal (addr : TorAddr) (forListening : Bool) : Bool :=
  match addr with
  | .unspec => true
  | .inet iph4 => isInternalIpv4 iph4 forListening
  | .inet6 a =>
    if torAddrIsV4 addr then isInternalIpv4 (torAddrToMappedIpv4h a) forListening else isInternalIpv6 a forListening

/-! ## Masked comparison -/

def tristate (a b : Nat) : Int := if a < b then -1 else if a = b then 0 else 1

/-- The loop goes from the end to the start. -/
def torMemcmp (a b : List UInt8) : Int :=
  (a.zip b).foldr (fun v retval => (if v.1 = v.2 then retval else 0) + ((v.1.toNat : Int) - v.2.toNat)) 0

inductive TorAddrComparison where
  | CMP_EXACT
  | CMP_SEMANTIC
  deriving DecidableEq, Repr

/-- The first bits of two IPv4 addresses; `mbits` is not zero. -/
def compareIpv4 (a1 a2 : UInt32) (mbits : Nat) : Int :=
  let mbits := min mbits 32
  tristate (a1.toNat >>> (32 - mbits)) (a2.toNat >>> (32 - mbits))

def compareIpv6 (a1 a2 : Vector UInt8 16) (mbits : Nat) : Int :=
  let bytes := min mbits 128 / 8
  let leftoverBits := min mbits 128 % 8
  let r := torMemcmp (a1.toList.take bytes) (a2.toList.take bytes)
  if bytes ≠ 0 ∧ r ≠ 0 then r
  else if h : leftoverBits ≠ 0 then
    have : bytes < 16 := by omega
    tristate (a1[bytes].toNat >>> (8 - leftoverBits)) (a2[bytes].toNat >>> (8 - leftoverBits))
  else 0

def torAddrCompareMasked (addr1 addr2 : TorAddr) (mbits : UInt8) (how : TorAddrComparison) : Int :=
  let families := tristate (torAddrFamily addr1).num (torAddrFamily addr2).num
  let m := mbits.toNat
  match addr1, addr2 with
  | .unspec, .unspec => 0
  | .inet a1, .inet a2 => if m = 0 then 0 else compareIpv4 a1 a2 m
  | .inet6 a1, .inet6 a2 => compareIpv6 a1 a2 m
  | .inet6 a1, .inet a2 =>
    if how = .CMP_EXACT then families
    else if m = 0 then 0
    else if torAddrIsV4 addr1 then if m ≤ 96 then 0 else compareIpv4 (torAddrToMappedIpv4h a1) a2 (m - 96)
    else families
  | .inet a1, .inet6 a2 =>
    if how = .CMP_EXACT then families
    else if m = 0 then 0
    else if torAddrIsV4 addr2 then compareIpv4 a1 (torAddrToMappedIpv4h a2) m
    else families
  | _, _ => if how = .CMP_EXACT then families else if m = 0 then 0 else families

def torAddrCompare (addr1 addr2 : TorAddr) (how : TorAddrComparison) : Int := torAddrCompareMasked addr1 addr2 128 how

/-! ## Agreement up to a number of bits -/

theorem tristate_eq_zero {a b : Nat} : tristate a b = 0 ↔ a = b := by
  unfold tristate
  split
  · omega
  · split <;> simp_all

theorem torMemcmp_eq_zero {a b : List UInt8} (h : a.length = b.length) : torMemcmp a b = 0 ↔ a = b := by
  induction a generalizing b with
  | nil =>
    cases b with
    | nil => simp [torMemcmp]
    | cons y b => simp at h
  | cons x a ih =>
    cases b with
    | nil => simp at h
    | cons y b =>
      have ih := ih (b := b) (by simpa using h)
      change (if x = y then torMemcmp a b else 0) + ((x.toNat : Int) - y.toNat) = 0 ↔ _
      by_cases hxy : x = y
      · simp [hxy, ih]
      · have hne : x.toNat ≠ y.toNat := fun e => hxy (UInt8.toNat_inj.mp e)
        simp only [hxy, if_false, List.cons.injEq, false_and, iff_false]
        omega

/-- A bit, the first one first. -/
def bitAt : TorAddr → Nat → Bool
  | .unspec, _ => false
  | .inet a, i => i < 32 ∧ a.toNat.testBit (31 - i)
  | .inet6 a, i => (a[i / 8]?.getD 0).toNat.testBit (7 - i % 8)

/-- The two addresses are of one family and their first `n` bits are the same. -/
def MaskedEq (n : Nat) (a b : TorAddr) : Prop := torAddrFamily a = torAddrFamily b ∧ ∀ i < n, bitAt a i = bitAt b i

section
variable {n m : Nat} {a b c : TorAddr}

theorem MaskedEq.symm (h : MaskedEq n a b) : MaskedEq n b a := ⟨h.1.symm, fun i hi => (h.2 i hi).symm⟩

theorem MaskedEq.trans (h : MaskedEq n a b) (h' : MaskedEq n b c) : MaskedEq n a c :=
  ⟨h.1.trans h'.1, fun i hi => (h.2 i hi).trans (h'.2 i hi)⟩

theorem MaskedEq.mono (h : MaskedEq n a b) (hm : m ≤ n) : MaskedEq m a b :=
  ⟨h.1, fun i hi => h.2 i (Nat.lt_of_lt_of_le hi hm)⟩

end

variable {n : Nat} {a b : Vector UInt8 16}

/-- A number of `w` bits: its first `n` are what is left when the others are shifted out. -/
theorem shiftRight_eq_iff {w x y : Nat} (hn : n ≤ w) (hx : x < 2 ^ w) (hy : y < 2 ^ w) :
    x >>> (w - n) = y >>> (w - n) ↔ ∀ i < n, x.testBit (w - 1 - i) = y.testBit (w - 1 - i) := by
  refine ⟨fun h i hi => ?_, fun h => Nat.eq_of_testBit_eq fun j => ?_⟩
  · have hbit := congrArg (Nat.testBit · (n - 1 - i)) h
    simp only [Nat.testBit_shiftRight] at hbit
    rwa [show w - n + (n - 1 - i) = w - 1 - i by omega] at hbit
  · rw [Nat.testBit_shiftRight, Nat.testBit_shiftRight]
    by_cases hj : j < n
    · have hbit := h (n - 1 - j) (by omega)
      rwa [show w - 1 - (n - 1 - j) = w - n + j by omega] at hbit
    · have hle : 2 ^ w ≤ 2 ^ (w - n + j) := Nat.pow_le_pow_right (by decide) (by omega)
      rw [Nat.testBit_lt_two_pow (Nat.lt_of_lt_of_le hx hle), Nat.testBit_lt_two_pow (Nat.lt_of_lt_of_le hy hle)]

theorem compareIpv4_eq_zero {a b : UInt32} : compareIpv4 a b n = 0 ↔ MaskedEq n (.inet a) (.inet b) := by
  unfold compareIpv4
  rw [tristate_eq_zero, shiftRight_eq_iff (Nat.min_le_right n 32) a.toNat_lt b.toNat_lt]
  refine ⟨fun h => ⟨rfl, fun i hi => ?_⟩, fun h i hi => ?_⟩
  · by_cases hlt : i < 32
    · simp [bitAt, h i (by omega)]
    · simp [bitAt, hlt]
  · have hbit := h.2 i (by omega)
    have hlt : i < 32 := by omega
    simpa [bitAt, hlt] using hbit

theorem byte_eq_iff {x y : UInt8} : x = y ↔ ∀ i < 8, x.toNat.testBit (7 - i) = y.toNat.testBit (7 - i) := by
  rw [← UInt8.toNat_inj, ← shiftRight_eq_iff (w := 8) (Nat.le_refl 8) x.toNat_lt y.toNat_lt]
  rfl

theorem take_bytes_eq_iff {k : Nat} : a.toList.take k = b.toList.take k ↔ ∀ j < k, a[j]?.getD 0 = b[j]?.getD 0 := by
  refine ⟨fun h j hj => ?_, fun h => List.ext_getElem? fun j => ?_⟩
  · have hget := congrArg (·[j]?) h
    simp only [List.getElem?_take, hj, if_true, Vector.getElem?_toList] at hget
    rw [hget]
  · simp only [List.getElem?_take, Vector.getElem?_toList]
    split
    next hj =>
      by_cases hlt : j < 16
      · have hbyte := h j hj
        simpa [hlt] using hbyte
      · simp [hlt]
    · rfl

theorem compareIpv6_eq_zero : compareIpv6 a b n = 0 ↔ MaskedEq n (.inet6 a) (.inet6 b) := by
  have hlen : (a.toList.take (min n 128 / 8)).length = (b.toList.take (min n 128 / 8)).length := by simp
  have hcompare : compareIpv6 a b n = 0 ↔ (∀ j < min n 128 / 8, a[j]?.getD 0 = b[j]?.getD 0) ∧
      ∀ i < min n 128 % 8, bitAt (.inet6 a) (8 * (min n 128 / 8) + i) = bitAt (.inet6 b) (8 * (min n 128 / 8) + i) := by
    rw [← take_bytes_eq_iff]
    unfold compareIpv6
    dsimp only
    by_cases hmem : a.toList.take (min n 128 / 8) = b.toList.take (min n 128 / 8)
    · rw [if_neg fun h => h.2 ((torMemcmp_eq_zero hlen).mpr hmem)]
      by_cases hleft : min n 128 % 8 = 0
      · simp [hleft, hmem]
      · have hlt : min n 128 / 8 < 16 := by omega
        rw [dif_pos hleft, tristate_eq_zero,
          shiftRight_eq_iff (w := 8) (by omega) (UInt8.toNat_lt _) (UInt8.toNat_lt _)]
        simp only [hmem, true_and]
        refine forall₂_congr fun i hi => ?_
        have hdiv : (8 * (min n 128 / 8) + i) / 8 = min n 128 / 8 := by omega
        have hmod : (8 * (min n 128 / 8) + i) % 8 = i := by omega
        simp [bitAt, hdiv, hmod, hlt]
    · have hne : torMemcmp (a.toList.take (min n 128 / 8)) (b.toList.take (min n 128 / 8)) ≠ 0 :=
        fun h => hmem ((torMemcmp_eq_zero hlen).mp h)
      have hbytes : min n 128 / 8 ≠ 0 := fun h => hmem (by rw [h]; rfl)
      rw [if_pos ⟨hbytes, hne⟩]
      simp [hne, hmem]
  rw [hcompare]
  refine ⟨fun ⟨hbytes, hbits⟩ => ⟨rfl, fun i hi => ?_⟩, fun h => ⟨fun j hj => ?_, fun i hi => h.2 _ (by omega)⟩⟩
  · by_cases hlt : i < 128
    · by_cases hbyte : i / 8 < min n 128 / 8
      · simp [bitAt, hbytes _ hbyte]
      · have hbit := hbits (i % 8) (by omega)
        rwa [show 8 * (min n 128 / 8) + i % 8 = i by omega] at hbit
    · have hout : ¬ i / 8 < 16 := by omega
      simp [bitAt, hout]
  · refine byte_eq_iff.mpr fun i hi => ?_
    have hbit := h.2 (8 * j + i) (by omega)
    have hdiv : (8 * j + i) / 8 = j := by omega
    have hmod : (8 * j + i) % 8 = i := by omega
    simpa [bitAt, hdiv, hmod] using hbit

theorem torAddrCompareMasked_eq_zero {a b : TorAddr} {mbits : UInt8} :
    torAddrCompareMasked a b mbits .CMP_EXACT = 0 ↔ MaskedEq mbits.toNat a b := by
  have hfamily : ∀ {a b : TorAddr}, torAddrFamily a ≠ torAddrFamily b →
      tristate (torAddrFamily a).num (torAddrFamily b).num ≠ 0 := by
    intro a b h
    rw [Ne, tristate_eq_zero]
    revert h
    cases a <;> cases b <;> simp [torAddrFamily, SaFamily.num]
  by_cases hab : torAddrFamily a = torAddrFamily b
  · cases a <;> cases b <;> cases hab
    · simp [torAddrCompareMasked, MaskedEq, bitAt]
    next x y =>
      change (if mbits.toNat = 0 then 0 else compareIpv4 x y mbits.toNat) = 0 ↔ _
      rw [← compareIpv4_eq_zero]
      split
      next hzero => simp [hzero, compareIpv4, tristate_eq_zero, Nat.shiftRight_eq_zero x.toNat 32 x.toNat_lt,
        Nat.shiftRight_eq_zero y.toNat 32 y.toNat_lt]
      · rfl
    next x y => exact compareIpv6_eq_zero
  · have hexact : torAddrCompareMasked a b mbits .CMP_EXACT = tristate (torAddrFamily a).num (torAddrFamily b).num := by
      cases a <;> cases b <;> first | rfl | exact absurd rfl hab
    rw [hexact]
    exact ⟨fun h => absurd h (hfamily hab), fun h => absurd h.1 hab⟩

theorem compareIpv6_full : compareIpv6 a b 128 = torMemcmp a.toList b.toList := by
  have hall : ∀ v : Vector UInt8 16, v.toList.take 16 = v.toList := fun v => List.take_of_length_le (by simp)
  simp only [compareIpv6, Nat.min_self, Nat.reduceDiv, hall]
  by_cases hzero : torMemcmp a.toList b.toList = 0
  · simp [hzero]
  · simp [hzero]

/-- An exact comparison of all bits is an equality. -/
theorem torAddrCompare_eq_zero {a b : TorAddr} : torAddrCompare a b .CMP_EXACT = 0 ↔ a = b := by
  refine ⟨fun h => ?_, fun h => torAddrCompareMasked_eq_zero.mpr (h ▸ ⟨rfl, fun _ _ => rfl⟩)⟩
  have hfamily := (torAddrCompareMasked_eq_zero.mp h).1
  cases a <;> cases b <;> cases hfamily
  · rfl
  next x y =>
    have hzero : tristate x.toNat y.toNat = 0 := h
    rw [UInt32.toNat_inj.mp (tristate_eq_zero.mp hzero)]
  next x y =>
    have hzero : compareIpv6 x y 128 = 0 := h
    rw [compareIpv6_full, torMemcmp_eq_zero (by simp)] at hzero
    rw [Vector.toList_inj.mp hzero]

end Badnet.Net

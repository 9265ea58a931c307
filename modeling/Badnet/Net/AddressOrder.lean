/-
  Badnet.Net.AddressOrder — the order of addresses (`tor_addr_compare` of `lib/net/address.c`).

  An exact comparison is a total order, by family first. A semantic one takes a mapped IPv6 address for the IPv4 address
  in it, yet two IPv6 addresses are compared by their bytes and an IPv4 address comes before every other IPv6 address,
  so that it goes in a circle (`semantic_comparison_goes_in_a_circle`, `torAddrCompare_total_iff`).
-/

import Badnet.Lib.Bytes
import Badnet.Lib.Comparison
import Badnet.Net.Address

namespace Badnet.Net

open Lib

/-! ## Addresses as numbers -/

theorem tristate_orders (x y : Nat) : Orders (tristate x y) x y := by
  unfold tristate
  split
  · exact ⟨by simpa, by simp; omega⟩
  split
  · exact ⟨by simp; omega, by simp; omega⟩
  · exact ⟨by simp; omega, by simp; omega⟩

theorem torMemcmp_orders {a b : List UInt8} (h : a.length = b.length) : Orders (torMemcmp a b) (ofBE a) (ofBE b) := by
  induction a generalizing b with
  | nil =>
    obtain rfl := List.eq_nil_of_length_eq_zero h.symm
    exact ⟨by simp [torMemcmp], by simp [torMemcmp]⟩
  | cons x a ih =>
    cases b with
    | nil => simp at h
    | cons y b =>
      have hlen : a.length = b.length := by simpa using h
      have ih := ih hlen
      have ha := ofBE_lt a
      have hb := ofBE_lt b
      rw [ofBE_cons, ofBE_cons, ← hlen]
      rw [← hlen] at hb
      change Orders ((if x = y then torMemcmp a b else 0) + ((x.toNat : Int) - y.toNat)) _ _
      by_cases hxy : x = y
      · subst hxy
        rw [if_pos rfl, Int.sub_self, Int.add_zero]
        exact ⟨ih.1.trans (by omega), ih.2.trans (by omega)⟩
      · rw [if_neg hxy, Int.zero_add]
        have hmono : ∀ {u v p : Nat}, u < v → (u + 1) * p ≤ v * p := fun huv => Nat.mul_le_mul_right _ huv
        rcases Nat.lt_or_gt_of_ne (fun e => hxy (UInt8.toNat_inj.mp e)) with hlt | hlt
        all_goals
          have hstep := @hmono _ _ (256 ^ a.length) hlt
          rw [Nat.add_one_mul] at hstep
          exact ⟨by omega, by omega⟩

def ipv6Value (a : Vector UInt8 16) : Nat := ofBE a.toList

section
variable {a b : Vector UInt8 16} {x y : UInt32} {how : TorAddrComparison}

theorem ipv6Value_split (a : Vector UInt8 16) :
    ipv6Value a = ofBE (a.toList.take 12) * 2 ^ 32 + ofBE (a.toList.drop 12) ∧ ofBE (a.toList.drop 12) < 2 ^ 32 := by
  have hlen : (a.toList.drop 12).length = 4 := by simp
  have hlt := ofBE_lt (a.toList.drop 12)
  rw [hlen] at hlt
  refine ⟨?_, hlt⟩
  rw [ipv6Value, ← List.take_append_drop 12 a.toList, ofBE_append, List.take_append_drop, hlen]
  rfl

theorem torAddrIsV4_iff : torAddrIsV4 (.inet6 a) = true ↔ ipv6Value a / 2 ^ 32 = 0xffff := by
  obtain ⟨hsplit, hlt⟩ := ipv6Value_split a
  have hdiv : ipv6Value a / 2 ^ 32 = ofBE (a.toList.take 12) := by omega
  rw [hdiv, torAddrIsV4, decide_eq_true_eq]
  refine ⟨fun h => by rw [h]; decide, fun h => ?_⟩
  have hlen : (a.toList.take 12).length = ([0, 0, 0, 0, 0, 0, 0, 0, 0, 0, 0xff, 0xff] : List UInt8).length := by simp
  refine (torMemcmp_eq_zero hlen).mp ?_
  have horders := torMemcmp_orders hlen
  rw [h, show ofBE [0, 0, 0, 0, 0, 0, 0, 0, 0, 0, 0xff, 0xff] = 0xffff by decide] at horders
  have hlo := horders.1
  have hhi := horders.2
  omega

theorem mappedIpv4h_toNat : (torAddrToMappedIpv4h a).toNat = ipv6Value a % 2 ^ 32 := by
  obtain ⟨hsplit, hlt⟩ := ipv6Value_split a
  have hmod : ipv6Value a % 2 ^ 32 = ofBE (a.toList.drop 12) := by omega
  have hlen : a.toList.length = 16 := a.length_toList
  have hbytes : a.toList.drop 12 = [a[12], a[13], a[14], a[15]] := by
    rw [List.drop_eq_getElem_cons (by omega), List.drop_eq_getElem_cons (by omega), List.drop_eq_getElem_cons (by omega),
      List.drop_eq_getElem_cons (by omega), List.drop_of_length_le (by omega)]
    simp
  rw [hmod, hbytes]
  exact or_bytes a[12] a[13] a[14] a[15]

end

/-! ## The two comparisons -/

section
variable {a b : Vector UInt8 16} {x y : UInt32} {how : TorAddrComparison}

theorem compareIpv4_full {n : Nat} (hn : 32 ≤ n) : compareIpv4 x y n = tristate x.toNat y.toNat := by
  rw [compareIpv4, Nat.min_eq_right hn]
  rfl

/-- Two addresses of which one is IPv4 and the other IPv6. -/
theorem compare_inet_inet6 :
    torAddrCompare (.inet x) (.inet6 b) .CMP_SEMANTIC =
      if torAddrIsV4 (.inet6 b) then tristate x.toNat (torAddrToMappedIpv4h b).toNat else -1 := by
  rw [← compareIpv4_full (show 32 ≤ 128 by decide)]
  rfl

theorem compare_inet6_inet :
    torAddrCompare (.inet6 a) (.inet y) .CMP_SEMANTIC =
      if torAddrIsV4 (.inet6 a) then tristate (torAddrToMappedIpv4h a).toNat y.toNat else 1 := by
  rw [← compareIpv4_full (Nat.le_refl 32)]
  rfl

end

/-- By family, and by the address within a family. -/
def exactKey : TorAddr → Nat
  | .unspec => 0
  | .inet x => 1 + x.toNat
  | .inet6 a => 2 ^ 32 + 1 + ipv6Value a

/-- A mapped address counts as the IPv4 address in it. -/
def semanticKey : TorAddr → Nat
  | .unspec => 0
  | .inet x => 1 + x.toNat
  | .inet6 a => if torAddrIsV4 (.inet6 a) then 1 + (torAddrToMappedIpv4h a).toNat else 2 ^ 32 + 1 + ipv6Value a

section
variable (a b : Vector UInt8 16) (x y : UInt32) (how : TorAddrComparison)

theorem orders_inet : Orders (torAddrCompare (.inet x) (.inet y) how) x.toNat y.toNat := by
  change Orders (compareIpv4 x y 128) _ _
  rw [compareIpv4_full (by decide)]
  exact tristate_orders _ _

theorem orders_inet6 : Orders (torAddrCompare (.inet6 a) (.inet6 b) how) (ipv6Value a) (ipv6Value b) := by
  change Orders (compareIpv6 a b 128) _ _
  rw [compareIpv6_full]
  exact torMemcmp_orders (by simp)

end

/-- The unspecified address comes first. -/
theorem orders_unspec (a : TorAddr) (how : TorAddrComparison) :
    Orders (torAddrCompare .unspec a how) 0 (exactKey a) ∧ Orders (torAddrCompare a .unspec how) (exactKey a) 0 := by
  have hzero : Orders (0 : Int) (0 : Nat) 0 := by simp [Orders]
  have hneg : ∀ k, Orders (-1 : Int) (0 : Nat) (1 + k) := fun k => by simp [Orders]
  have hpos : ∀ k, Orders (1 : Int) (1 + k) (0 : Nat) := fun k => by simp [Orders]
  have hsix : ∀ v, exactKey (.inet6 v) = 1 + (2 ^ 32 + ipv6Value v) := fun v => by simp only [exactKey]; omega
  cases a with
  | unspec => exact ⟨hzero, hzero⟩
  | inet x => cases how <;> exact ⟨hneg _, hpos _⟩
  | inet6 v =>
    rw [hsix]
    cases how <;> exact ⟨hneg _, hpos _⟩

theorem exact_compares (a b : TorAddr) : Orders (torAddrCompare a b .CMP_EXACT) (exactKey a) (exactKey b) := by
  cases a with
  | unspec => exact (orders_unspec b _).1
  | inet x =>
    cases b with
    | unspec => exact (orders_unspec (.inet x) _).2
    | inet y => exact (orders_inet x y _).congr (by simp only [exactKey]; omega) (by simp only [exactKey]; omega)
    | inet6 b =>
      have hx := x.toNat_lt
      change Orders (-1) _ _
      exact ⟨by simp only [exactKey]; omega, by simp only [exactKey]; omega⟩
  | inet6 a =>
    cases b with
    | unspec => exact (orders_unspec (.inet6 a) _).2
    | inet y =>
      have hy := y.toNat_lt
      change Orders 1 _ _
      exact ⟨by simp only [exactKey]; omega, by simp only [exactKey]; omega⟩
    | inet6 b => exact (orders_inet6 a b _).congr (by simp only [exactKey]; omega) (by simp only [exactKey]; omega)

/-! ## The semantic comparison on a set -/

/-- An IPv4 address, a mapped one that is not above it, and an IPv6 address below all mapped ones. -/
def HasCircle (D : TorAddr → Prop) : Prop :=
  ∃ x low mapped, D (.inet x) ∧ D (.inet6 low) ∧ D (.inet6 mapped) ∧ ipv6Value low < 0xffff00000000 ∧
    torAddrIsV4 (.inet6 mapped) = true ∧ torAddrToMappedIpv4h mapped ≤ x

section
variable {D : TorAddr → Prop}

/-- With a low IPv6 address in the set, the IPv4 addresses come before the mapped ones. -/
theorem semantic_compares_low {low : Vector UInt8 16} (hlow : D (.inet6 low)) (hvalue : ipv6Value low < 0xffff00000000)
    (hcircle : ¬ HasCircle D) : ComparesBy D (fun a b => torAddrCompare a b .CMP_SEMANTIC) exactKey := by
  have hbefore : ∀ x mapped, D (.inet x) → D (.inet6 mapped) → torAddrIsV4 (.inet6 mapped) = true →
      x.toNat < (torAddrToMappedIpv4h mapped).toNat := by
    intro x mapped hx hmapped hv4
    by_contra hle
    exact hcircle ⟨x, low, mapped, hx, hlow, hmapped, hvalue, hv4, UInt32.le_iff_toNat_le.mpr (Nat.not_lt.mp hle)⟩
  intro a b ha hb
  cases a with
  | unspec => exact (orders_unspec b _).1
  | inet x =>
    have hx := x.toNat_lt
    cases b with
    | unspec => exact (orders_unspec (.inet x) _).2
    | inet y => exact (orders_inet x y _).congr (by simp only [exactKey]; omega) (by simp only [exactKey]; omega)
    | inet6 b =>
      dsimp only
      rw [compare_inet_inet6]
      split
      next hv4 =>
        have hlt := hbefore x b ha hb hv4
        exact (tristate_orders _ _).congr (by simp only [exactKey]; omega) (by simp only [exactKey]; omega)
      next => exact ⟨by simp only [exactKey]; omega, by simp only [exactKey]; omega⟩
  | inet6 a =>
    cases b with
    | unspec => exact (orders_unspec (.inet6 a) _).2
    | inet y =>
      have hy := y.toNat_lt
      dsimp only
      rw [compare_inet6_inet]
      split
      next hv4 =>
        have hlt := hbefore y a hb ha hv4
        exact (tristate_orders _ _).congr (by simp only [exactKey]; omega) (by simp only [exactKey]; omega)
      next => exact ⟨by simp only [exactKey]; omega, by simp only [exactKey]; omega⟩
    | inet6 b => exact (orders_inet6 a b _).congr (by simp only [exactKey]; omega) (by simp only [exactKey]; omega)

theorem semanticKey_pos (a : TorAddr) : 0 < exactKey a ↔ 0 < semanticKey a := by
  cases a with
  | unspec => rfl
  | inet x => rfl
  | inet6 a =>
    simp only [exactKey, semanticKey]
    split <;> omega

theorem semanticKey_inet6 {a b : Vector UInt8 16} (ha : 0xffff00000000 ≤ ipv6Value a) (hb : 0xffff00000000 ≤ ipv6Value b) :
    semanticKey (.inet6 a) < semanticKey (.inet6 b) ↔ ipv6Value a < ipv6Value b := by
  simp only [semanticKey, mappedIpv4h_toNat]
  by_cases hv4 : torAddrIsV4 (.inet6 a) = true <;> by_cases hv4' : torAddrIsV4 (.inet6 b) = true
  all_goals
    rw [torAddrIsV4_iff] at hv4 hv4'
    simp only [torAddrIsV4_iff, hv4, hv4', if_true, if_false]
    omega

/-- Without one, a mapped address can take the place of its IPv4 address. -/
theorem semantic_compares_high (hhigh : ∀ a, D (.inet6 a) → 0xffff00000000 ≤ ipv6Value a) :
    ComparesBy D (fun a b => torAddrCompare a b .CMP_SEMANTIC) semanticKey := by
  have hfirst : ∀ a, Orders (torAddrCompare .unspec a .CMP_SEMANTIC) 0 (semanticKey a) := fun a =>
    (orders_unspec a _).1.congr (semanticKey_pos a) (by simp)
  have hlast : ∀ a, Orders (torAddrCompare a .unspec .CMP_SEMANTIC) (semanticKey a) 0 := fun a =>
    (orders_unspec a _).2.congr (by simp) (semanticKey_pos a)
  intro a b ha hb
  cases a with
  | unspec => exact hfirst b
  | inet x =>
    have hx := x.toNat_lt
    cases b with
    | unspec => exact hlast (.inet x)
    | inet y => exact (orders_inet x y _).congr (by simp only [semanticKey]; omega) (by simp only [semanticKey]; omega)
    | inet6 b =>
      simp only [compare_inet_inet6, semanticKey]
      split
      next => exact (tristate_orders _ _).congr (by omega) (by omega)
      next => exact ⟨by omega, by omega⟩
  | inet6 a =>
    cases b with
    | unspec => exact hlast (.inet6 a)
    | inet y =>
      have hy := y.toNat_lt
      simp only [compare_inet6_inet, semanticKey]
      split
      next => exact (tristate_orders _ _).congr (by omega) (by omega)
      next => exact ⟨by omega, by omega⟩
    | inet6 b =>
      have hahigh := hhigh a ha
      have hbhigh := hhigh b hb
      exact (orders_inet6 a b _).congr (semanticKey_inet6 hahigh hbhigh).symm (semanticKey_inet6 hbhigh hahigh).symm

end

/-- On a set of addresses an exact comparison is a total preorder, and a semantic one is without a circle. -/
theorem torAddrCompare_total_iff (D : TorAddr → Prop) (how : TorAddrComparison) :
    TotalPreorderOn D (fun a b => torAddrCompare a b how) ↔ how = .CMP_EXACT ∨ ¬ HasCircle D := by
  constructor
  · intro h
    cases how with
    | CMP_EXACT => exact .inl rfl
    | CMP_SEMANTIC =>
      refine .inr fun hcircle => ?_
      obtain ⟨x, low, mapped, hx, hlow, hmapped, hvalue, hv4, hle⟩ := hcircle
      have hblock := torAddrIsV4_iff.mp hv4
      have hplain : ¬ torAddrIsV4 (.inet6 low) = true := fun h => by
        have hlowBlock := torAddrIsV4_iff.mp h
        omega
      have hbefore : torAddrCompare (.inet6 low) (.inet6 mapped) .CMP_SEMANTIC ≤ 0 :=
        (orders_inet6 low mapped _).le_iff.mpr (by omega)
      have hnext : torAddrCompare (.inet6 mapped) (.inet x) .CMP_SEMANTIC ≤ 0 := by
        rw [compare_inet6_inet, if_pos hv4]
        exact (tristate_orders _ _).le_iff.mpr (Nat.not_lt.mpr (UInt32.le_iff_toNat_le.mp hle))
      have hback := h.trans _ _ _ hlow hmapped hx hbefore hnext
      rw [compare_inet6_inet, if_neg hplain] at hback
      exact absurd hback (by decide)
  · have hweak : ∀ x y z : Nat, ¬ y < x → ¬ z < y → ¬ z < x := by omega
    rintro (rfl | hcircle)
    · exact ComparesBy.totalPreorderOn (fun a b _ _ => exact_compares a b) hweak
    · cases how with
      | CMP_EXACT => exact ComparesBy.totalPreorderOn (fun a b _ _ => exact_compares a b) hweak
      | CMP_SEMANTIC =>
        by_cases hlow : ∃ low, D (.inet6 low) ∧ ipv6Value low < 0xffff00000000
        · obtain ⟨low, hlow, hvalue⟩ := hlow
          exact (semantic_compares_low hlow hvalue hcircle).totalPreorderOn hweak
        · refine (semantic_compares_high fun a ha => ?_).totalPreorderOn hweak
          exact Nat.not_lt.mp fun hlt => hlow ⟨a, ha, hlt⟩

/-- `::1` is not after `::ffff:1.2.3.4`, nor that after `5.5.5.5`, yet `::1` is after `5.5.5.5`. -/
theorem semantic_comparison_goes_in_a_circle :
    let low : Vector UInt8 16 := #v[0, 0, 0, 0, 0, 0, 0, 0, 0, 0, 0, 0, 0, 0, 0, 1]
    let mapped : Vector UInt8 16 := #v[0, 0, 0, 0, 0, 0, 0, 0, 0, 0, 0xff, 0xff, 1, 2, 3, 4]
    torAddrCompare (.inet6 low) (.inet6 mapped) .CMP_SEMANTIC ≤ 0 ∧
      torAddrCompare (.inet6 mapped) (.inet 0x05050505) .CMP_SEMANTIC ≤ 0 ∧
      ¬ torAddrCompare (.inet6 low) (.inet 0x05050505) .CMP_SEMANTIC ≤ 0 := by
  decide +kernel

end Badnet.Net

/-
  Badnet.Encoding.Base16 — `base16_encode` and `base16_decode` of `lib/encoding/binascii.c`.

  The encoder writes two upper-case digits a byte. The decoder takes digits of either case, and refuses a
  text of odd length or one whose bytes do not fit the buffer.

  Proved: what is written is read back (`base16Decode_encode`).
-/

import Badnet.Encoding.Base64

namespace Badnet.Encoding

def hexDigits : Text :=
  ['0', '1', '2', '3', '4', '5', '6', '7', '8', '9', 'A', 'B', 'C', 'D', 'E', 'F']

variable (src : Bytes)

def base16Encode : Text :=
  src.flatMap fun b => [hexDigits.getD (b.toNat / 16) '0', hexDigits.getD (b.toNat % 16) '0']

/-- `hex_decode_digit`, with `none` for -1. -/
def hexDecodeDigit (c : Char) : Option Nat :=
  if '0' ≤ c ∧ c ≤ '9' then some (c.toNat - '0'.toNat)
  else if 'A' ≤ c ∧ c ≤ 'F' then some (10 + (c.toNat - 'A'.toNat))
  else if 'a' ≤ c ∧ c ≤ 'f' then some (10 + (c.toNat - 'a'.toNat))
  else none

def base16DecodeLoop : Text → Option Bytes
  | c1 :: c2 :: src => do
    let v1 ← hexDecodeDigit c1
    let v2 ← hexDecodeDigit c2
    let bytes ← base16DecodeLoop src
    some (UInt8.ofNat (v1 * 16 + v2) :: bytes)
  | _ => some []

/-- `base16_decode`: the bytes written to a buffer of `destlen` bytes, or `none` for -1. -/
def base16Decode (destlen : Nat) (src : Text) : Option Bytes :=
  if src.length % 2 ≠ 0 then none
  else if destlen < src.length / 2 ∨ destlen > 2147483647 then none
  else base16DecodeLoop src

theorem hexDecodeDigit_hexDigits : ∀ d < 16, hexDecodeDigit (hexDigits.getD d '0') = some d := by decide

theorem length_base16Encode : (base16Encode src).length = 2 * src.length := by
  induction src with
  | nil => rfl
  | cons b src ih =>
    have hcons : base16Encode (b :: src) = hexDigits.getD (b.toNat / 16) '0' :: hexDigits.getD (b.toNat % 16) '0' ::
        base16Encode src := rfl
    rw [hcons, List.length_cons, List.length_cons, ih, List.length_cons]
    omega

theorem mem_base16Encode {src : Bytes} {c : Char} (h : c ∈ base16Encode src) : c ∈ hexDigits := by
  obtain ⟨b, -, hc⟩ := List.mem_flatMap.mp h
  have hb := b.toNat_lt
  have hget : ∀ d < 16, hexDigits.getD d '0' ∈ hexDigits := by decide
  simp only [List.mem_cons, List.not_mem_nil, or_false] at hc
  rcases hc with rfl | rfl
  · exact hget _ (by omega)
  · exact hget _ (by omega)

theorem base16DecodeLoop_encode : base16DecodeLoop (base16Encode src) = some src := by
  induction src with
  | nil => rfl
  | cons b src ih =>
    have hb := b.toNat_lt
    have hbyte : UInt8.ofNat (b.toNat / 16 * 16 + b.toNat % 16) = b := by
      rw [Nat.mul_comm, Nat.div_add_mod, UInt8.ofNat_toNat]
    have hcons : base16Encode (b :: src) = hexDigits.getD (b.toNat / 16) '0' :: hexDigits.getD (b.toNat % 16) '0' ::
        base16Encode src := rfl
    rw [hcons, base16DecodeLoop, hexDecodeDigit_hexDigits _ (by omega), hexDecodeDigit_hexDigits _ (by omega), ih]
    simp only [Option.bind_eq_bind, Option.bind_some, hbyte]

theorem base16Decode_encode {src : Bytes} {destlen : Nat} (h : src.length ≤ destlen) (hmax : destlen ≤ 2147483647) :
    base16Decode destlen (base16Encode src) = some src := by
  have hlen := length_base16Encode src
  rw [base16Decode, if_neg (by omega), if_neg (by omega), base16DecodeLoop_encode]

end Badnet.Encoding

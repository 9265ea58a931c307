/-
  Badnet.Encoding.Base32 — `base32_encoded_size`, `base32_encode` and `base32_decode` of `lib/encoding/binascii.c`.

  The encoder takes five bits at a time from the two bytes that they lie in; the decoder joins two or three characters
  to a byte, in one of five ways by the place of the byte. It never reads outside its array (`base32Decode_inRange`),
  and returns the bytes that were encoded (`base32Decode_encode`).
-/

import Badnet.Encoding.Base64
import Badnet.Lib.Run

namespace Badnet.Encoding

open Lib

inductive BinasciiFault where
  | assertion
  | outOfRange
  deriving DecidableEq, Repr

/-- `tor_assert` -/
def torAssert (c : Prop) [Decidable c] : Except BinasciiFault Unit := if c then .ok () else .error .assertion

/-! ## Encoding -/

/-- The size counts the terminating NUL. -/
def base32EncodedSize (srclen : Nat) : Except BinasciiFault Nat := do
  torAssert (srclen < SIZE_T_CEILING / 8)
  let enclen := (srclen * 8 + 4) / 5 + 1
  torAssert (enclen < INT_MAX ∧ enclen > srclen)
  return enclen

def base32Chars : Text := "abcdefghijklmnopqrstuvwxyz234567".toList

variable (src : Bytes)

/-- The 16-bit value that starts at a byte, 0-padded. -/
def base32Word (idx : Nat) : Nat :=
  (src.getD idx 0).toNat <<< 8 + (if idx + 1 < src.length then (src.getD (idx + 1) 0).toNat else 0)

/-- The 5-bit value at a bit. -/
def base32Symbol (bit : Nat) : Nat := base32Word src (bit / 8) >>> (11 - bit % 8) % 32

def base32EncodeLoop (src : Bytes) (bit : Nat) : Text :=
  if bit < src.length * 8 then base32Chars.getD (base32Symbol src bit) 'a' :: base32EncodeLoop src (bit + 5) else []
termination_by src.length * 8 - bit

variable (destlen : Nat)

/-- `base32_encode`: the text in front of the NUL. -/
def base32Encode (src : Bytes) : Except BinasciiFault Text := do
  torAssert ((← base32EncodedSize src.length) ≤ destlen)
  torAssert (destlen < SIZE_T_CEILING)
  return base32EncodeLoop src 0

/-! ## Decoding -/

/-- The number of a character, or `none` for an illegal one. -/
def base32Value (c : Char) : Option Nat :=
  if c.toNat > 0x60 ∧ c.toNat < 0x7B then some (c.toNat - 0x61)
  else if c.toNat > 0x31 ∧ c.toNat < 0x38 then some (c.toNat - 0x18)
  else if c.toNat > 0x40 ∧ c.toNat < 0x5B then some (c.toNat - 0x41)
  else none

def symbolAt (tmp : List Nat) (j : Nat) : Except BinasciiFault Nat :=
  match tmp[j]? with
  | some v => .ok v
  | none => .error .outOfRange

/-- The five cases of the loop. -/
def base32Byte (tmp : List Nat) (bit : Nat) : Except BinasciiFault UInt8 :=
  match bit % 40 with
  | 0 => do
    return UInt8.ofNat ((← symbolAt tmp (bit / 5)) <<< 3 + (← symbolAt tmp (bit / 5 + 1)) >>> 2)
  | 8 => do
    return UInt8.ofNat ((← symbolAt tmp (bit / 5)) <<< 6 + (← symbolAt tmp (bit / 5 + 1)) <<< 1 + (← symbolAt tmp (bit / 5 + 2)) >>> 4)
  | 16 => do
    return UInt8.ofNat ((← symbolAt tmp (bit / 5)) <<< 4 + (← symbolAt tmp (bit / 5 + 1)) >>> 1)
  | 24 => do
    return UInt8.ofNat ((← symbolAt tmp (bit / 5)) <<< 7 + (← symbolAt tmp (bit / 5 + 1)) <<< 2 + (← symbolAt tmp (bit / 5 + 2)) >>> 3)
  | 32 => do
    return UInt8.ofNat ((← symbolAt tmp (bit / 5)) <<< 5 + (← symbolAt tmp (bit / 5 + 1)))
  | _ => return 0

def base32DecodeLoop (tmp : List Nat) (nbits bit : Nat) : Except BinasciiFault Bytes :=
  if bit < nbits then do
    let byte ← base32Byte tmp bit
    return byte :: (← base32DecodeLoop tmp nbits (bit + 8))
  else return []
termination_by nbits - bit

/-- `base32_decode`, with `none` for -1. -/
def base32Decode (src : Text) : Except BinasciiFault (Option Bytes) := do
  let nbits := src.length * 5 / 8 * 8
  torAssert (src.length < SIZE_T_CEILING / 5)
  torAssert (nbits / 8 ≤ destlen)
  torAssert (destlen < SIZE_T_CEILING)
  match src.mapM base32Value with
  | none => return none
  | some tmp => return some (← base32DecodeLoop tmp nbits 0)

/-! ## Only what was decoded is read -/

theorem symbolAt_of_lt {tmp : List Nat} {j : Nat} (h : j < tmp.length) : symbolAt tmp j = .ok (tmp.getD j 0) := by
  simp only [symbolAt, List.getD_eq_getElem?_getD, List.getElem?_eq_getElem h, Option.getD_some]

/-- The symbols of one byte are those that its eight bits lie in. -/
theorem base32Byte_inRange {tmp : List Nat} {bit : Nat} (h : bit + 8 ≤ tmp.length * 5) : ∃ b, base32Byte tmp bit = .ok b := by
  have hread : ∀ k, 5 * (bit / 5 + k) < bit + 8 → symbolAt tmp (bit / 5 + k) = .ok (tmp.getD (bit / 5 + k) 0) :=
    fun k hk => symbolAt_of_lt (by omega)
  have h0 := hread 0 (by omega)
  unfold base32Byte
  split
  · rw [Nat.add_zero] at h0
    rw [h0, hread 1 (by omega)]
    exact ⟨_, rfl⟩
  · rw [Nat.add_zero] at h0
    rw [h0, hread 1 (by omega), hread 2 (by omega)]
    exact ⟨_, rfl⟩
  · rw [Nat.add_zero] at h0
    rw [h0, hread 1 (by omega)]
    exact ⟨_, rfl⟩
  · rw [Nat.add_zero] at h0
    rw [h0, hread 1 (by omega), hread 2 (by omega)]
    exact ⟨_, rfl⟩
  · rw [Nat.add_zero] at h0
    rw [h0, hread 1 (by omega)]
    exact ⟨_, rfl⟩
  · exact ⟨0, rfl⟩

theorem base32DecodeLoop_inRange {tmp : List Nat} {nbits : Nat} (hmul : nbits % 8 = 0) (hle : nbits ≤ tmp.length * 5) (bit : Nat) :
    bit % 8 = 0 → ∃ bytes, base32DecodeLoop tmp nbits bit = .ok bytes := by
  fun_induction base32DecodeLoop tmp nbits bit with
  | case1 bit hbit ih =>
    intro hmod
    obtain ⟨b, hb⟩ := base32Byte_inRange (show bit + 8 ≤ tmp.length * 5 by omega)
    obtain ⟨bytes, hbytes⟩ := ih (by omega)
    exact ⟨b :: bytes, by rw [hb, hbytes]; rfl⟩
  | case2 bit hbit => exact fun _ => ⟨[], rfl⟩

theorem torAssert_bind {α : Type} (c : Prop) [Decidable c] (f : Unit → Except BinasciiFault α) :
    (torAssert c >>= f) = if c then f () else .error .assertion := by
  unfold torAssert
  split <;> rfl

/-- The decoder reads the array only where it was written, whatever the length. -/
theorem base32Decode_inRange (src : Text) : base32Decode destlen src ≠ .error .outOfRange := by
  unfold base32Decode
  simp only [torAssert_bind]
  split
  · split
    · split
      · cases htmp : src.mapM base32Value with
        | none => exact nofun
        | some tmp =>
          have hlen := length_mapM htmp
          obtain ⟨bytes, hbytes⟩ := @base32DecodeLoop_inRange tmp (src.length * 5 / 8 * 8) (by omega) (by omega) 0 rfl
          simp only [hbytes]
          exact nofun
      · exact nofun
    · exact nofun
  · exact nofun

/-! ## Reading back -/

/-- The bytes, and zeros behind them. -/
def byteAt (k : Nat) : Nat := (src.getD k 0).toNat

theorem byteAt_lt (k : Nat) : byteAt src k < 256 := UInt8.toNat_lt _

theorem base32Word_eq (idx : Nat) : base32Word src idx = byteAt src idx * 256 + byteAt src (idx + 1) := by
  unfold base32Word byteAt
  rw [Nat.shiftLeft_eq]
  congr 1
  split
  · rfl
  next h =>
    rw [List.getD_eq_getElem?_getD, List.getElem?_eq_none (by omega)]
    rfl

theorem base32Symbol_eq (bit : Nat) :
    base32Symbol src bit = (byteAt src (bit / 8) * 256 + byteAt src (bit / 8 + 1)) / 2 ^ (11 - bit % 8) % 32 := by
  rw [base32Symbol, base32Word_eq, Nat.shiftRight_eq_div_pow]

/-- The symbols of some bytes. -/
def base32Symbols : List Nat := (List.range ((src.length * 8 + 4) / 5)).map fun k => base32Symbol src (5 * k)

theorem base32EncodeLoop_eq : base32EncodeLoop src 0 = (base32Symbols src).map fun v => base32Chars.getD v 'a' := by
  have hfrom : ∀ n k, k + n = (src.length * 8 + 4) / 5 →
      base32EncodeLoop src (5 * k) = (List.range' k n).map fun k => base32Chars.getD (base32Symbol src (5 * k)) 'a' := by
    intro n
    induction n with
    | zero =>
      intro k hk
      rw [base32EncodeLoop, if_neg (by omega)]
      rfl
    | succ n ih =>
      intro k hk
      rw [base32EncodeLoop, if_pos (by omega), show 5 * k + 5 = 5 * (k + 1) by omega, ih (k + 1) (by omega)]
      rfl
  have hall := hfrom _ 0 (Nat.zero_add _)
  rw [Nat.mul_zero] at hall
  rw [hall, base32Symbols, List.map_map, List.range_eq_range']
  rfl

theorem base32Value_chars : ∀ v < 32, base32Value (base32Chars.getD v 'a') = some v := by decide

theorem base32Symbol_lt (bit : Nat) : base32Symbol src bit < 32 := Nat.mod_lt _ (by decide)

theorem mapM_base32Value : (base32EncodeLoop src 0).mapM base32Value = some (base32Symbols src) := by
  have hvalue : ∀ v ∈ base32Symbols src, base32Value (base32Chars.getD v 'a') = some v := by
    intro v hv
    obtain ⟨k, -, rfl⟩ := List.mem_map.mp hv
    exact base32Value_chars _ (base32Symbol_lt src _)
  have hall : ∀ c ∈ (base32Symbols src).map fun v => base32Chars.getD v 'a', base32Value c = some ((base32Value c).getD 0) := by
    intro c hc
    obtain ⟨v, hv, rfl⟩ := List.mem_map.mp hc
    rw [hvalue v hv, Option.getD_some]
  rw [base32EncodeLoop_eq, mapM_some hall, List.map_map]
  congr 1
  refine (List.map_congr_left fun v hv => ?_).trans (List.map_id _)
  rw [Function.comp_apply, hvalue v hv, Option.getD_some, id]

theorem symbolAt_base32Symbols {src : Bytes} {k : Nat} (h : 5 * k < src.length * 8) :
    symbolAt (base32Symbols src) k = .ok (base32Symbol src (5 * k)) := by
  have hlen : k < (src.length * 8 + 4) / 5 := by omega
  simp [symbolAt, base32Symbols, hlen]

/-- Two or three symbols give back the byte that they were taken from. -/
theorem base32Byte_symbols {src : Bytes} {i : Nat} (h : i < src.length) :
    base32Byte (base32Symbols src) (8 * i) = .ok (src.getD i 0) := by
  obtain ⟨q, r, hr, rfl⟩ : ∃ q r, r < 5 ∧ i = 5 * q + r := ⟨i / 5, i % 5, Nat.mod_lt _ (by decide), (Nat.div_add_mod i 5).symm⟩
  have hread : ∀ t, 40 * q + 5 * t < 8 * (5 * q + r) + 8 → symbolAt (base32Symbols src) (8 * q + t) =
      .ok ((byteAt src (5 * q + 5 * t / 8) * 256 + byteAt src (5 * q + 5 * t / 8 + 1)) / 2 ^ (11 - 5 * t % 8) % 32) := by
    intro t ht
    rw [symbolAt_base32Symbols (by omega), base32Symbol_eq, show 5 * (8 * q + t) / 8 = 5 * q + 5 * t / 8 by omega,
      show 5 * (8 * q + t) % 8 = 5 * t % 8 by omega]
  have hbyte : ∀ n, n % 256 = byteAt src (5 * q + r) → (Except.ok (UInt8.ofNat n) : Except BinasciiFault UInt8) = .ok (src.getD (5 * q + r) 0) := by
    intro n hn
    congr 1
    apply UInt8.toNat_inj.mp
    rw [UInt8.toNat_ofNat', hn]
    rfl
  have hmod : 8 * (5 * q + r) % 40 = 8 * r := by omega
  have hb := byteAt_lt src
  unfold base32Byte
  rcases (show r = 0 ∨ r = 1 ∨ r = 2 ∨ r = 3 ∨ r = 4 by omega) with rfl | rfl | rfl | rfl | rfl
  · have h0 := hread 0 (by omega)
    have h1 := hread 1 (by omega)
    rw [hmod, show 8 * (5 * q + 0) / 5 = 8 * q + 0 by omega, h0, h1]
    refine hbyte _ ?_
    have hb0 := hb (5 * q)
    have hb1 := hb (5 * q + 1)
    simp only [Nat.shiftLeft_eq, Nat.shiftRight_eq_div_pow, Nat.reduceMul, Nat.reduceDiv, Nat.reduceMod, Nat.reduceSub,
      Nat.reducePow, Nat.add_zero]
    omega
  · have h1 := hread 1 (by omega)
    have h2 := hread 2 (by omega)
    have h3 := hread 3 (by omega)
    rw [hmod, show 8 * (5 * q + 1) / 5 = 8 * q + 1 by omega, h1, h2, h3]
    refine hbyte _ ?_
    have hb1 := hb (5 * q + 1)
    have hb2 := hb (5 * q + 2)
    simp only [Nat.shiftLeft_eq, Nat.shiftRight_eq_div_pow, Nat.reduceMul, Nat.reduceDiv, Nat.reduceMod, Nat.reduceSub,
      Nat.reducePow, Nat.add_zero, Nat.add_assoc, Nat.reduceAdd]
    omega
  · have h3 := hread 3 (by omega)
    have h4 := hread 4 (by omega)
    rw [hmod, show 8 * (5 * q + 2) / 5 = 8 * q + 3 by omega, h3, h4]
    refine hbyte _ ?_
    have hb2 := hb (5 * q + 2)
    have hb3 := hb (5 * q + 3)
    simp only [Nat.shiftLeft_eq, Nat.shiftRight_eq_div_pow, Nat.reduceMul, Nat.reduceDiv, Nat.reduceMod, Nat.reduceSub,
      Nat.reducePow, Nat.add_assoc, Nat.reduceAdd]
    omega
  · have h4 := hread 4 (by omega)
    have h5 := hread 5 (by omega)
    have h6 := hread 6 (by omega)
    rw [hmod, show 8 * (5 * q + 3) / 5 = 8 * q + 4 by omega, h4, h5, h6]
    refine hbyte _ ?_
    have hb3 := hb (5 * q + 3)
    have hb4 := hb (5 * q + 4)
    simp only [Nat.shiftLeft_eq, Nat.shiftRight_eq_div_pow, Nat.reduceMul, Nat.reduceDiv, Nat.reduceMod, Nat.reduceSub,
      Nat.reducePow, Nat.add_assoc, Nat.reduceAdd]
    omega
  · have h6 := hread 6 (by omega)
    have h7 := hread 7 (by omega)
    rw [hmod, show 8 * (5 * q + 4) / 5 = 8 * q + 6 by omega, h6, h7]
    refine hbyte _ ?_
    have hb4 := hb (5 * q + 4)
    have hb5 := hb (5 * q + 5)
    simp only [Nat.shiftLeft_eq, Nat.reduceMul, Nat.reduceDiv, Nat.reduceMod, Nat.reduceSub,
      Nat.reducePow, Nat.add_assoc, Nat.reduceAdd]
    omega

theorem base32DecodeLoop_symbols : ∀ n i, i + n = src.length →
    base32DecodeLoop (base32Symbols src) (8 * src.length) (8 * i) = .ok (src.drop i) := by
  intro n
  induction n with
  | zero =>
    intro i hi
    rw [base32DecodeLoop, if_neg (by omega), List.drop_eq_nil_of_le (by omega)]
    rfl
  | succ n ih =>
    intro i hi
    have hlt : i < src.length := by omega
    rw [base32DecodeLoop, if_pos (by omega), base32Byte_symbols hlt, show 8 * i + 8 = 8 * (i + 1) by omega,
      List.drop_eq_getElem_cons hlt, List.getD_eq_getElem?_getD, List.getElem?_eq_getElem hlt]
    have hrest := ih (i + 1) (by omega)
    change (base32DecodeLoop (base32Symbols src) (8 * src.length) (8 * (i + 1)) >>= fun bytes => pure (src[i] :: bytes)) = _
    rw [hrest]
    rfl

theorem length_base32EncodeLoop : (base32EncodeLoop src 0).length = (src.length * 8 + 4) / 5 := by
  rw [base32EncodeLoop_eq, base32Symbols, List.length_map, List.length_map, List.length_range]

theorem base32EncodedSize_eq {srclen size : Nat} (h : base32EncodedSize srclen = .ok size) :
    size = (srclen * 8 + 4) / 5 + 1 ∧ size < INT_MAX := by
  simp only [base32EncodedSize, torAssert_bind] at h
  split at h
  · split at h
    next hsize =>
      cases h
      exact ⟨rfl, hsize.1⟩
    · cases h
  · cases h

/-- What is written has the size that was asked for, and is read back into any buffer that is large enough. -/
theorem base32Decode_encode {src : Bytes} {size : Nat} (hsize : base32EncodedSize src.length = .ok size) {destlen : Nat}
    (hdest : size ≤ destlen) (hmax : destlen < SIZE_T_CEILING) :
    ∃ text, base32Encode destlen src = .ok text ∧ text.length + 1 = size ∧
      ∀ destlen', src.length ≤ destlen' → destlen' < SIZE_T_CEILING → base32Decode destlen' text = .ok (some src) := by
  obtain ⟨hval, hint⟩ := base32EncodedSize_eq hsize
  have hlen := length_base32EncodeLoop src
  refine ⟨base32EncodeLoop src 0, ?_, by omega, fun destlen' hdest' hmax' => ?_⟩
  · unfold base32Encode
    rw [hsize]
    change (torAssert (size ≤ destlen) >>= fun _ => torAssert (destlen < SIZE_T_CEILING) >>= fun _ => pure (base32EncodeLoop src 0)) = _
    rw [torAssert_bind, if_pos hdest, torAssert_bind, if_pos hmax]
    rfl
  · have hbits : (base32EncodeLoop src 0).length * 5 / 8 * 8 = 8 * src.length := by omega
    have hbytes := base32DecodeLoop_symbols src src.length 0 (by omega)
    rw [Nat.mul_zero, List.drop_zero] at hbytes
    have hshort : (base32EncodeLoop src 0).length < SIZE_T_CEILING / 5 := by
      simp only [INT_MAX, SIZE_T_CEILING] at hint ⊢
      omega
    unfold base32Decode
    simp only [torAssert_bind, hbits]
    rw [if_pos hshort, if_pos (by omega), if_pos hmax', mapM_base32Value]
    simp only [hbytes]
    rfl

end Badnet.Encoding

/-
  Badnet.Encoding.Binascii — the codecs of `lib/encoding/binascii.c` with their assertions.

  The functions of the other modules compute what is written and read; around them stand the checks of the buffer
  lengths and the assertions. Within the asserted limits no assertion fails and every codec returns the bytes
  (`codecs_are_exact`). `base16_decode` writes at most INT_MAX bytes although `base16_encode` takes more
  (`base16_decode_refuses_what_base16_encode_wrote`).
-/

import Badnet.Encoding.Base16
import Badnet.Encoding.Base32

namespace Badnet.Encoding.Asserted

/-! ## Base16 -/

def base16Encode (destlen : Nat) (src : Bytes) : Except BinasciiFault Text := do
  torAssert (src.length < SIZE_T_CEILING / 2 - 1)
  torAssert (destlen ≥ 2 * src.length + 1)
  torAssert (destlen < SIZE_T_CEILING)
  return Encoding.base16Encode src

def base16Decode (destlen : Nat) (src : Text) : Except BinasciiFault (Option Bytes) :=
  match Encoding.base16Decode destlen src with
  | none => .ok none
  | some bytes => do
    torAssert (bytes.length ≤ destlen)
    return some bytes

/-! ## Base64 -/

def base64EncodeSize (srclen : Nat) (multiline : Bool) : Except BinasciiFault Nat := do
  torAssert (srclen < INT_MAX)
  torAssert ((srclen + 2) / 3 < INT_MAX / 4)
  let enclen := Encoding.base64EncodeSize srclen multiline
  torAssert (enclen < INT_MAX ∧ (enclen = 0 ∨ enclen > srclen))
  return enclen

/-- `none` for -1. -/
def base64Encode (destlen : Nat) (src : Bytes) (multiline : Bool) : Except BinasciiFault (Option Text) := do
  let enclen ← base64EncodeSize src.length multiline
  if destlen < enclen + 1 ∨ destlen > SIZE_T_CEILING ∨ enclen > INT_MAX then return none
  let dest := encoded multiline src
  torAssert (dest.length = enclen)
  return some dest

/-- The text goes up to the first NUL, and the encoder writes none. -/
def base64EncodeNopad (destlen : Nat) (src : Bytes) : Except BinasciiFault (Option Text) := do
  match ← base64Encode destlen src false with
  | none => return none
  | some dest =>
    if dest.length = 0 then return some dest
    torAssert (dest.length < destlen)
    let out := dest.filter fun c => c ≠ '=' ∧ c ≠ '\n'
    torAssert (out.length ≤ INT_MAX)
    return some out

def base64Decode (destlen : Nat) (src : Text) : Except BinasciiFault (Option Bytes) :=
  match Encoding.base64Decode destlen src with
  | none => .ok none
  | some bytes => do
    torAssert (bytes.length ≤ destlen)
    return some bytes

/-! ## Within the limits -/

/-- BASE64_NOPAD_LEN -/
def base64NopadLen (n : Nat) : Nat := (n * 4 + 2) / 3

variable {src : Bytes} {destlen size : Nat}

theorem base16Decode_base16Encode (hlen : src.length ≤ destlen) (hmax : destlen ≤ INT_MAX) :
    base16Decode destlen (Encoding.base16Encode src) = .ok (some src) := by
  unfold base16Decode
  rw [base16Decode_encode hlen hmax]
  simp only [torAssert_bind, if_pos hlen]
  rfl

theorem base16Encode_ok (hsrc : src.length < SIZE_T_CEILING / 2 - 1)
    (hlen : 2 * src.length + 1 ≤ destlen) (hmax : destlen < SIZE_T_CEILING) :
    base16Encode destlen src = .ok (Encoding.base16Encode src) := by
  simp only [base16Encode, torAssert_bind, if_pos hsrc, if_pos hlen, if_pos hmax]
  rfl

theorem base64Decode_of_eq {text : Text} (hlen : src.length ≤ destlen)
    (h : Encoding.base64Decode destlen text = some src) : base64Decode destlen text = .ok (some src) := by
  unfold base64Decode
  rw [h]
  simp only [torAssert_bind, if_pos hlen]
  rfl

theorem base64EncodeSize_ok {srclen : Nat} {multiline : Bool} (h : base64EncodeSize srclen multiline = .ok size) :
    size = Encoding.base64EncodeSize srclen multiline ∧ size < INT_MAX := by
  simp only [base64EncodeSize, torAssert_bind] at h
  split at h
  · split at h
    · split at h
      next hsize =>
        cases h
        exact ⟨rfl, hsize.1⟩
      · cases h
    · cases h
  · cases h

theorem base64Encode_ok {multiline : Bool} (hsize : base64EncodeSize src.length multiline = .ok size) (hlen : size + 1 ≤ destlen) (hmax : destlen ≤ SIZE_T_CEILING) :
    base64Encode destlen src multiline = .ok (some (encoded multiline src)) := by
  obtain ⟨hval, hint⟩ := base64EncodeSize_ok hsize
  have hok : ∀ {α β : Type} (x : α) (f : α → Except BinasciiFault β), ((.ok x : Except BinasciiFault α) >>= f) = f x := fun _ _ => rfl
  have hlength : (encoded multiline src).length = size := by rw [length_encoded, hval]
  simp only [base64Encode, hsize, hok, torAssert_bind]
  rw [if_neg (by omega), if_pos hlength]
  rfl

/-- Without its padding a text has the symbols of the bytes alone. -/
theorem filter_encoded (src : Bytes) : (encoded false src).filter (fun c => c ≠ '=' ∧ c ≠ '\n') = symbols src := by
  have hfit : ¬ Encoding.base64EncodeSize src.length false + 1 < Encoding.base64EncodeSize src.length false + 1 := Nat.lt_irrefl _
  have hnopad := @base64EncodeNopad_eq src (Encoding.base64EncodeSize src.length false + 1) (Nat.lt_succ_self _)
  rw [Encoding.base64EncodeNopad, Encoding.base64Encode, if_neg hfit, Option.map_some] at hnopad
  exact Option.some.inj hnopad

theorem base64EncodeNopad_ok (hsize : base64EncodeSize src.length false = .ok size)
    (hlen : size + 1 ≤ destlen) (hmax : destlen ≤ SIZE_T_CEILING) : base64EncodeNopad destlen src = .ok (some (symbols src)) := by
  obtain ⟨hval, hint⟩ := base64EncodeSize_ok hsize
  have hlength : (encoded false src).length = size := by rw [length_encoded, hval]
  have hsymbols : (symbols src).length ≤ size := by
    rw [← hlength, encoded_single, List.length_append]
    omega
  have hok : ∀ {α β : Type} (x : α) (f : α → Except BinasciiFault β), ((.ok x : Except BinasciiFault α) >>= f) = f x := fun _ _ => rfl
  simp only [base64EncodeNopad, base64Encode_ok hsize hlen hmax, hok, torAssert_bind, filter_encoded]
  split
  next hempty =>
    have hnil : symbols src = [] := List.eq_nil_of_length_eq_zero (by omega)
    rw [List.eq_nil_of_length_eq_zero hempty, hnil]
    rfl
  · rw [if_pos (by omega), if_pos (by omega)]
    rfl

/-- Every codec returns the bytes within its limits, and writes as many characters as its size function says;
`base32_decode` reads no symbol beyond those that it decoded. -/
theorem codecs_are_exact (src : Bytes) :
    (src.length ≤ INT_MAX → ∀ destlen, 2 * src.length + 1 ≤ destlen → destlen < SIZE_T_CEILING →
      ∃ text, base16Encode destlen src = .ok text ∧ text.length = 2 * src.length ∧
        ∀ destlen', src.length ≤ destlen' → destlen' ≤ INT_MAX → base16Decode destlen' text = .ok (some src)) ∧
    (∀ size destlen, base32EncodedSize src.length = .ok size → size ≤ destlen → destlen < SIZE_T_CEILING →
      ∃ text, base32Encode destlen src = .ok text ∧ text.length + 1 = size ∧
        ∀ destlen', src.length ≤ destlen' → destlen' < SIZE_T_CEILING → base32Decode destlen' text = .ok (some src)) ∧
    (∀ multiline size destlen, base64EncodeSize src.length multiline = .ok size → size + 1 ≤ destlen → destlen ≤ SIZE_T_CEILING →
      ∃ text, base64Encode destlen src multiline = .ok (some text) ∧ text.length = size ∧
        ∀ destlen', src.length ≤ destlen' → destlen' ≤ INT_MAX → base64Decode destlen' text = .ok (some src)) ∧
    (∀ size destlen, base64EncodeSize src.length false = .ok size → size + 1 ≤ destlen → destlen ≤ SIZE_T_CEILING →
      ∃ text, base64EncodeNopad destlen src = .ok (some text) ∧ text.length = base64NopadLen src.length ∧
        ∀ destlen', src.length ≤ destlen' → destlen' ≤ INT_MAX → base64Decode destlen' text = .ok (some src)) ∧
    ∀ destlen text, base32Decode destlen text ≠ .error .outOfRange := by
  refine ⟨fun hsrc destlen hlen hmax => ?_, fun size destlen hsize hlen hmax => base32Decode_encode hsize hlen hmax,
    fun multiline size destlen hsize hlen hmax => ?_, fun size destlen hsize hlen hmax => ?_, base32Decode_inRange⟩
  · have hlimit : src.length < SIZE_T_CEILING / 2 - 1 := Nat.lt_of_le_of_lt hsrc (by decide)
    exact ⟨_, base16Encode_ok hlimit hlen hmax, length_base16Encode src,
      fun _ hlen' hmax' => base16Decode_base16Encode hlen' hmax'⟩
  · exact ⟨_, base64Encode_ok hsize hlen hmax, by rw [length_encoded, (base64EncodeSize_ok hsize).1],
      fun _ hlen' hmax' => base64Decode_of_eq hlen' (base64Decode_encode hmax' hlen' multiline)⟩
  · exact ⟨_, base64EncodeNopad_ok hsize hlen hmax, length_symbols src,
      fun _ hlen' hmax' => base64Decode_of_eq hlen' (base64Decode_nopad hmax' hlen')⟩

theorem three_bytes_are_exact :
    (∃ text, base16Encode 7 [1, 2, 255] = .ok text ∧ text.length = 6 ∧
      ∀ destlen', 3 ≤ destlen' → destlen' ≤ INT_MAX → base16Decode destlen' text = .ok (some [1, 2, 255])) ∧
    (∃ text, base32Encode 6 [1, 2, 255] = .ok text ∧ text.length + 1 = 6 ∧
      ∀ destlen', 3 ≤ destlen' → destlen' < SIZE_T_CEILING → base32Decode destlen' text = .ok (some [1, 2, 255])) ∧
    (∃ text, base64Encode 6 [1, 2, 255] true = .ok (some text) ∧ text.length = 5 ∧
      ∀ destlen', 3 ≤ destlen' → destlen' ≤ INT_MAX → base64Decode destlen' text = .ok (some [1, 2, 255])) ∧
    ∃ text, base64EncodeNopad 5 [1, 2, 255] = .ok (some text) ∧ text.length = 4 ∧
      ∀ destlen', 3 ≤ destlen' → destlen' ≤ INT_MAX → base64Decode destlen' text = .ok (some [1, 2, 255]) :=
  have h := codecs_are_exact [1, 2, 255]
  ⟨h.1 (by decide) 7 (by decide) (by decide), h.2.1 6 6 (by decide) (by decide) (by decide),
    h.2.2.1 true 5 6 (by decide) (by decide) (by decide), h.2.2.2.1 4 5 (by decide) (by decide) (by decide)⟩

theorem base16Decode_refuses (h : INT_MAX < src.length) (destlen : Nat) :
    base16Decode destlen (Encoding.base16Encode src) = .ok none := by
  have hint : INT_MAX = 2147483647 := rfl
  have hlen := length_base16Encode src
  have hnone : Encoding.base16Decode destlen (Encoding.base16Encode src) = none := by
    rw [Encoding.base16Decode, if_neg (by omega), if_pos (by omega)]
  unfold base16Decode
  rw [hnone]

theorem exists_length (n : Nat) : ∃ src : Bytes, src.length = n := ⟨List.replicate n 0, List.length_replicate⟩

/-- `base16_encode` takes 2^31 bytes, and no buffer makes `base16_decode` return them. -/
theorem base16_decode_refuses_what_base16_encode_wrote :
    ∃ src : Bytes, src.length = 2147483648 ∧ ∃ text, base16Encode 4294967297 src = .ok text ∧
      ∀ destlen, base16Decode destlen text = .ok none := by
  obtain ⟨src, hlen⟩ := exists_length 2147483648
  refine ⟨src, hlen, _, base16Encode_ok ?_ ?_ (by decide), base16Decode_refuses ?_⟩
  · rw [hlen]
    decide
  · rw [hlen]
  · rw [hlen]
    decide

end Badnet.Encoding.Asserted

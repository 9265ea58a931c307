/-
  Badnet.Encoding.Base64 — base64 as `lib/encoding/binascii.c` writes and reads it (`base64_encode_size`,
  `base64_encode`, `base64_encode_nopad`, `base64_decode`).

  In multiline mode a newline follows every 64th character and ends the last line. The decoder skips white space, stops
  at the first `=` and does not check the padding. A text is a list of characters, a buffer its length; the shifts are
  written as products and quotients. What either mode writes is read back (`base64Decode_encode`, `base64Decode_nopad`).
-/

import Mathlib.Algebra.Ring.Nat
import Badnet.Lib.Lines

namespace Badnet.Encoding

open Lib

abbrev Text := List Char

abbrev Bytes := List UInt8

/-! ## Encoding -/

def base64EncodeSize (srclen : Nat) (multiline : Bool) : Nat :=
  let enclen := (srclen + 2) / 3 * 4
  if multiline then enclen + (enclen + 63) / 64 else enclen

def base64EncodeTable : Text :=
  ['A', 'B', 'C', 'D', 'E', 'F', 'G', 'H', 'I', 'J', 'K', 'L', 'M', 'N', 'O', 'P',
   'Q', 'R', 'S', 'T', 'U', 'V', 'W', 'X', 'Y', 'Z', 'a', 'b', 'c', 'd', 'e', 'f',
   'g', 'h', 'i', 'j', 'k', 'l', 'm', 'n', 'o', 'p', 'q', 'r', 's', 't', 'u', 'v',
   'w', 'x', 'y', 'z', '0', '1', '2', '3', '4', '5', '6', '7', '8', '9', '+', '/']

/-- What is written so far, and `linelen`. -/
abbrev Out := Text × Nat

variable (multiline : Bool)

/-- `ENCODE_CHAR`. -/
def encodeChar (o : Out) (ch : Char) : Out :=
  if multiline then
    if (o.2 + 1) % 64 = 0 then (o.1 ++ [ch, '\n'], 0) else (o.1 ++ [ch], o.2 + 1)
  else (o.1 ++ [ch], o.2)

/-- The character `ENCODE_N(idx)` writes. -/
def encodeN (n idx : Nat) : Char := base64EncodeTable.getD (n / 64 ^ (3 - idx) % 64) 'A'

structure EncodeState where
  out : Out := ([], 0)
  n : Nat := 0
  nIdx : Nat := 0

/-- The loop of `base64_encode` at one byte. -/
def encodeByte (s : EncodeState) (b : UInt8) : EncodeState :=
  let n := s.n * 256 + b.toNat
  if s.nIdx + 1 = 3 then
    { out := [encodeN n 0, encodeN n 1, encodeN n 2, encodeN n 3].foldl (encodeChar multiline) s.out, n := 0, nIdx := 0 }
  else { s with n := n, nIdx := s.nIdx + 1 }

/-- The leftover bits and the padding. -/
def encodeRest (s : EncodeState) : Out :=
  match s.nIdx with
  | 0 => s.out
  | 1 => [encodeN (s.n * 16) 2, encodeN (s.n * 16) 3, '=', '='].foldl (encodeChar multiline) s.out
  | _ => [encodeN (s.n * 4) 1, encodeN (s.n * 4) 2, encodeN (s.n * 4) 3, '='].foldl (encodeChar multiline) s.out

/-- The text `base64_encode` writes. -/
def encoded (src : Bytes) : Text :=
  let o := encodeRest multiline (src.foldl (encodeByte multiline) {})
  if multiline ∧ o.2 ≠ 0 then o.1 ++ ['\n'] else o.1

/-- `base64_encode`: `none` when the text and its NUL do not fit in `destlen`. -/
def base64Encode (destlen : Nat) (src : Bytes) (multiline : Bool) : Option Text :=
  if destlen < base64EncodeSize src.length multiline + 1 then none else some (encoded multiline src)

def base64EncodeNopad (destlen : Nat) (src : Bytes) : Option Text :=
  (base64Encode destlen src false).map (·.filter fun c => c ≠ '=' ∧ c ≠ '\n')

/-! ## Decoding -/

/-- The entries of `base64_decode_table`. -/
inductive Code where
  | value (v : Nat)
  | SP
  | PAD
  | X
  deriving DecidableEq, Repr

def base64DecodeTable (c : Char) : Code :=
  if 'A' ≤ c ∧ c ≤ 'Z' then .value (c.toNat - 65)
  else if 'a' ≤ c ∧ c ≤ 'z' then .value (c.toNat - 71)
  else if '0' ≤ c ∧ c ≤ '9' then .value (c.toNat + 4)
  else if c = '+' then .value 62
  else if c = '/' then .value 63
  else if c = '=' then .PAD
  else if c = '\t' ∨ c = '\n' ∨ c = '\x0b' ∨ c = '\r' ∨ c = ' ' then .SP
  else .X

/-- `end_of_loop`: the leftover bits. -/
def decodeRest (destlen n nIdx : Nat) (dest : Bytes) : Option Bytes :=
  match nIdx with
  | 1 => none
  | 2 => if destlen < 1 ∨ dest.length > destlen - 1 then none else some (dest ++ [UInt8.ofNat (n / 16)])
  | 3 =>
    if destlen < 2 ∨ dest.length > destlen - 2 then none
    else some (dest ++ [UInt8.ofNat (n / 1024), UInt8.ofNat (n / 4)])
  | _ => some dest

def decodeLoop (destlen : Nat) : Text → Nat → Nat → Bytes → Option Bytes
  | [], n, nIdx, dest => decodeRest destlen n nIdx dest
  | c :: src, n, nIdx, dest =>
    match base64DecodeTable c with
    | .X => none
    | .SP => decodeLoop destlen src n nIdx dest
    | .PAD => decodeRest destlen n nIdx dest
    | .value v =>
      let n := n * 64 + v
      if nIdx + 1 = 4 then
        if destlen < 3 ∨ dest.length > destlen - 3 then none
        else decodeLoop destlen src 0 0
          (dest ++ [UInt8.ofNat (n / 65536), UInt8.ofNat (n / 256 % 256), UInt8.ofNat (n % 256)])
      else decodeLoop destlen src n (nIdx + 1) dest

def INT_MAX : Nat := 2147483647

/-- `SSIZE_MAX - 16` -/
def SIZE_T_CEILING : Nat := 9223372036854775791

def base64DecodeMaxsize (srclen : Nat) : Nat := (srclen * 3 + 3) / 4

/-- `base64_decode`: the bytes written, `none` for -1. -/
def base64Decode (destlen : Nat) (src : Text) : Option Bytes :=
  if destlen > INT_MAX then none else decodeLoop destlen src 0 0 []

/-! ## What the encoder writes -/

/-- The characters of the bytes, in groups of three, without padding. -/
def symbols : Bytes → Text
  | b0 :: b1 :: b2 :: bs =>
    let n := b0.toNat * 65536 + b1.toNat * 256 + b2.toNat
    [encodeN n 0, encodeN n 1, encodeN n 2, encodeN n 3] ++ symbols bs
  | [b0, b1] =>
    let n := (b0.toNat * 256 + b1.toNat) * 4
    [encodeN n 1, encodeN n 2, encodeN n 3]
  | [b0] => [encodeN (b0.toNat * 16) 2, encodeN (b0.toNat * 16) 3]
  | [] => []

def padding (len : Nat) : Text :=
  match len % 3 with
  | 1 => ['=', '=']
  | 2 => ['=']
  | _ => []

theorem padding_add_three (len : Nat) : padding (len + 3) = padding len := by
  unfold padding
  rw [Nat.add_mod_right]

theorem encodeRest_foldl (src : Bytes) : ∀ o : Out,
    encodeRest multiline (src.foldl (encodeByte multiline) { out := o }) =
      (symbols src ++ padding src.length).foldl (encodeChar multiline) o := by
  induction src using symbols.induct with
  | case1 b0 b1 b2 bs ih =>
    intro o
    have hn : (b0.toNat * 256 + b1.toNat) * 256 + b2.toNat = b0.toNat * 65536 + b1.toNat * 256 + b2.toNat := by omega
    have hlen : (b0 :: b1 :: b2 :: bs).length = bs.length + 3 := rfl
    rw [hlen, padding_add_three, symbols, List.append_assoc, List.foldl_append, ← ih]
    simp only [List.foldl_cons, List.foldl_nil, encodeByte, Nat.zero_mul, Nat.zero_add, Nat.reduceAdd, Nat.reduceEqDiff,
      if_false, if_true, hn]
  | case2 b0 b1 | case3 b0 =>
    intro o
    simp [encodeByte, encodeRest, symbols, padding]
  | case4 =>
    intro o
    rfl

theorem encodeChar_single (cs : Text) : ∀ o : Out, cs.foldl (encodeChar false) o = (o.1 ++ cs, o.2) := by
  induction cs with
  | nil => intro o; simp
  | cons c cs ih =>
    intro o
    rw [List.foldl_cons, ih]
    simp [encodeChar]

theorem encoded_single (src : Bytes) : encoded false src = symbols src ++ padding src.length := by
  unfold encoded
  rw [encodeRest_foldl, encodeChar_single]
  simp

/-- In multiline mode the characters come out cut into lines of 64. -/
theorem encodeChar_lines (cs : Text) : ∀ (ls : List Text) (cur : Text), cur.length < 64 → (∀ l ∈ ls, l.length = 64) →
    ∃ ls' cur', cs.foldl (encodeChar true) (unlines '\n' ls ++ cur, cur.length) = (unlines '\n' ls' ++ cur', cur'.length) ∧
      ls'.flatten ++ cur' = ls.flatten ++ cur ++ cs ∧ cur'.length < 64 ∧ ∀ l ∈ ls', l.length = 64 := by
  induction cs with
  | nil => intro ls cur hcur hls; exact ⟨ls, cur, rfl, by simp, hcur, hls⟩
  | cons c cs ih =>
    intro ls cur hcur hls
    rw [List.foldl_cons]
    by_cases hfull : (cur.length + 1) % 64 = 0
    · -- the 64th character ends the line
      obtain ⟨ls', cur', hf, hflat, hlen⟩ := ih (ls ++ [cur ++ [c]]) [] (by simp) (by
        intro l hl
        rcases List.mem_append.mp hl with hl | hl
        · exact hls l hl
        · rw [List.mem_singleton.mp hl]; simp; omega)
      refine ⟨ls', cur', ?_, by rw [hflat]; simp, hlen⟩
      rw [← hf]
      simp [encodeChar, hfull, unlines]
    · obtain ⟨ls', cur', hf, hflat, hlen⟩ := ih ls (cur ++ [c]) (by simp; omega) hls
      refine ⟨ls', cur', ?_, by rw [hflat]; simp, hlen⟩
      rw [← hf]
      simp [encodeChar, hfull]

theorem encoded_multiline (src : Bytes) :
    ∃ ls, encoded true src = unlines '\n' ls ∧ ls.flatten = symbols src ++ padding src.length ∧ (∀ l ∈ ls, l ≠ []) ∧
      ls.length = ((symbols src ++ padding src.length).length + 63) / 64 := by
  obtain ⟨ls, cur, hf, hflat, hcur, hlen⟩ := encodeChar_lines (symbols src ++ padding src.length) [] [] (by simp) nofun
  have hne : ∀ l ∈ ls, l ≠ [] := fun l hl e => absurd (hlen l hl) (by rw [e]; decide)
  have htotal : ls.length * 64 + cur.length = (symbols src ++ padding src.length).length := by
    have := congrArg List.length hflat
    rw [List.length_append, List.length_flatten, List.map_congr_left hlen] at this
    simpa using this
  unfold encoded
  rw [encodeRest_foldl]
  simp only [unlines_nil, List.nil_append, List.length_nil] at hf
  rw [hf]
  by_cases he : cur = []
  · subst he
    refine ⟨ls, by simp, by simpa using hflat, hne, ?_⟩
    rw [List.length_nil] at htotal
    omega
  · refine ⟨ls ++ [cur], ?_, by simpa using hflat, ?_, ?_⟩
    · simp [he, unlines]
    · intro l hl
      rcases List.mem_append.mp hl with hl | hl
      · exact hne l hl
      · rw [List.mem_singleton.mp hl]; exact he
    · have : cur.length ≠ 0 := fun e => he (List.eq_nil_of_length_eq_zero e)
      rw [List.length_append, List.length_singleton]
      omega

/-- A text shorter than a line is one line. -/
theorem encodeChar_short (cs : Text) : ∀ o : Out, o.2 + cs.length < 64 →
    cs.foldl (encodeChar true) o = (o.1 ++ cs, o.2 + cs.length) := by
  induction cs with
  | nil => intro o _; simp
  | cons c cs ih =>
    intro o ho
    rw [List.length_cons] at ho
    have hstep : encodeChar true o c = (o.1 ++ [c], o.2 + 1) := by
      unfold encodeChar
      rw [if_pos rfl, if_neg (by omega)]
    rw [List.foldl_cons, hstep, ih _ (show o.2 + 1 + cs.length < 64 by omega)]
    simp
    omega

variable {src : Bytes} {c : Char} {destlen : Nat}

theorem encoded_short (hpos : src ≠ []) (hlen : (symbols src ++ padding src.length).length < 64) :
    encoded true src = symbols src ++ padding src.length ++ ['\n'] := by
  have hne : (symbols src ++ padding src.length).length ≠ 0 := by
    match src, hpos with
    | [_], _ => simp [symbols]
    | [_, _], _ => simp [symbols]
    | _ :: _ :: _ :: _, _ => simp [symbols]
  unfold encoded
  rw [encodeRest_foldl, encodeChar_short _ _ (by simpa using hlen)]
  simp only [Nat.zero_add, List.nil_append]
  rw [if_pos ⟨trivial, hne⟩]

theorem length_symbols (src : Bytes) : (symbols src).length = (src.length * 4 + 2) / 3 := by
  induction src using symbols.induct with
  | case1 b0 b1 b2 bs ih =>
    simp only [symbols, List.length_append, List.length_cons, List.length_nil, ih]
    omega
  | case2 b0 b1 | case3 b0 | case4 => simp [symbols]

theorem length_padded (src : Bytes) : (symbols src ++ padding src.length).length = (src.length + 2) / 3 * 4 := by
  have hmod : src.length % 3 = 0 ∨ src.length % 3 = 1 ∨ src.length % 3 = 2 := by omega
  rw [List.length_append, length_symbols]
  unfold padding
  rcases hmod with h | h | h
  · simp [h]; omega
  · simp [h]; omega
  · simp [h]; omega

theorem length_unlines (ls : List Text) : (unlines '\n' ls).length = ls.flatten.length + ls.length := by
  induction ls with
  | nil => rfl
  | cons l ls ih =>
    rw [unlines_cons, List.length_append, List.length_cons, ih, List.flatten_cons, List.length_append, List.length_cons]
    omega

/-- The assertion at the end of `base64_encode`. -/
theorem length_encoded (src : Bytes) : (encoded multiline src).length = base64EncodeSize src.length multiline := by
  cases multiline with
  | false =>
    rw [encoded_single, length_padded]
    rfl
  | true =>
    obtain ⟨ls, hls, hflat, -, hlen⟩ := encoded_multiline src
    rw [hls, length_unlines, hlen, hflat, length_padded]
    rfl

theorem encodeN_mem (n idx : Nat) : encodeN n idx ∈ base64EncodeTable := by
  unfold encodeN
  have hlt : n / 64 ^ (3 - idx) % 64 < base64EncodeTable.length := Nat.mod_lt _ (by decide)
  rw [List.getD_eq_getElem?_getD, List.getElem?_eq_getElem hlt]
  exact List.getElem_mem hlt

theorem mem_symbols (h : c ∈ symbols src) : c ∈ base64EncodeTable := by
  induction src using symbols.induct with
  | case1 b0 b1 b2 bs ih =>
    rw [symbols, List.mem_append] at h
    rcases h with h | h
    · simp only [List.mem_cons, List.not_mem_nil, or_false] at h
      rcases h with rfl | rfl | rfl | rfl <;> exact encodeN_mem _ _
    · exact ih h
  | case2 b0 b1 =>
    simp only [symbols, List.mem_cons, List.not_mem_nil, or_false] at h
    rcases h with rfl | rfl | rfl <;> exact encodeN_mem _ _
  | case3 b0 =>
    simp only [symbols, List.mem_cons, List.not_mem_nil, or_false] at h
    rcases h with rfl | rfl <;> exact encodeN_mem _ _
  | case4 => cases h

theorem mem_padding {len : Nat} (h : c ∈ padding len) : c = '=' := by
  unfold padding at h
  split at h
  · simpa using h
  · simpa using h
  · cases h

theorem mem_padded (h : c ∈ symbols src ++ padding src.length) : c ∈ '=' :: base64EncodeTable := by
  rcases List.mem_append.mp h with h | h
  · exact List.mem_cons_of_mem _ (mem_symbols h)
  · rw [mem_padding h]
    exact List.mem_cons_self

theorem base64EncodeNopad_eq (h : base64EncodeSize src.length false < destlen) :
    base64EncodeNopad destlen src = some (symbols src) := by
  have htable : ∀ c ∈ base64EncodeTable, decide (c ≠ '=' ∧ c ≠ '\n') = true := List.all_eq_true.mp (by decide)
  have hsym : ∀ c ∈ symbols src, decide (c ≠ '=' ∧ c ≠ '\n') = true := fun c hc => htable c (mem_symbols hc)
  have hpad : ∀ c ∈ padding src.length, ¬ decide (c ≠ '=' ∧ c ≠ '\n') = true := by
    intro c hc
    simp [mem_padding hc]
  unfold base64EncodeNopad base64Encode
  rw [if_neg (by omega), Option.map_some, encoded_single, List.filter_append, List.filter_eq_self.mpr hsym,
    List.filter_eq_nil_iff.mpr hpad, List.append_nil]

/-! ## Round trips -/

theorem decodeTable_encodeN (n idx : Nat) : base64DecodeTable (encodeN n idx) = .value (n / 64 ^ (3 - idx) % 64) := by
  have htable : ∀ v < 64, base64DecodeTable (base64EncodeTable.getD v 'A') = .value v := by decide
  exact htable _ (Nat.mod_lt _ (by decide))

theorem decodeLoop_encodeN (destlen m idx : Nat) (src : Text) (n nIdx : Nat) (dest : Bytes) (h : nIdx + 1 ≠ 4) :
    decodeLoop destlen (encodeN m idx :: src) n nIdx dest =
      decodeLoop destlen src (n * 64 + m / 64 ^ (3 - idx) % 64) (nIdx + 1) dest := by
  rw [decodeLoop, decodeTable_encodeN]
  simp only [h, if_false]

theorem decodeLoop_flush (destlen m idx : Nat) (src : Text) (n : Nat) (dest : Bytes) (h : dest.length + 3 ≤ destlen) :
    decodeLoop destlen (encodeN m idx :: src) n 3 dest =
      decodeLoop destlen src 0 0 (dest ++ [UInt8.ofNat ((n * 64 + m / 64 ^ (3 - idx) % 64) / 65536),
        UInt8.ofNat ((n * 64 + m / 64 ^ (3 - idx) % 64) / 256 % 256),
        UInt8.ofNat ((n * 64 + m / 64 ^ (3 - idx) % 64) % 256)]) := by
  rw [decodeLoop, decodeTable_encodeN]
  simp only [if_true]
  rw [if_neg (by omega)]

/-- Four groups of six bits make up the number they were cut from. -/
theorem join_six {n : Nat} (h : n < 16777216) :
    (((0 * 64 + n / 64 ^ (3 - 0) % 64) * 64 + n / 64 ^ (3 - 1) % 64) * 64 + n / 64 ^ (3 - 2) % 64) * 64 +
      n / 64 ^ (3 - 3) % 64 = n := by
  simp only [Nat.reduceSub, Nat.reducePow]
  omega

/-- The characters of `bs`, then the end of the text or a padding character. -/
theorem decodeLoop_symbols (destlen : Nat) {rest : Text} (hrest : ∀ c ∈ rest.head?, c = '=') (bs : Bytes) :
    ∀ dest : Bytes, dest.length + bs.length ≤ destlen →
    decodeLoop destlen (symbols bs ++ rest) 0 0 dest = some (dest ++ bs) := by
  have hend : ∀ n nIdx dest, decodeLoop destlen rest n nIdx dest = decodeRest destlen n nIdx dest := by
    intro n nIdx dest
    cases rest with
    | nil => rfl
    | cons c rest =>
      have hc : c = '=' := hrest c rfl
      subst hc
      rfl
  induction bs using symbols.induct with
  | case1 b0 b1 b2 bs ih =>
    intro dest hdest
    have h0 := b0.toNat_lt
    have h1 := b1.toNat_lt
    have h2 := b2.toNat_lt
    simp only [List.length_cons] at hdest
    rw [symbols, List.append_assoc]
    simp only [List.cons_append, List.nil_append]
    rw [decodeLoop_encodeN _ _ _ _ _ _ _ (by decide), decodeLoop_encodeN _ _ _ _ _ _ _ (by decide),
      decodeLoop_encodeN _ _ _ _ _ _ _ (by decide), decodeLoop_flush _ _ _ _ _ _ (by omega), join_six (by omega),
      ih _ (by simp; omega)]
    have e0 : (b0.toNat * 65536 + b1.toNat * 256 + b2.toNat) / 65536 = b0.toNat := by omega
    have e1 : (b0.toNat * 65536 + b1.toNat * 256 + b2.toNat) / 256 % 256 = b1.toNat := by omega
    have e2 : (b0.toNat * 65536 + b1.toNat * 256 + b2.toNat) % 256 = b2.toNat := by omega
    rw [e0, e1, e2]
    simp
  | case2 b0 b1 =>
    intro dest hdest
    have h0 := b0.toNat_lt
    have h1 := b1.toNat_lt
    simp only [List.length_cons, List.length_nil] at hdest
    simp only [symbols, List.cons_append, List.nil_append]
    rw [decodeLoop_encodeN _ _ _ _ _ _ _ (by decide), decodeLoop_encodeN _ _ _ _ _ _ _ (by decide),
      decodeLoop_encodeN _ _ _ _ _ _ _ (by decide), hend]
    generalize hm : (b0.toNat * 256 + b1.toNat) * 4 = m
    have hn : ((0 * 64 + m / 64 ^ (3 - 1) % 64) * 64 + m / 64 ^ (3 - 2) % 64) * 64 + m / 64 ^ (3 - 3) % 64 = m := by
      simp only [Nat.reduceSub, Nat.reducePow]
      omega
    have e0 : m / 1024 = b0.toNat := by omega
    have e1 : UInt8.ofNat (m / 4) = b1 := by
      rw [← UInt8.toNat_inj, UInt8.toNat_ofNat']
      omega
    rw [hn]
    unfold decodeRest
    simp only
    rw [if_neg (by omega), e0, e1, UInt8.ofNat_toNat]
  | case3 b0 =>
    intro dest hdest
    have h0 := b0.toNat_lt
    simp only [List.length_cons, List.length_nil] at hdest
    simp only [symbols, List.cons_append, List.nil_append]
    rw [decodeLoop_encodeN _ _ _ _ _ _ _ (by decide), decodeLoop_encodeN _ _ _ _ _ _ _ (by decide), hend]
    have hn : (0 * 64 + b0.toNat * 16 / 64 ^ (3 - 2) % 64) * 64 + b0.toNat * 16 / 64 ^ (3 - 3) % 64 = b0.toNat * 16 := by
      simp only [Nat.reduceSub, Nat.reducePow]
      omega
    rw [hn]
    unfold decodeRest
    simp only
    rw [if_neg (by omega), Nat.mul_div_cancel _ (by decide), UInt8.ofNat_toNat]
  | case4 =>
    intro dest _
    rw [symbols, List.nil_append, hend]
    simp [decodeRest]

/-- Newlines are skipped. -/
theorem decodeLoop_newlines (destlen : Nat) (src : Text) : ∀ (n nIdx : Nat) (dest : Bytes),
    decodeLoop destlen src n nIdx dest = decodeLoop destlen (src.filter (· ≠ '\n')) n nIdx dest := by
  induction src with
  | nil => intro n nIdx dest; rfl
  | cons c src ih =>
    intro n nIdx dest
    by_cases hc : c = '\n'
    · subst hc
      rw [List.filter_cons_of_neg (by decide), ← ih]
      rfl
    · rw [List.filter_cons_of_pos (by simpa using hc), decodeLoop, decodeLoop]
      simp only [ih]

theorem head_padding (len : Nat) : ∀ c ∈ (padding len).head?, c = '=' :=
  fun _ hc => mem_padding (List.mem_of_mem_head? hc)

theorem base64Decode_symbols (hint : destlen ≤ INT_MAX) (h : src.length ≤ destlen) {rest : Text}
    (hrest : ∀ c ∈ rest.head?, c = '=') : base64Decode destlen (symbols src ++ rest) = some src := by
  unfold base64Decode
  rw [if_neg (by omega), decodeLoop_symbols destlen hrest src [] (by simpa using h), List.nil_append]

theorem newline_notMem_padded (src : Bytes) : ∀ c ∈ symbols src ++ padding src.length, c ≠ '\n' := by
  intro c hc e
  exact absurd (mem_padded (e ▸ hc)) (by decide)

theorem filter_unlines {ls : List Text} {cs : Text} (h : ls.flatten = cs) (hcs : ∀ c ∈ cs, c ≠ '\n') :
    (unlines '\n' ls).filter (· ≠ '\n') = cs := by
  subst h
  induction ls with
  | nil => rfl
  | cons l ls ih =>
    rw [List.flatten_cons] at hcs ⊢
    have hl : l.filter (· ≠ '\n') = l :=
      List.filter_eq_self.mpr fun c hc => by simpa using hcs c (List.mem_append_left _ hc)
    rw [unlines_cons, List.filter_append, hl, List.filter_cons_of_neg (by decide),
      ih fun c hc => hcs c (List.mem_append_right _ hc)]

/-- Either mode's text decodes to the bytes. -/
theorem base64Decode_encode (hint : destlen ≤ INT_MAX) (h : src.length ≤ destlen)
    (multiline : Bool) : base64Decode destlen (encoded multiline src) = some src := by
  have hplain := base64Decode_symbols hint h (head_padding src.length)
  cases multiline with
  | false => rw [encoded_single]; exact hplain
  | true =>
    obtain ⟨ls, hls, hflat, -, -⟩ := encoded_multiline src
    unfold base64Decode at hplain ⊢
    rwa [hls, decodeLoop_newlines, filter_unlines hflat (newline_notMem_padded src)]

/-- So does the text without its padding. -/
theorem base64Decode_nopad (hint : destlen ≤ INT_MAX) (h : src.length ≤ destlen) :
    base64Decode destlen (symbols src) = some src := by
  have happ : base64Decode destlen (symbols src ++ []) = some src := base64Decode_symbols hint h nofun
  rwa [List.append_nil] at happ

end Badnet.Encoding

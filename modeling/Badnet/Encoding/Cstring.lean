/-
  Badnet.Encoding.Cstring — strings in quotes: `esc_for_log` of src/lib/log/escape.c and `unescape_string` of
  src/lib/encoding/cstring.c, over the character tables of src/lib/string/compat_ctype.c.

  A C string has no NUL among its bytes (`CString`). What `esc_for_log` writes is decoded to what was written, whatever
  stands behind it (`unescapeString_escForLog`): an octal escape always has three digits, so that no digit of what
  follows is taken for one of its own.
-/

import Mathlib.Data.List.TakeWhile

namespace Badnet.Encoding

/-! ## Strings -/

/-- The bytes of a string before its NUL. -/
structure CString where
  bytes : List UInt8
  noNul : 0 ∉ bytes
deriving DecidableEq

/-- The string that begins at some bytes: up to the first NUL. -/
def CString.of (mem : List UInt8) : CString where
  bytes := mem.takeWhile (· ≠ 0)
  noNul h := by simpa using List.mem_takeWhile_imp h

def CString.empty : CString := ⟨[], List.not_mem_nil⟩

def CString.append (s t : CString) : CString where
  bytes := s.bytes ++ t.bytes
  noNul h := (List.mem_append.mp h).elim s.noNul t.noNul

theorem CString.of_bytes (s : CString) : CString.of s.bytes = s := by
  have hall : s.bytes.takeWhile (· ≠ 0) = s.bytes := by
    rw [List.takeWhile_eq_self_iff]
    intro c hc
    exact decide_eq_true fun h0 => s.noNul (h0 ▸ hc)
  cases s
  simp only [CString.of, hall]

/-! ## Characters -/

/-- `TOR_##name`: a bit of a table of eight words. -/
def ctype (table : List UInt32) (c : UInt8) : Bool := (table.getD (c.toNat / 32) 0).toNat.testBit (c.toNat % 32)

section

variable (c : UInt8)

def TOR_ISSPACE : Bool := ctype [0x3e00, 0x1, 0, 0, 0, 0, 0, 0] c

def TOR_ISXDIGIT : Bool := ctype [0, 0x3ff0000, 0x7e, 0x7e, 0, 0, 0, 0] c

def TOR_ISPRINT : Bool := ctype [0, 0xffffffff, 0xffffffff, 0x7fffffff, 0, 0, 0, 0] c

def TOR_ISODIGIT : Bool := 48 ≤ c ∧ c ≤ 55

/-- `hex_decode_digit`, with none for -1. -/
def hexDecodeByte : Option Nat :=
  if 48 ≤ c ∧ c ≤ 57 then some (c.toNat - 48)
  else if 65 ≤ c ∧ c ≤ 70 then some (10 + (c.toNat - 65))
  else if 97 ≤ c ∧ c ≤ 102 then some (10 + (c.toNat - 97))
  else none

/-- A fact about all characters is one about 256 numbers. -/
theorem forall_uint8 {P : UInt8 → Prop} (h : ∀ n < 256, P (UInt8.ofNat n)) (c : UInt8) : P c := by
  have hc := h c.toNat c.toNat_lt
  rwa [UInt8.ofNat_toNat] at hc

/-! ## Escaping -/

/-- `\%03o`. -/
def octalEscape : List UInt8 := [92, 48 + c / 64, 48 + c / 8 % 8, 48 + c % 8]

/-- What `esc_for_log` writes for one character. -/
def escChar : List UInt8 :=
  if c = 92 ∨ c = 34 ∨ c = 39 then [92, c]
  else if c = 10 then [92, 110]
  else if c = 9 then [92, 116]
  else if c = 13 then [92, 114]
  else if TOR_ISPRINT c ∧ c < 127 then [c]
  else octalEscape c

end

variable {c : UInt8} {cp rest : List UInt8}

theorem zero_notMem_escChar : c ≠ 0 → 0 ∉ escChar c := by
  revert c
  apply forall_uint8
  decide +kernel

def escForLog (s : CString) : CString where
  bytes := 34 :: (s.bytes.flatMap escChar ++ [34])
  noNul h := by
    have hbody : 0 ∉ s.bytes.flatMap escChar := by
      intro h0
      obtain ⟨c, hc, h0⟩ := List.mem_flatMap.mp h0
      exact zero_notMem_escChar (fun heq => s.noNul (heq ▸ hc)) h0
    simp [hbody] at h

/-! ## Unescaping -/

def octalDigit (c : UInt8) : Nat := c.toNat - 48

/-- At most so many more octal digits of a number, and what stands behind them. -/
def octalTail (n : Nat) : Nat → List UInt8 → Nat × List UInt8
  | 0, cp => (n, cp)
  | _ + 1, [] => (n, [])
  | more + 1, c :: cp => if TOR_ISODIGIT c then octalTail (n * 8 + octalDigit c) more cp else (n, c :: cp)

/-- The two digits behind `\x` in the first pass: what stands behind them. -/
def scanHex : List UInt8 → Option (List UInt8)
  | x1 :: x2 :: cp => if TOR_ISXDIGIT x1 ∧ TOR_ISXDIGIT x2 then some cp else none
  | _ => none

/-- And in the second pass, with their character. -/
def decodeHex : List UInt8 → Option (UInt8 × List UInt8)
  | x1 :: x2 :: cp => do
    let v1 ← hexDecodeByte x1
    let v2 ← hexDecodeByte x2
    some (UInt8.ofNat (v1 * 16 + v2), cp)
  | _ => none

/-- An escape in the first pass of `unescape_string`: what stands behind it, if it is well formed. -/
def scanEscape : List UInt8 → Option (List UInt8)
  | [] => none
  | d :: cp =>
    if d = 120 ∨ d = 88 then scanHex cp
    else if TOR_ISODIGIT d then some (octalTail (octalDigit d) 2 cp).2
    else if d = 110 ∨ d = 114 ∨ d = 116 ∨ d = 34 ∨ d = 92 ∨ d = 39 then some cp
    else none

/-- An escape in the second pass: its character, and what stands behind it. -/
def decodeEscape : List UInt8 → Option (UInt8 × List UInt8)
  | [] => none
  | d :: cp =>
    if d = 110 then some (10, cp)
    else if d = 114 then some (13, cp)
    else if d = 116 then some (9, cp)
    else if d = 120 ∨ d = 88 then decodeHex cp
    else if TOR_ISODIGIT d then
      let (n, cp) := octalTail (octalDigit d) 2 cp
      if n > 255 then none else some (UInt8.ofNat n, cp)
    else if d = 39 ∨ d = 34 ∨ d = 92 ∨ d = 63 then some (d, cp)
    else none

theorem octalTail_length (n more : Nat) (cp : List UInt8) : (octalTail n more cp).2.length ≤ cp.length := by
  induction more generalizing n cp with
  | zero => exact Nat.le_refl _
  | succ more ih =>
    cases cp with
    | nil => exact Nat.le_refl _
    | cons c cp =>
      rw [octalTail]
      split
      · exact Nat.le_succ_of_le (ih _ cp)
      · exact Nat.le_refl _

theorem scanHex_length (h : scanHex cp = some rest) : rest.length < cp.length := by
  unfold scanHex at h
  split at h
  · split at h
    · cases h
      simp only [List.length_cons]
      omega
    · cases h
  · cases h

theorem decodeHex_length (h : decodeHex cp = some (c, rest)) : rest.length < cp.length := by
  unfold decodeHex at h
  split at h
  · simp only [Option.bind_eq_bind, Option.bind_eq_some_iff] at h
    obtain ⟨v1, -, v2, -, heq⟩ := h
    cases heq
    simp only [List.length_cons]
    omega
  · cases h

theorem scanEscape_length (h : scanEscape cp = some rest) : rest.length < cp.length := by
  cases cp with
  | nil => cases h
  | cons d cp =>
    rw [scanEscape] at h
    split at h
    · exact Nat.lt_succ_of_lt (scanHex_length h)
    split at h
    · cases h
      exact Nat.lt_succ_of_le (octalTail_length _ _ _)
    split at h
    · cases h
      exact Nat.lt_succ_self _
    · cases h

theorem decodeEscape_length (h : decodeEscape cp = some (c, rest)) : rest.length < cp.length := by
  cases cp with
  | nil => cases h
  | cons d cp =>
    rw [decodeEscape] at h
    split at h
    · cases h
      exact Nat.lt_succ_self _
    split at h
    · cases h
      exact Nat.lt_succ_self _
    split at h
    · cases h
      exact Nat.lt_succ_self _
    split at h
    · exact Nat.lt_succ_of_lt (decodeHex_length h)
    split at h
    · simp only at h
      split at h
      · cases h
      · cases h
        exact Nat.lt_succ_of_le (octalTail_length _ _ _)
    split at h
    · cases h
      exact Nat.lt_succ_self _
    · cases h

/-- The first pass, behind the opening quote: whether there is a closing one, and every escape before it is well
    formed. -/
def scanQuoted : List UInt8 → Bool
  | [] => false
  | c :: cp =>
    if c = 10 then false
    else if c = 34 then true
    else if c = 92 then
      match h : scanEscape cp with
      | some rest =>
        have := scanEscape_length h
        scanQuoted rest
      | none => false
    else scanQuoted cp
termination_by cp => cp.length

/-- The second pass: the decoded characters, and what stands behind the closing quote. -/
def decodeQuoted : List UInt8 → Option (List UInt8 × List UInt8)
  | [] => none
  | c :: cp =>
    if c = 34 then some ([], cp)
    else if c = 92 then
      match h : decodeEscape cp with
      | some (c, rest) =>
        have := decodeEscape_length h
        (decodeQuoted rest).map fun out => (c :: out.1, out.2)
      | none => none
    else (decodeQuoted cp).map fun out => (c :: out.1, out.2)
termination_by cp => cp.length

/-- `unescape_string`: what it gives in `*result`, whose length is `*size_out`, and the pointer it returns. -/
def unescapeString (s : List UInt8) : Option (List UInt8 × List UInt8) :=
  match s with
  | [] => none
  | c :: cp => if c ≠ 34 then none else if scanQuoted cp then decodeQuoted cp else none

/-! ## What is escaped is read back -/

/-- Both passes read this escape as one character. -/
structure Escapes (esc : List UInt8) (c : UInt8) : Prop where
  scan : ∀ more, scanEscape (esc ++ more) = some more
  decode : ∀ more, decodeEscape (esc ++ more) = some (c, more)

theorem escapes_quoted (c : UInt8) (h : c = 92 ∨ c = 34 ∨ c = 39) : Escapes [c] c := by
  rcases h with rfl | rfl | rfl <;> exact ⟨fun _ => rfl, fun _ => rfl⟩

theorem escapes_newline : Escapes [110] 10 := ⟨fun _ => rfl, fun _ => rfl⟩

theorem escapes_tab : Escapes [116] 9 := ⟨fun _ => rfl, fun _ => rfl⟩

theorem escapes_return : Escapes [114] 13 := ⟨fun _ => rfl, fun _ => rfl⟩

theorem octal_digits (c : UInt8) :
    (TOR_ISODIGIT (48 + c / 64) = true ∧ TOR_ISODIGIT (48 + c / 8 % 8) = true ∧ TOR_ISODIGIT (48 + c % 8) = true) ∧
      (octalDigit (48 + c / 64) * 8 + octalDigit (48 + c / 8 % 8)) * 8 + octalDigit (48 + c % 8) = c.toNat := by
  revert c
  apply forall_uint8
  decide +kernel

/-- No octal digit stands for anything else behind a backslash. -/
theorem odigit_ne {d : UInt8} : TOR_ISODIGIT d = true → ¬ (d = 120 ∨ d = 88) ∧ d ≠ 110 ∧ d ≠ 114 ∧ d ≠ 116 := by
  revert d
  apply forall_uint8
  decide +kernel

theorem escapes_octal (c : UInt8) : Escapes [48 + c / 64, 48 + c / 8 % 8, 48 + c % 8] c := by
  obtain ⟨⟨h1, h2, h3⟩, hvalue⟩ := octal_digits c
  obtain ⟨hx, hn, hr, ht⟩ := odigit_ne h1
  have hfits : ¬ c.toNat > 255 := by
    have := c.toNat_lt
    omega
  -- three digits are all that are read, whatever stands behind them
  have htail : ∀ more : List UInt8,
      octalTail (octalDigit (48 + c / 64)) 2 ([48 + c / 8 % 8, 48 + c % 8] ++ more) = (c.toNat, more) := by
    intro more
    simp only [List.cons_append, List.nil_append, octalTail, h2, h3, if_true, hvalue]
  constructor
  · intro more
    rw [List.cons_append, scanEscape, if_neg hx, if_pos h1, htail]
  · intro more
    rw [List.cons_append, decodeEscape, if_neg hn, if_neg hr, if_neg ht, if_neg hx, if_pos h1, htail]
    simp only [if_neg hfits, UInt8.ofNat_toNat]

theorem escape_read {esc : List UInt8} (h : Escapes esc c) (more : List UInt8) :
    scanQuoted (92 :: esc ++ more) = scanQuoted more ∧
      decodeQuoted (92 :: esc ++ more) = (decodeQuoted more).map fun out => (c :: out.1, out.2) := by
  constructor
  · rw [List.cons_append, scanQuoted, if_neg (by decide), if_neg (by decide), if_pos rfl]
    split
    · next rest hrest =>
      cases (h.scan more).symm.trans hrest
      rfl
    · next hnone => cases (h.scan more).symm.trans hnone
  · rw [List.cons_append, decodeQuoted, if_neg (by decide), if_pos rfl]
    split
    · next d rest hrest =>
      cases (h.decode more).symm.trans hrest
      rfl
    · next hnone => cases (h.decode more).symm.trans hnone

/-- Each character that is written is passed over by the first pass and decoded by the second one. -/
theorem escChar_read (c : UInt8) (more : List UInt8) :
    scanQuoted (escChar c ++ more) = scanQuoted more ∧
      decodeQuoted (escChar c ++ more) = (decodeQuoted more).map fun out => (c :: out.1, out.2) := by
  rw [escChar]
  by_cases hquote : c = 92 ∨ c = 34 ∨ c = 39
  · rw [if_pos hquote]
    exact escape_read (escapes_quoted c hquote) more
  by_cases hn : c = 10
  · rw [if_neg hquote, if_pos hn, hn]
    exact escape_read escapes_newline more
  by_cases ht : c = 9
  · rw [if_neg hquote, if_neg hn, if_pos ht, ht]
    exact escape_read escapes_tab more
  by_cases hr : c = 13
  · rw [if_neg hquote, if_neg hn, if_neg ht, if_pos hr, hr]
    exact escape_read escapes_return more
  rw [if_neg hquote, if_neg hn, if_neg ht, if_neg hr]
  by_cases hprint : TOR_ISPRINT c ∧ c < 127
  · have hslash : c ≠ 92 := fun heq => hquote (.inl heq)
    have hend : c ≠ 34 := fun heq => hquote (.inr (.inl heq))
    rw [if_pos hprint, List.singleton_append, scanQuoted, decodeQuoted]
    simp only [if_neg hn, if_neg hslash, if_neg hend, and_self]
  · rw [if_neg hprint]
    exact escape_read (escapes_octal c) more

theorem escaped_read (s rest : List UInt8) :
    scanQuoted (s.flatMap escChar ++ 34 :: rest) = true ∧ decodeQuoted (s.flatMap escChar ++ 34 :: rest) = some (s, rest) := by
  induction s with
  | nil =>
    rw [List.flatMap_nil, List.nil_append, scanQuoted, decodeQuoted]
    exact ⟨rfl, rfl⟩
  | cons c s ih =>
    obtain ⟨hscan, hdecode⟩ := escChar_read c (s.flatMap escChar ++ 34 :: rest)
    rw [List.flatMap_cons, List.append_assoc, hscan, hdecode, ih.2]
    exact ⟨ih.1, rfl⟩

/-- A string that was escaped is read back, and what stands behind it is left. -/
theorem unescapeString_escForLog (s : CString) (rest : List UInt8) :
    unescapeString ((escForLog s).bytes ++ rest) = some (s.bytes, rest) := by
  obtain ⟨hscan, hdecode⟩ := escaped_read s.bytes rest
  simp only [escForLog, List.cons_append, List.append_assoc, List.nil_append, unescapeString]
  simp only [ne_eq, not_true_eq_false, if_false, hscan, if_true, hdecode]

end Badnet.Encoding

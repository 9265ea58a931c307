/-
  Badnet.Encoding.Scanf — `tor_sscanf` (`lib/string/scanf.c`).

  A pattern is a list of what it asks for, and the result the values that were read before something did not match. A
  number that is printed, with or without leading zeros, is read back (`torVsscanf_number`).
-/

import Badnet.Encoding.Decimal

namespace Badnet.Encoding

open Lib

inductive Directive where
  | lit (c : Char)
  | u (width : Nat)
  | c
  | s (width : Nat)

inductive ScanValue where
  | num (n : Nat)
  | chr (c : Char)
  | str (s : Text)
  deriving DecidableEq

/-- The width of a number for which none is given. -/
def MAX_SCANF_WIDTH : Nat := 9999

def UINT_MAX : Nat := 4294967295

/-- `scan_unsigned` in base 10: a number that does not fit is a failure. -/
def scanUlong (width : Nat) (buf : Text) : Option (Nat × Text) := (scanUnsigned width buf).filter (·.1 ≤ ULONG_MAX)

/-- `scan_string`: up to `width` characters that are not white space. -/
def scanString (width : Nat) (buf : Text) : Text × Text :=
  let out := (buf.takeWhile (!isspace ·)).take width
  (out, buf.drop out.length)

def torVsscanf : List Directive → Text → List ScanValue
  | [], _ => []
  | .lit c :: pattern, buf =>
    match scanChar c buf with
    | none => []
    | some buf => torVsscanf pattern buf
  | .u width :: pattern, buf =>
    match scanUlong width buf with
    | none => []
    | some (u, buf) => if u > UINT_MAX then [] else .num u :: torVsscanf pattern buf
  | .c :: pattern, buf =>
    match buf with
    | [] => []
    | c :: buf => .chr c :: torVsscanf pattern buf
  | .s width :: pattern, buf => .str (scanString width buf).1 :: torVsscanf pattern (scanString width buf).2

/-! ## What is printed is read back -/

/-- `%0<width>u` -/
def paddedDecimal (width n : Nat) : Text := List.replicate (width - (decimal n).length) '0' ++ decimal n

variable {width n : Nat}

theorem isDigit_paddedDecimal : ∀ c ∈ paddedDecimal width n, c.isDigit = true := by
  intro c hc
  rcases List.mem_append.mp hc with hzero | hdigit
  · rw [List.eq_of_mem_replicate hzero]
    rfl
  · exact isDigit_decimal c hdigit

theorem length_paddedDecimal (hwidth : 0 < width) (hn : n < 10 ^ width) : (paddedDecimal width n).length = width := by
  have hlen : (decimal n).length ≤ width := (Nat.length_toDigits_le_iff (by decide) hwidth).mpr hn
  rw [paddedDecimal, List.length_append, List.length_replicate]
  omega

theorem paddedDecimal_ne_nil (width n : Nat) : paddedDecimal width n ≠ [] := List.append_ne_nil_of_right_ne_nil _ (decimal_ne_nil n)

theorem ofDigitChars_paddedDecimal (width n : Nat) : Nat.ofDigitChars 10 (paddedDecimal width n) 0 = n := by
  have hzeros : ∀ k, Nat.ofDigitChars 10 (List.replicate k '0') 0 = 0 := by
    intro k
    induction k with
    | zero => rfl
    | succ k ih => rw [List.replicate_succ, Nat.ofDigitChars_cons]; exact ih
  rw [paddedDecimal, Nat.ofDigitChars_append, hzeros, ofDigitChars_decimal]

theorem torVsscanf_lit (c : Char) (pattern : List Directive) (rest : Text) :
    torVsscanf (.lit c :: pattern) (c :: rest) = torVsscanf pattern rest := by
  rw [torVsscanf, scanChar, if_pos rfl]

/-- A number is read up to the first character that is not a digit. -/
theorem torVsscanf_number {w : Nat} (hlen : (paddedDecimal w n).length ≤ width) (hn : n ≤ UINT_MAX)
    (pattern : List Directive) {rest : Text} (hrest : ∀ c ∈ rest.head?, c.isDigit = false) :
    torVsscanf (.u width :: pattern) (paddedDecimal w n ++ rest) = .num n :: torVsscanf pattern rest := by
  have hdigits : ((paddedDecimal w n ++ rest).takeWhile Char.isDigit).take width = paddedDecimal w n := by
    rw [takeWhile_run isDigit_paddedDecimal hrest, List.take_of_length_le hlen]
  have hscan : scanUlong width (paddedDecimal w n ++ rest) = some (n, rest) := by
    rw [scanUlong, scanUnsigned]
    simp only [hdigits]
    rw [if_neg (paddedDecimal_ne_nil w n), ofDigitChars_paddedDecimal, List.drop_left, Option.filter_some,
      if_pos (decide_eq_true (Nat.le_trans hn (by decide)))]
  rw [torVsscanf, hscan]
  exact if_neg (Nat.not_lt.mpr hn)

theorem torVsscanf_char (c : Char) (pattern : List Directive) (rest : Text) :
    torVsscanf (.c :: pattern) (c :: rest) = .chr c :: torVsscanf pattern rest := rfl

/-- A word of the full width is read, whatever follows. -/
theorem torVsscanf_word {word : Text} (hlen : word.length = width) (hword : ∀ c ∈ word, isspace c = false)
    (pattern : List Directive) (rest : Text) :
    torVsscanf (.s width :: pattern) (word ++ rest) = .str word :: torVsscanf pattern rest := by
  have hout : ((word ++ rest).takeWhile (!isspace ·)).take width = word := by
    rw [List.takeWhile_append_of_pos (fun c hc => by rw [hword c hc]; rfl), ← hlen, List.take_left]
  rw [torVsscanf, scanString]
  simp only [hout, List.drop_left]

end Badnet.Encoding

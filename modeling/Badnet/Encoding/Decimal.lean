/-
  Badnet.Encoding.Decimal — numbers and IPv4 addresses in texts: `%u`, `tor_inet_ntoa` and
  `tor_inet_aton` of `lib/net/inaddr.c` (with the `%3u` of `lib/string/scanf.c`), and
  `tor_parse_long` of `lib/string/parse_int.c` over the C library's `strtol`.

  Proved: an address and a port are read back from what is printed
  (`torInetAton_ntoa`, `torParseLong_decimal`).
-/

import Badnet.Encoding.Base64

namespace Badnet.Encoding

open Lib

/-! ## Printing and scanning -/

variable (n : Nat)

/-- `%u` and `%d` of a number that is not negative. -/
def decimal : Text := Nat.toDigits 10 n

/-- `%<width>u` of `tor_sscanf`: the value and the rest of the text. With a width of 3 the
    value cannot overflow. -/
def scanUnsigned (width : Nat) (buf : Text) : Option (Nat × Text) :=
  let digits := (buf.takeWhile Char.isDigit).take width
  if digits = [] then none else some (Nat.ofDigitChars 10 digits 0, buf.drop digits.length)

/-- A character of the pattern. -/
def scanChar (c : Char) (buf : Text) : Option Text :=
  match buf with
  | [] => none
  | d :: buf => if d = c then some buf else none

variable (a : UInt32) (k : Nat)

def octet : Nat := a.toNat / 256 ^ k % 256

def torInetNtoa : Text :=
  decimal (octet a 3) ++ '.' :: (decimal (octet a 2) ++ '.' :: (decimal (octet a 1) ++ '.' :: decimal (octet a 0)))

/-- `tor_inet_aton`: the pattern is `%3u.%3u.%3u.%3u%c`, of which exactly the four numbers
    must match. -/
def torInetAton (str : Text) : Option UInt32 := do
  let (a, buf) ← scanUnsigned 3 str
  let (b, buf) ← scanUnsigned 3 (← scanChar '.' buf)
  let (c, buf) ← scanUnsigned 3 (← scanChar '.' buf)
  let (d, buf) ← scanUnsigned 3 (← scanChar '.' buf)
  if buf ≠ [] then none
  if (str.splitOn '.').any fun octet => octet.length > 1 ∧ octet.head? = some '0' then none
  if a > 255 ∨ b > 255 ∨ c > 255 ∨ d > 255 then none
  return UInt32.ofNat (a * 2 ^ 24 + b * 2 ^ 16 + c * 2 ^ 8 + d)

/-- `isspace` in the C locale. -/
def isspace (c : Char) : Bool := c = ' ' ∨ c = '\t' ∨ c = '\n' ∨ c = '\x0b' ∨ c = '\x0c' ∨ c = '\r'

def LONG_MAX : Nat := 9223372036854775807

variable (s : Text)

/-- `strtol` in base 10: the value, what follows the number, and whether `errno` is
    `ERANGE`. Without a digit nothing is consumed. -/
def strtol : Int × Text × Bool :=
  let t := s.dropWhile isspace
  let neg := t.head? = some '-'
  let t := if t.head? = some '-' ∨ t.head? = some '+' then t.tail else t
  let digits := t.takeWhile Char.isDigit
  let v := Nat.ofDigitChars 10 digits 0
  if digits = [] then (0, s, false)
  else if neg ∧ v > LONG_MAX + 1 then (-(LONG_MAX + 1), t.drop digits.length, true)
  else if ¬ neg ∧ v > LONG_MAX then (LONG_MAX, t.drop digits.length, true)
  else (if neg then -v else v, t.drop digits.length, false)

/-- `tor_parse_long` with `next` NULL: `none` when it clears `ok` and returns 0. -/
def torParseLong (min max : Int) : Option Int :=
  let (r, endptr, erange) := strtol s
  if erange ∨ endptr.length = s.length ∨ endptr ≠ [] ∨ max < min ∨ r < min ∨ r > max then none else some r

/-- `tor_parse_long` with `next`: the value and the text `*next` points at. -/
def torParseLongNext (min max : Int) : Option (Int × Text) :=
  let (r, endptr, erange) := strtol s
  if erange ∨ endptr.length = s.length ∨ max < min ∨ r < min ∨ r > max then none else some (r, endptr)

def ULONG_MAX : Nat := 18446744073709551615

/-- `strtoul` in base 10; a minus sign negates modulo 2^64. -/
def strtoul : Nat × Text × Bool :=
  let t := s.dropWhile isspace
  let neg := t.head? = some '-'
  let t := if t.head? = some '-' ∨ t.head? = some '+' then t.tail else t
  let digits := t.takeWhile Char.isDigit
  let v := Nat.ofDigitChars 10 digits 0
  if digits = [] then (0, s, false)
  else if v > ULONG_MAX then (ULONG_MAX, t.drop digits.length, true)
  else (if neg then (ULONG_MAX + 1 - v) % (ULONG_MAX + 1) else v, t.drop digits.length, false)

/-- `tor_parse_ulong` with `next`. -/
def torParseUlongNext (min max : Nat) : Option (Nat × Text) :=
  let (r, endptr, erange) := strtoul s
  if erange ∨ endptr.length = s.length ∨ max < min ∨ r < min ∨ r > max then none else some (r, endptr)

/-! ## Numbers -/

theorem decimal_ne_nil : decimal n ≠ [] := Nat.toDigits_ne_nil

theorem isDigit_decimal {n : Nat} : ∀ c ∈ decimal n, c.isDigit = true :=
  fun _ hc => Nat.isDigit_of_mem_toDigits (by decide) (by decide) hc

theorem ofDigitChars_decimal : Nat.ofDigitChars 10 (decimal n) 0 = n := Nat.ofDigitChars_ten_toDigits

/-- Only zero is printed with a leading zero. -/
theorem head_decimal {n : Nat} (h : 0 < n) : (decimal n).head? ≠ some '0' := by
  induction n using Nat.strongRecOn with
  | _ n ih =>
    unfold decimal
    by_cases hn : n < 10
    · have hdigit : ∀ m < 10, 0 < m → Nat.digitChar m ≠ '0' := by decide
      rw [Nat.toDigits_of_lt_base hn]
      simpa using hdigit n hn h
    · rw [Nat.toDigits_of_base_le (by decide) (by omega), List.head?_append_of_ne_nil _ Nat.toDigits_ne_nil]
      exact ih (n / 10) (by omega) (by omega)

theorem scanUnsigned_decimal {n : Nat} (hn : n < 1000) {rest : Text} (hrest : ∀ c ∈ rest.head?, c.isDigit = false) :
    scanUnsigned 3 (decimal n ++ rest) = some (n, rest) := by
  have hlen : (decimal n).length ≤ 3 := (Nat.length_toDigits_le_iff (by decide) (by decide)).mpr hn
  have hdigits : ((decimal n ++ rest).takeWhile Char.isDigit).take 3 = decimal n := by
    rw [takeWhile_run isDigit_decimal hrest, List.take_of_length_le hlen]
  unfold scanUnsigned
  simp only [hdigits]
  rw [if_neg (decimal_ne_nil n), ofDigitChars_decimal, List.drop_left]

theorem dot_notMem_decimal : '.' ∉ decimal n := fun h => absurd (isDigit_decimal _ h) (by decide)

/-- An octet is printed without leading zeros. -/
theorem octal_decimal : ¬ ((decimal n).length > 1 ∧ (decimal n).head? = some '0') := by
  intro h
  by_cases hn : 0 < n
  · exact head_decimal hn h.2
  · have hn0 : n = 0 := by omega
    subst hn0
    exact absurd h.1 (by decide)

theorem octets_eq : UInt32.ofNat (octet a 3 * 2 ^ 24 + octet a 2 * 2 ^ 16 + octet a 1 * 2 ^ 8 + octet a 0) = a := by
  have hlt := a.toNat_lt
  have hsum : octet a 3 * 2 ^ 24 + octet a 2 * 2 ^ 16 + octet a 1 * 2 ^ 8 + octet a 0 = a.toNat := by
    unfold octet
    simp only [Nat.reducePow]
    omega
  rw [hsum, UInt32.ofNat_toNat]

theorem splitOn_ntoa :
    (torInetNtoa a).splitOn '.' = [decimal (octet a 3), decimal (octet a 2), decimal (octet a 1), decimal (octet a 0)] := by
  unfold torInetNtoa
  rw [List.splitOn_append_cons_self_of_not_mem (dot_notMem_decimal _),
    List.splitOn_append_cons_self_of_not_mem (dot_notMem_decimal _),
    List.splitOn_append_cons_self_of_not_mem (dot_notMem_decimal _), List.splitOn_eq_singleton (dot_notMem_decimal _)]

theorem octet_lt : octet a k < 256 := Nat.mod_lt _ (by decide)

theorem scanUnsigned_octet (rest : Text) :
    scanUnsigned 3 (decimal (octet a k) ++ '.' :: rest) = some (octet a k, '.' :: rest) := by
  refine scanUnsigned_decimal (by have := octet_lt a k; omega) fun c hc => ?_
  rw [← Option.some.inj hc]
  decide

theorem scanUnsigned_last_octet : scanUnsigned 3 (decimal (octet a k)) = some (octet a k, []) := by
  have happ : scanUnsigned 3 (decimal (octet a k) ++ []) = some (octet a k, []) :=
    scanUnsigned_decimal (by have := octet_lt a k; omega) nofun
  rwa [List.append_nil] at happ

/-- Every address is read back from its dotted form. -/
theorem torInetAton_ntoa : torInetAton (torInetNtoa a) = some a := by
  have hlast := scanUnsigned_last_octet a 0
  have hdots : ∀ rest : Text, scanChar '.' ('.' :: rest) = some rest := fun rest => rfl
  have hoctal : ¬ ((torInetNtoa a).splitOn '.').any (fun octet => octet.length > 1 ∧ octet.head? = some '0') = true := by
    rw [splitOn_ntoa]
    simp only [List.any_cons, List.any_nil, decide_eq_false (octal_decimal _), Bool.or_false, Bool.false_eq_true,
      not_false_eq_true]
  have hsmall : ¬ (octet a 3 > 255 ∨ octet a 2 > 255 ∨ octet a 1 > 255 ∨ octet a 0 > 255) := by
    have h0 := octet_lt a 0
    have h1 := octet_lt a 1
    have h2 := octet_lt a 2
    have h3 := octet_lt a 3
    omega
  have hfirst : scanUnsigned 3 (torInetNtoa a) = some (octet a 3, '.' :: (decimal (octet a 2) ++ '.' ::
      (decimal (octet a 1) ++ '.' :: decimal (octet a 0)))) := scanUnsigned_octet a 3 _
  unfold torInetAton
  rw [hfirst]
  simp only [Option.bind_eq_bind, Option.bind_some, hdots, scanUnsigned_octet, hlast, hoctal, hsmall, ne_eq, not_true_eq_false, if_false,
    octets_eq]
  rfl

/-- A digit is neither white space nor a sign. -/
theorem digit_starts_number {c : Char} (h : c.isDigit = true) : isspace c = false ∧ c ≠ '-' ∧ c ≠ '+' := by
  refine ⟨?_, fun e => absurd h (by rw [e]; decide), fun e => absurd h (by rw [e]; decide)⟩
  by_contra hs
  simp only [isspace, Bool.not_eq_false, decide_eq_true_eq] at hs
  rcases hs with rfl | rfl | rfl | rfl | rfl | rfl <;> exact absurd h (by decide)

/-- What `strtol` and `strtoul` look for before the digits is not there. -/
theorem decimal_start {n : Nat} {rest : Text} (hrest : ∀ c ∈ rest.head?, c.isDigit = false) :
    (decimal n ++ rest).dropWhile isspace = decimal n ++ rest ∧ ¬ (decimal n ++ rest).head? = some '-' ∧
      ¬ (decimal n ++ rest).head? = some '+' ∧ (decimal n ++ rest).takeWhile Char.isDigit = decimal n := by
  have hhead : ∀ c ∈ (decimal n ++ rest).head?, isspace c = false ∧ c ≠ '-' ∧ c ≠ '+' := by
    intro c hc
    rw [List.head?_append_of_ne_nil _ (decimal_ne_nil n)] at hc
    exact digit_starts_number (isDigit_decimal c (List.mem_of_mem_head? hc))
  have hspace : ([] ++ (decimal n ++ rest)).dropWhile isspace = decimal n ++ rest :=
    dropWhile_run nofun fun c hc => (hhead c hc).1
  exact ⟨hspace, fun e => (hhead _ e).2.1 rfl, fun e => (hhead _ e).2.2 rfl, takeWhile_run isDigit_decimal hrest⟩

theorem strtol_decimal {n : Nat} (hlong : n ≤ LONG_MAX) {rest : Text} (hrest : ∀ c ∈ rest.head?, c.isDigit = false) :
    strtol (decimal n ++ rest) = ((n : Int), rest, false) := by
  obtain ⟨hspace, hneg, hpos, hdigits⟩ := @decimal_start n rest hrest
  unfold strtol
  simp only [hspace, hneg, hpos, hdigits, ofDigitChars_decimal, decimal_ne_nil, false_and, not_false_eq_true, true_and,
    false_or, if_false, List.drop_left]
  rw [if_neg (by omega)]

/-- A number followed by anything but a digit is read up to there. -/
theorem torParseLongNext_decimal {n : Nat} {max : Int} (hmax : n ≤ max) (hlong : n ≤ LONG_MAX) {rest : Text}
    (hrest : ∀ c ∈ rest.head?, c.isDigit = false) :
    torParseLongNext (decimal n ++ rest) 0 max = some ((n : Int), rest) := by
  have hlen : rest.length ≠ (decimal n ++ rest).length := by
    have := List.length_pos_of_ne_nil (decimal_ne_nil n)
    rw [List.length_append]
    omega
  unfold torParseLongNext
  rw [strtol_decimal hlong hrest]
  simp only
  rw [if_neg]
  simp only [Bool.false_eq_true, hlen, false_or]
  omega

/-- A text that starts with a digit is read as its digits, without blanks or a sign. -/
theorem torParseUlongNext_digits {s : Text} (h : s.head?.any Char.isDigit = true) {max : Nat} (hmax : max ≤ ULONG_MAX) :
    torParseUlongNext s 0 max =
      if Nat.ofDigitChars 10 (s.takeWhile Char.isDigit) 0 ≤ max then
        some (Nat.ofDigitChars 10 (s.takeWhile Char.isDigit) 0, s.dropWhile Char.isDigit)
      else none := by
  obtain ⟨c, t, rfl⟩ : ∃ c t, s = c :: t := by
    cases s with
    | nil => cases h
    | cons c t => exact ⟨c, t, rfl⟩
  have hc : c.isDigit = true := h
  obtain ⟨hspace, hneg, hpos⟩ := digit_starts_number hc
  have hne : (c :: t).takeWhile Char.isDigit ≠ [] := by
    rw [List.takeWhile_cons_of_pos hc]
    exact List.cons_ne_nil _ _
  have hdrop : (c :: t).drop ((c :: t).takeWhile Char.isDigit).length = (c :: t).dropWhile Char.isDigit := by
    nth_rewrite 2 [← List.takeWhile_append_dropWhile (p := Char.isDigit) (l := c :: t)]
    exact List.drop_left
  have hlen : ((c :: t).dropWhile Char.isDigit).length ≠ (c :: t).length := by
    have hsum := congrArg List.length (List.takeWhile_append_dropWhile (p := Char.isDigit) (l := c :: t))
    rw [List.length_append] at hsum
    have := List.length_pos_of_ne_nil hne
    omega
  unfold torParseUlongNext strtoul
  simp only [List.dropWhile_cons_of_neg (show ¬ isspace c = true by simp [hspace]), List.head?_cons, Option.some.injEq,
    hneg, hpos, or_self, if_false, hne, hdrop]
  generalize Nat.ofDigitChars 10 ((c :: t).takeWhile Char.isDigit) 0 = v
  by_cases hbig : v > ULONG_MAX
  · rw [if_neg (show ¬ v ≤ max by omega)]
    simp [hbig]
  · rw [if_neg hbig]
    by_cases hv : v ≤ max
    · rw [if_pos hv, if_neg]
      simp only [Bool.false_eq_true, hlen, false_or]
      omega
    · rw [if_neg hv, if_pos]
      simp only [Bool.false_eq_true, hlen, false_or]
      omega

/-- So is every number a range allows. -/
theorem torParseLong_decimal_from {n : Nat} {min max : Int} (hmin : min ≤ n) (hmax : n ≤ max) (hlong : n ≤ LONG_MAX) :
    torParseLong (decimal n) min max = some (n : Int) := by
  have hlen : ([] : Text).length ≠ (decimal n).length := fun e => decimal_ne_nil n (List.eq_nil_of_length_eq_zero e.symm)
  have hstrtol : strtol (decimal n) = ((n : Int), [], false) := by
    have happ := @strtol_decimal n hlong [] nofun
    rwa [List.append_nil] at happ
  unfold torParseLong
  rw [hstrtol]
  simp only
  rw [if_neg]
  intro h
  rcases h with h | h | h | h | h | h
  · cases h
  · exact hlen h
  · exact h rfl
  · omega
  · omega
  · omega

theorem torParseLong_decimal {n : Nat} {max : Int} (hmax : n ≤ max) (hlong : n ≤ LONG_MAX) :
    torParseLong (decimal n) 0 max = some (n : Int) := torParseLong_decimal_from (Int.natCast_nonneg n) hmax hlong

end Badnet.Encoding

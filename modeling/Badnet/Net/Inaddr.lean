/-
  Badnet.Net.Inaddr — IPv6 addresses in texts (`tor_inet_pton` of `lib/net/inaddr.c`).

  The text up to `eow` holds the words, with at most one gap; a dotted IPv4 address may stand for the last two. A word
  is read with `strtol` in base 16, which takes a prefix `0x`; the code then looks at the second character.
-/

import Badnet.Encoding.Decimal
import Badnet.Net.Address

namespace Badnet.Net

open Encoding

def INET_NTOA_BUF_LEN : Nat := 16

def TOR_ADDR_BUF_LEN : Nat := 48

def isXDigit (c : Char) : Bool := c.isDigit ∨ ('a' ≤ c ∧ c ≤ 'f') ∨ ('A' ≤ c ∧ c ≤ 'F')

def xdigitValue (c : Char) : Nat :=
  if c.isDigit then c.toNat - '0'.toNat else if 'a' ≤ c then c.toNat - 'a'.toNat + 10 else c.toNat - 'A'.toNat + 10

def hexValue (digits : Text) : Nat := digits.foldl (fun v c => 16 * v + xdigitValue c) 0

/-- `strtol` in base 16 where a hexadecimal digit stands first: the value and what follows. -/
def strtol16 (s : Text) : Nat × Text :=
  let body := if s.head? = some '0' ∧ (s[1]? = some 'x' ∨ s[1]? = some 'X') ∧ s[2]?.any isXDigit then s.drop 2 else s
  (hexValue (body.takeWhile isXDigit), body.dropWhile isXDigit)

theorem strtol16_length {c : Char} (rest : Text) (h : isXDigit c = true) :
    (strtol16 (c :: rest)).2.length ≤ rest.length := by
  unfold strtol16
  dsimp only
  split
  · refine Nat.le_trans ((List.dropWhile_suffix _).length_le) ?_
    simp
  · rw [List.dropWhile_cons_of_pos h]
    exact (List.dropWhile_suffix _).length_le

/-- The words read so far, and the position of the gap. -/
structure Words where
  words : List Nat
  gapPos : Option Nat

/-- The loop over `src` up to `eow`; a number ends before a colon or at `eow`. -/
def readWords (s : Words) : Text → Option Words
  | [] => some s
  | c :: rest =>
    if s.words.length > 7 then none
    else if _hc : isXDigit c then
      let r := (strtol16 (c :: rest)).1
      let len := (c :: rest).length - (strtol16 (c :: rest)).2.length
      if len > 4 ∨ (len > 1 ∧ ¬ rest.head?.any isXDigit) then none
      else
        match _h : (strtol16 (c :: rest)).2 with
        | [] => some { s with words := s.words ++ [r] }
        | d :: next => if d ≠ ':' then none else readWords { s with words := s.words ++ [r] } next
    else if c = ':' ∧ s.words.length > 0 ∧ s.gapPos = none then
      readWords { s with gapPos := some s.words.length } rest
    else if c = ':' ∧ s.words.length = 0 ∧ rest.head? = some ':' ∧ s.gapPos = none then
      readWords { s with gapPos := some s.words.length } rest.tail
    else none
termination_by src => src.length
decreasing_by
  · have hlen := strtol16_length rest _hc
    rw [_h, List.length_cons] at hlen
    rw [List.length_cons]
    omega
  · simp
  · rw [List.length_tail, List.length_cons]
    omega

/-- The pattern `%3u.%3u.%3u.%3u%c`, of which exactly the four numbers must match, as the last two words. -/
def scanDotted (str : Text) : Option (List Nat) := do
  let (a, buf) ← scanUnsigned 3 str
  let (b, buf) ← scanUnsigned 3 (← scanChar '.' buf)
  let (c, buf) ← scanUnsigned 3 (← scanChar '.' buf)
  let (d, buf) ← scanUnsigned 3 (← scanChar '.' buf)
  if buf ≠ [] then none
  if a > 255 ∨ b > 255 ∨ c > 255 ∨ d > 255 then none
  return [a * 256 + b, c * 256 + d]

/-- The text up to `eow`, and the words that a dotted address gives. -/
def splitDotted (src : Text) : Option (Text × List Nat) :=
  let beforeDot := src.takeWhile (· ≠ '.')
  if beforeDot = src then some (src, [])
  else
    let words := (beforeDot.reverse.dropWhile Char.isDigit).reverse
    if words.getLast? ≠ some ':' then none else (scanDotted (src.drop words.length)).map (words, ·)

/-- The gap is filled with zeros. -/
def fillGap (s : Words) (dotted : List Nat) : List Nat :=
  match s.gapPos with
  | none => s.words ++ dotted
  | some g => s.words.take g ++ List.replicate (8 - (s.words ++ dotted).length) 0 ++ s.words.drop g ++ dotted

def wordsToBytes (words : List Nat) : Vector UInt8 16 :=
  Vector.ofFn fun i => UInt8.ofNat (if i.val % 2 = 0 then words.getD (i / 2) 0 / 256 else words.getD (i / 2) 0 % 256)

/-- `tor_inet_pton` for `AF_INET6`. -/
def torInetPton6 (src : Text) : Option (Vector UInt8 16) := do
  if src.length > 2 ∧ src.getLast? = some ':' ∧ src.dropLast.getLast? ≠ some ':' then none
  if src.head? = some '.' then none
  let (words, dotted) ← splitDotted src
  let s ← readWords ⟨[], none⟩ words
  let setWords := (s.words ++ dotted).length
  if setWords > 8 ∨ (setWords = 8 ∧ s.gapPos ≠ none) ∨ (setWords < 8 ∧ s.gapPos = none) then none
  return wordsToBytes (fillGap s dotted)

example : torInetPton6 "fe80::1:2.3.4.5".toList = some #v[0xfe, 0x80, 0, 0, 0, 0, 0, 0, 0, 0, 0, 1, 2, 3, 4, 5] := by
  decide +kernel

end Badnet.Net

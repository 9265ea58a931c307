/-
  Badnet.Net.Ntop — an IPv6 address is read back from what is printed (`tor_inet_ntop` and `tor_inet_pton` of
  `lib/net/inaddr.c`).

  The printer leaves out one run of zero words or ends in a dotted address; the parser notes the position of the gap and
  moves the words behind it to the end. Which run is left out does not matter for reading it back
  (`torInetPton6_formatWords`).
-/

import Badnet.Lib.Bytes
import Badnet.Net.AddrText

namespace Badnet.Net

open Encoding Lib

/-! ## Words -/

theorem isXDigit_digitChar : ∀ d < 16, isXDigit (Nat.digitChar d) = true := by decide

theorem xdigitValue_digitChar : ∀ d < 16, xdigitValue (Nat.digitChar d) = d := by decide

variable {w : Nat} {rest t : Text} {s : Words} {gap : Option Nat} {ws : List Nat}

theorem isXDigit_toDigits : ∀ c ∈ Nat.toDigits 16 w, isXDigit c = true := by
  induction w using Nat.strongRecOn with
  | _ w ih =>
    intro c hc
    by_cases hw : w < 16
    · rw [Nat.toDigits_of_lt_base hw, List.mem_singleton] at hc
      exact hc ▸ isXDigit_digitChar w hw
    · rw [Nat.toDigits_of_base_le (by decide) (by omega), List.mem_append, List.mem_singleton] at hc
      rcases hc with hc | rfl
      · exact ih (w / 16) (by omega) c hc
      · exact isXDigit_digitChar _ (Nat.mod_lt _ (by decide))

theorem hexValue_toDigits (w : Nat) : hexValue (Nat.toDigits 16 w) = w := by
  induction w using Nat.strongRecOn with
  | _ w ih =>
    by_cases hw : w < 16
    · rw [Nat.toDigits_of_lt_base hw]
      simpa [hexValue] using xdigitValue_digitChar w hw
    · have hlow := xdigitValue_digitChar (w % 16) (Nat.mod_lt _ (by decide))
      have hhigh : hexValue (Nat.toDigits 16 (w / 16)) = w / 16 := ih (w / 16) (by omega)
      rw [Nat.toDigits_of_base_le (by decide) (by omega), hexValue, List.foldl_append, List.foldl_cons, List.foldl_nil, hlow]
      unfold hexValue at hhigh
      rw [hhigh]
      omega

/-- A word is followed by a colon, or it is the last. -/
def EndsWord (rest : Text) : Prop := rest = [] ∨ rest.head? = some ':'

theorem EndsWord.not_xdigit (h : EndsWord rest) : ∀ c ∈ rest.head?, isXDigit c = false := by
  rcases h with rfl | h
  · intro c hc
    cases hc
  · rw [h]
    intro c hc
    cases hc
    rfl

/-- The prefix `0x` is never printed. -/
theorem strtol16_toDigits (w : Nat) (hrest : EndsWord rest) : strtol16 (Nat.toDigits 16 w ++ rest) = (w, rest) := by
  have hprefix : ¬ ((Nat.toDigits 16 w ++ rest).head? = some '0' ∧ ((Nat.toDigits 16 w ++ rest)[1]? = some 'x' ∨
      (Nat.toDigits 16 w ++ rest)[1]? = some 'X') ∧ (Nat.toDigits 16 w ++ rest)[2]?.any isXDigit = true) := by
    rintro ⟨-, hx, -⟩
    have hsecond : ∀ c, (Nat.toDigits 16 w ++ rest)[1]? = some c → isXDigit c = true ∨ c = ':' := by
      intro c hc
      rw [List.getElem?_append] at hc
      split at hc
      · exact .inl (isXDigit_toDigits c (List.mem_of_getElem? hc))
      next hlen =>
        have hpos : 0 < (Nat.toDigits 16 w).length := List.length_pos_of_ne_nil Nat.toDigits_ne_nil
        have hone : 1 - (Nat.toDigits 16 w).length = 0 := by omega
        rw [hone, ← List.head?_eq_getElem?] at hc
        rcases hrest with rfl | hcolon
        · cases hc
        · exact .inr (Option.some.inj (hc.symm.trans hcolon))
    rcases hx with hx | hx
    · exact absurd (hsecond _ hx) (by decide)
    · exact absurd (hsecond _ hx) (by decide)
  unfold strtol16
  simp only [if_neg hprefix]
  rw [takeWhile_run isXDigit_toDigits hrest.not_xdigit, dropWhile_run isXDigit_toDigits hrest.not_xdigit, hexValue_toDigits]

/-- One turn of the parser's loop over a word. -/
theorem readWords_word (hroom : s.words.length ≤ 7) (hw : w < 65536) (hrest : EndsWord rest) :
    readWords s (Nat.toDigits 16 w ++ rest) = readWords { s with words := s.words ++ [w] } rest.tail := by
  obtain ⟨c, digits, hdigits⟩ := List.exists_cons_of_ne_nil (Nat.toDigits_ne_nil (n := w) (b := 16))
  have hc : isXDigit c = true := isXDigit_toDigits c (hdigits ▸ List.mem_cons_self)
  have hstrtol := strtol16_toDigits w hrest
  have hlen : (Nat.toDigits 16 w).length ≤ 4 := (Nat.length_toDigits_le_iff (by decide) (by decide)).mpr hw
  rw [hdigits, List.cons_append] at hstrtol ⊢
  rw [hdigits] at hlen
  have htaken : (c :: (digits ++ rest)).length - rest.length = (c :: digits).length := by
    simp only [List.length_cons, List.length_append]
    omega
  have hsecond : ¬ ((c :: digits).length > 1 ∧ ¬ (digits ++ rest).head?.any isXDigit = true) := by
    rintro ⟨hlong, hbad⟩
    obtain ⟨d, more, rfl⟩ : ∃ d more, digits = d :: more :=
      List.exists_cons_of_ne_nil fun hnil => by simp [hnil] at hlong
    have hd : isXDigit d = true := isXDigit_toDigits (w := w) d (by simp [hdigits])
    exact hbad (by simpa using hd)
  rw [readWords, if_neg (by omega), dif_pos hc]
  simp only [hstrtol, htaken]
  rw [if_neg (by rintro (h | h); exacts [absurd hlen (by omega), hsecond h])]
  split
  next hnil =>
    rw [hstrtol] at hnil
    rw [show rest = [] from hnil, List.tail_nil, readWords]
  next d next hcons =>
    rw [hstrtol] at hcons
    obtain rfl : rest = d :: next := hcons
    have hd : d = ':' := by simpa [EndsWord] using hrest
    rw [if_neg (not_not_intro hd), List.tail_cons]

theorem readWords_gap {pre : List Nat} (hpos : 0 < pre.length) (hroom : pre.length ≤ 7) (rest : Text) :
    readWords ⟨pre, none⟩ (':' :: rest) = readWords ⟨pre, some pre.length⟩ rest := by
  have hcolon : ¬ isXDigit ':' = true := by decide
  rw [readWords, if_neg (Nat.not_lt.mpr hroom), dif_neg hcolon, if_pos ⟨rfl, hpos, rfl⟩]

theorem readWords_first_gap (rest : Text) :
    readWords ⟨[], none⟩ (':' :: ':' :: rest) = readWords ⟨[], some 0⟩ rest := by
  have hcolon : ¬ isXDigit ':' = true := by decide
  have hroom : ¬ ([] : List Nat).length > 7 := by decide
  have hpos : ¬ (':' = ':' ∧ ([] : List Nat).length > 0 ∧ (none : Option Nat) = none) := by decide
  rw [readWords, if_neg hroom, dif_neg hcolon, if_neg hpos, if_pos ⟨rfl, rfl, rfl, rfl⟩, List.tail_cons, List.length_nil]

/-! ## The words of an address -/

theorem formatWords_word {i : Nat} (h : ¬ (w = 0 ∧ gap = some i)) :
    formatWords gap i (w :: ws) = Nat.toDigits 16 w ++ ((if i ≠ 7 then [':'] else []) ++ formatWords gap (i + 1) ws) := by
  rw [formatWords, if_neg h, List.append_assoc]

/-- The parser reads one word and what separates it from the next. -/
theorem readWords_formatWords_word {i : Nat} (hlen : i + (w :: ws).length = 8)
    (hroom : s.words.length ≤ 7) (hw : w < 65536) (h : ¬ (w = 0 ∧ gap = some i)) :
    readWords s (formatWords gap i (w :: ws)) = readWords { s with words := s.words ++ [w] } (formatWords gap (i + 1) ws) := by
  rw [formatWords_word h]
  by_cases hlast : i = 7
  · obtain rfl : ws = [] := List.eq_nil_of_length_eq_zero (by rw [List.length_cons] at hlen; omega)
    rw [if_neg (not_not_intro hlast), List.nil_append]
    have hnil : formatWords gap (i + 1) [] = [] := by rw [formatWords]
    rw [hnil, readWords_word hroom hw (.inl rfl), List.tail_nil]
  · rw [if_pos hlast, readWords_word hroom hw (.inr rfl)]
    rfl

/-- Behind the gap every word is printed. -/
theorem readWords_formatWords_rest : ∀ {s : Words} {i : Nat}, i + ws.length = 8 →
    s.words.length + ws.length ≤ 8 → (∀ w ∈ ws, w < 65536) → (∀ p ∈ gap, p < i) →
    readWords s (formatWords gap i ws) = some { s with words := s.words ++ ws } := by
  induction ws with
  | nil =>
    intro s i _ _ _ _
    rw [formatWords, readWords, List.append_nil]
  | cons w ws ih =>
    intro s i hlen hroom hws hgap
    have hlen' := hlen
    rw [List.length_cons] at hlen hroom
    have hpast : ¬ (w = 0 ∧ gap = some i) := fun h => absurd (hgap i h.2) (Nat.lt_irrefl i)
    rw [readWords_formatWords_word hlen' (by omega) (hws w List.mem_cons_self) hpast, ih (by omega) ?_
      (fun v hv => hws v (List.mem_cons_of_mem _ hv)) (fun p hp => Nat.lt_succ_of_lt (hgap p hp))]
    · rw [List.append_assoc, List.singleton_append]
    · simp only [List.length_append, List.length_singleton]
      omega

/-- What the checks behind the loop accept. -/
def Complete (s : Words) (dotted : List Nat) : Prop :=
  ¬ ((s.words ++ dotted).length > 8 ∨ ((s.words ++ dotted).length = 8 ∧ s.gapPos ≠ none) ∨
    ((s.words ++ dotted).length < 8 ∧ s.gapPos = none))

theorem readWords_formatWords : ∀ {pre : List Nat}, pre.length + ws.length = 8 → (∀ w ∈ ws, w < 65536) →
    ∃ s, readWords ⟨pre, none⟩ (formatWords gap pre.length ws) = some s ∧ Complete s [] ∧ fillGap s [] = pre ++ ws := by
  induction ws with
  | nil =>
    intro pre hlen _
    refine ⟨⟨pre, none⟩, by rw [formatWords, readWords], ?_, by simp [fillGap]⟩
    simp [Complete] at hlen ⊢
    omega
  | cons w ws ih =>
    intro pre hlen hws
    have hlen' := hlen
    rw [List.length_cons] at hlen
    by_cases hgap : w = 0 ∧ gap = some pre.length
    · obtain ⟨rfl, hgap'⟩ := hgap
      obtain ⟨run, rest, hrun, hrest, hsplit⟩ : ∃ run rest, (ws.takeWhile (· = 0)).length = run ∧ ws.dropWhile (· = 0) = rest ∧
          ws = List.replicate run 0 ++ rest := by
        refine ⟨_, _, rfl, rfl, ?_⟩
        have hzeros : ws.takeWhile (· = 0) = List.replicate (ws.takeWhile (· = 0)).length 0 :=
          List.eq_replicate_length.mpr fun w hw => by simpa using List.all_eq_true.mp List.all_takeWhile w hw
        rw [← hzeros, List.takeWhile_append_dropWhile]
      have hlengths : ws.length = run + rest.length := by rw [hsplit, List.length_append, List.length_replicate]
      have hread : readWords ⟨pre, none⟩ (formatWords gap pre.length (0 :: ws)) =
          readWords ⟨pre, some pre.length⟩ (formatWords gap (pre.length + 1 + run) rest) := by
        rw [formatWords, if_pos ⟨rfl, hgap'⟩, hrun, hrest]
        by_cases hfirst : pre.length = 0
        · obtain rfl : pre = [] := List.eq_nil_of_length_eq_zero hfirst
          exact readWords_first_gap _
        · rw [if_neg hfirst, List.nil_append, readWords_gap (by omega) (by omega)]
      have hbehind := @readWords_formatWords_rest gap rest ⟨pre, some pre.length⟩ (pre.length + 1 + run) (by omega)
        (by simp only; omega) (fun w hw => hws w (List.mem_cons_of_mem _ (hsplit ▸ List.mem_append_right _ hw)))
        (fun p hp => by rw [hgap'] at hp; cases hp; omega)
      refine ⟨⟨pre ++ rest, some pre.length⟩, hread.trans hbehind, ?_, ?_⟩
      · simp [Complete]
        omega
      · have hcount : 8 - (pre ++ rest ++ []).length = run + 1 := by
          simp only [List.append_nil, List.length_append]
          omega
        simp only [fillGap, hcount, List.take_left, List.drop_left]
        rw [hsplit, List.append_nil, List.replicate_succ, List.append_assoc, List.cons_append]
    · rw [readWords_formatWords_word hlen' (by simp only; omega) (hws w List.mem_cons_self) hgap]
      obtain ⟨s, hread, hcomplete, hfill⟩ := @ih (pre ++ [w]) (by simp; omega) fun v hv => hws v (List.mem_cons_of_mem _ hv)
      rw [List.length_append, List.length_singleton] at hread
      exact ⟨s, hread, hcomplete, by rw [hfill, List.append_assoc, List.singleton_append]⟩

/-! ## The text -/

/-- Only as a gap does a colon end a text. -/
def EndsWell (t : Text) : Prop := t.getLast? ≠ some ':' ∨ ∃ front, t = front ++ [':', ':']

theorem EndsWell.append (h : EndsWell t) (hne : t ≠ []) (front : Text) : EndsWell (front ++ t) := by
  rcases h with h | ⟨start, rfl⟩
  · exact .inl (by rwa [List.getLast?_append_of_ne_nil _ hne])
  · exact .inr ⟨front ++ start, by rw [List.append_assoc]⟩

/-- The words of an address, and what follows a colon. -/
theorem endsWell_formatWords (gap : Option Nat) (i : Nat) (ws : List Nat) : i + ws.length = 8 → ws ≠ [] →
    (i = 0 → EndsWell (formatWords gap i ws)) ∧ EndsWell (':' :: formatWords gap i ws) := by
  fun_induction formatWords gap i ws with
  | case1 => intro _ h; exact absurd rfl h
  | case2 i w words h ih =>
    intro hlen _
    have hsplit := congrArg List.length (List.takeWhile_append_dropWhile (p := fun w : Nat => w = 0) (l := words))
    rw [List.length_append] at hsplit
    rw [List.length_cons] at hlen
    have hgap : EndsWell (':' :: ':' :: formatWords gap (i + 1 + (words.takeWhile (· = 0)).length) (words.dropWhile (· = 0))) := by
      by_cases hrest : words.dropWhile (· = 0) = []
      · rw [hrest, formatWords]
        exact .inr ⟨[], rfl⟩
      · exact (ih (by omega) hrest).2.append (List.cons_ne_nil _ _) [':']
    constructor
    · intro hi
      rw [if_pos hi]
      exact hgap
    · by_cases hi : i = 0
      · rw [if_pos hi]
        exact hgap.append (List.cons_ne_nil _ _) [':']
      · rw [if_neg hi, List.nil_append]
        exact hgap
  | case3 i w words h ih =>
    intro hlen _
    have hword : EndsWell (Nat.toDigits 16 w ++ (if i ≠ 7 then [':'] else []) ++ formatWords gap (i + 1) words) := by
      rw [List.append_assoc]
      by_cases hi : i = 7
      · obtain rfl : words = [] := List.eq_nil_of_length_eq_zero (by rw [List.length_cons] at hlen; omega)
        rw [if_neg (not_not_intro hi), formatWords, List.append_nil, List.append_nil]
        refine .inl fun hlast => ?_
        have hcolon := isXDigit_toDigits ':' (List.mem_of_getLast? hlast)
        exact absurd hcolon (by decide)
      · rw [if_pos hi]
        rw [List.length_cons] at hlen
        exact (ih (by omega) (fun hnil => by simp [hnil] at hlen; omega)).2.append (List.cons_ne_nil _ _) _
    exact ⟨fun _ => hword, hword.append (by simp [Nat.toDigits_ne_nil]) [':']⟩

theorem mem_formatWords (gap : Option Nat) (i : Nat) (ws : List Nat) : ∀ c ∈ formatWords gap i ws, isXDigit c = true ∨ c = ':' := by
  fun_induction formatWords gap i ws with
  | case1 => intro c hc; cases hc
  | case2 i w words h ih =>
    intro c hc
    simp only [List.mem_append, List.mem_cons] at hc
    rcases hc with hc | rfl | hc
    · split at hc
      · exact .inr (List.mem_singleton.mp hc)
      · cases hc
    · exact .inr rfl
    · exact ih c hc
  | case3 i w words h ih =>
    intro c hc
    simp only [List.mem_append] at hc
    rcases hc with (hc | hc) | hc
    · exact .inl (isXDigit_toDigits c hc)
    · split at hc
      · exact .inr (List.mem_singleton.mp hc)
      · cases hc
    · exact ih c hc

theorem splitDotted_plain (h : '.' ∉ t) : splitDotted t = some (t, []) := by
  have hchars : ∀ c ∈ t, decide (c ≠ '.') = true := fun c hc => decide_eq_true fun e => h (e ▸ hc)
  have hall : t.takeWhile (· ≠ '.') = t := by
    simpa using @takeWhile_run _ t _ [] hchars nofun
  unfold splitDotted
  rw [hall, if_pos rfl]

theorem trailing_ok (h : EndsWell t) :
    ¬ (t.length > 2 ∧ t.getLast? = some ':' ∧ t.dropLast.getLast? ≠ some ':') := by
  rintro ⟨-, hlast, hbefore⟩
  rcases h with h | ⟨front, rfl⟩
  · exact h hlast
  · refine hbefore ?_
    rw [show front ++ [':', ':'] = front ++ [':'] ++ [':'] by simp, List.dropLast_concat, List.getLast?_concat]

/-- The whole parser, by what its parts return. -/
theorem torInetPton6_eq {words : Text} {dotted : List Nat} (hend : EndsWell t) (hdot : t.head? ≠ some '.')
    (hsplit : splitDotted t = some (words, dotted)) (hread : readWords ⟨[], none⟩ words = some s) (hcomplete : Complete s dotted) :
    torInetPton6 t = some (wordsToBytes (fillGap s dotted)) := by
  unfold torInetPton6
  rw [if_neg (trailing_ok hend), if_neg hdot, hsplit]
  simp only [Option.bind_eq_bind, Option.bind_some, hread]
  rw [if_neg hcomplete]
  rfl

/-- Eight words are read back whichever run of zeros was left out. -/
theorem torInetPton6_formatWords (gap : Option Nat) (hlen : ws.length = 8) (hws : ∀ w ∈ ws, w < 65536) :
    torInetPton6 (formatWords gap 0 ws) = some (wordsToBytes ws) := by
  have hne : ws ≠ [] := fun h => by simp [h] at hlen
  have hdot : '.' ∉ formatWords gap 0 ws := fun h => absurd (mem_formatWords gap 0 ws '.' h) (by decide)
  obtain ⟨s, hread, hcomplete, hfill⟩ := @readWords_formatWords gap ws [] (by simpa using hlen) hws
  rw [torInetPton6_eq ((endsWell_formatWords gap 0 ws (by omega) hne).1 rfl) (fun h => hdot (List.mem_of_mem_head? h))
    (splitDotted_plain hdot) hread hcomplete, hfill, List.nil_append]

/-! ## Dotted tails -/

theorem scanDotted_ntoa (x : UInt32) :
    scanDotted (torInetNtoa x) = some [octet x 3 * 256 + octet x 2, octet x 1 * 256 + octet x 0] := by
  have hdots : ∀ rest : Text, scanChar '.' ('.' :: rest) = some rest := fun rest => rfl
  have hsmall : ¬ (octet x 3 > 255 ∨ octet x 2 > 255 ∨ octet x 1 > 255 ∨ octet x 0 > 255) := by
    have h0 := octet_lt x 0
    have h1 := octet_lt x 1
    have h2 := octet_lt x 2
    have h3 := octet_lt x 3
    omega
  have hfirst : scanUnsigned 3 (torInetNtoa x) = some (octet x 3, '.' :: (decimal (octet x 2) ++ '.' ::
      (decimal (octet x 1) ++ '.' :: decimal (octet x 0)))) := scanUnsigned_octet x 3 _
  unfold scanDotted
  rw [hfirst]
  simp only [Option.bind_eq_bind, Option.bind_some, hdots, scanUnsigned_octet, scanUnsigned_last_octet, ne_eq,
    not_true_eq_false, if_false, hsmall]
  rfl

/-- The words before a dotted address end in a colon. -/
theorem splitDotted_ntoa {front : Text} (hdot : '.' ∉ front) (hcolon : front.getLast? = some ':') (x : UInt32) :
    splitDotted (front ++ torInetNtoa x) = some (front, [octet x 3 * 256 + octet x 2, octet x 1 * 256 + octet x 0]) := by
  have hbefore : (front ++ torInetNtoa x).takeWhile (· ≠ '.') = front ++ decimal (octet x 3) := by
    have hchars : ∀ c ∈ front ++ decimal (octet x 3), decide (c ≠ '.') = true := by
      intro c hc
      refine decide_eq_true fun e => ?_
      rcases List.mem_append.mp (e ▸ hc) with h | h
      · exact hdot h
      · exact dot_notMem_decimal _ h
    rw [torInetNtoa, ← List.append_assoc]
    exact takeWhile_run hchars fun c hc => by cases hc; rfl
  have hne : front ++ decimal (octet x 3) ≠ front ++ torInetNtoa x := fun h => by
    have := congrArg (fun t : Text => decide ('.' ∈ t)) (List.append_cancel_left h)
    simp [torInetNtoa, dot_notMem_decimal] at this
  have hwords : ((front ++ decimal (octet x 3)).reverse.dropWhile Char.isDigit).reverse = front := by
    have hdigits : ∀ c ∈ (decimal (octet x 3)).reverse, c.isDigit = true := fun c hc =>
      isDigit_decimal c (List.mem_reverse.mp hc)
    have hhead : ∀ c ∈ front.reverse.head?, c.isDigit = false := by
      rw [List.head?_reverse, hcolon]
      intro c hc
      cases hc
      rfl
    rw [List.reverse_append, dropWhile_run hdigits hhead, List.reverse_reverse]
  unfold splitDotted
  simp only [hbefore]
  rw [if_neg hne]
  simp only [hwords]
  rw [if_neg (not_not_intro hcolon), List.drop_left, scanDotted_ntoa]
  rfl

theorem endsWell_ntoa (front : Text) (x : UInt32) : EndsWell (front ++ torInetNtoa x) := by
  have hne : torInetNtoa x ≠ [] := by simp [torInetNtoa]
  refine EndsWell.append (.inl fun hlast => ?_) hne front
  have htail : torInetNtoa x = (decimal (octet x 3) ++ '.' :: (decimal (octet x 2) ++ '.' :: (decimal (octet x 1) ++ ['.']))) ++
      decimal (octet x 0) := by simp [torInetNtoa]
  rw [htail, List.getLast?_append_of_ne_nil _ (decimal_ne_nil _)] at hlast
  exact absurd (isDigit_decimal ':' (List.mem_of_getLast? hlast)) (by decide)

/-! ## The words of an address and its bytes -/

variable (a : Vector UInt8 16)

theorem wordsToBytes_addrWords : wordsToBytes (addrWords a) = a := by
  have hwords : ∀ i (hi : i < 8), (addrWords a).getD i 0 = a[2 * i].toNat * 256 + a[2 * i + 1].toNat := by
    intro i hi
    rw [addrWords, List.getD_eq_getElem?_getD, List.getElem?_map, List.getElem?_eq_getElem (by simpa using hi)]
    simp
  apply Vector.ext
  intro i hi
  simp only [wordsToBytes, Vector.getElem_ofFn]
  have hlow := a[2 * (i / 2) + 1].toNat_lt
  rw [hwords (i / 2) (by omega)]
  by_cases heven : i % 2 = 0
  · have hidx : a[2 * (i / 2)] = a[i] := by
      congr 1
      omega
    rw [if_pos heven, show (a[2 * (i / 2)].toNat * 256 + a[2 * (i / 2) + 1].toNat) / 256 = a[2 * (i / 2)].toNat by omega, hidx,
      UInt8.ofNat_toNat]
  · have hidx : a[2 * (i / 2) + 1] = a[i] := by
      congr 1
      omega
    rw [if_neg heven, show (a[2 * (i / 2)].toNat * 256 + a[2 * (i / 2) + 1].toNat) % 256 = a[2 * (i / 2) + 1].toNat by omega, hidx,
      UInt8.ofNat_toNat]

theorem length_addrWords : (addrWords a).length = 8 := by simp [addrWords]

theorem addrWords_lt : ∀ w ∈ addrWords a, w < 65536 := by
  intro w hw
  obtain ⟨i, -, rfl⟩ := List.mem_map.mp hw
  have hhigh := a[2 * i.val].toNat_lt
  have hlow := a[2 * i.val + 1].toNat_lt
  omega

theorem octets_of_bytes {x : UInt32} {b3 b2 b1 b0 : UInt8} (h : x.toNat = ofBE [b3, b2, b1, b0]) :
    octet x 3 * 256 + octet x 2 = b3.toNat * 256 + b2.toNat ∧ octet x 1 * 256 + octet x 0 = b1.toNat * 256 + b0.toNat := by
  have h₃ := b3.toNat_lt
  have h₂ := b2.toNat_lt
  have h₁ := b1.toNat_lt
  have h₀ := b0.toNat_lt
  simp only [ofBE, List.foldl_cons, List.foldl_nil] at h
  simp only [octet, h, Nat.reducePow]
  omega

/-- The last two words as a dotted address. -/
theorem octets_addrWords :
    (addrWords a).drop 6 = [octet (torAddrToMappedIpv4h a) 3 * 256 + octet (torAddrToMappedIpv4h a) 2,
      octet (torAddrToMappedIpv4h a) 1 * 256 + octet (torAddrToMappedIpv4h a) 0] := by
  have hvalue : (torAddrToMappedIpv4h a).toNat = ofBE [a[12], a[13], a[14], a[15]] := or_bytes _ _ _ _
  have hwords : (addrWords a).drop 6 = [a[12].toNat * 256 + a[13].toNat, a[14].toNat * 256 + a[15].toNat] := rfl
  obtain ⟨hhigh, hlow⟩ := octets_of_bytes hvalue
  rw [hwords, hhigh, hlow]

/-- The words behind a gap at the start, and two that the dotted address gives. -/
theorem torInetPton6_dotted {front : Text} {behind : List Nat} (hdot : '.' ∉ front)
    (hcolon : front.getLast? = some ':') (hread : readWords ⟨[], none⟩ front = some ⟨behind, some 0⟩)
    (hshort : behind.length ≤ 5)
    (hwords : addrWords a = List.replicate (6 - behind.length) 0 ++ behind ++ (addrWords a).drop 6) :
    torInetPton6 (front ++ torInetNtoa (torAddrToMappedIpv4h a)) = some a := by
  have hhead : (front ++ torInetNtoa (torAddrToMappedIpv4h a)).head? ≠ some '.' := fun h => by
    have hne : front ≠ [] := fun hnil => by simp [hnil] at hcolon
    rw [List.head?_append_of_ne_nil _ hne] at h
    exact hdot (List.mem_of_mem_head? h)
  rw [torInetPton6_eq (endsWell_ntoa _ _) hhead (splitDotted_ntoa hdot hcolon _) hread]
  · have hcount : 8 - (behind ++ [octet (torAddrToMappedIpv4h a) 3 * 256 + octet (torAddrToMappedIpv4h a) 2,
        octet (torAddrToMappedIpv4h a) 1 * 256 + octet (torAddrToMappedIpv4h a) 0]).length = 6 - behind.length := by
      rw [List.length_append]
      simp only [List.length_cons, List.length_nil]
      omega
    simp only [fillGap, hcount, List.take_zero, List.drop_zero, List.nil_append]
    rw [← octets_addrWords, ← hwords, wordsToBytes_addrWords]
  · simp [Complete]
    omega

/-- Every IPv6 address is read back from its text. -/
theorem torInetPton6_ntop6 : torInetPton6 (torInetNtop6 a) = some a := by
  have hlen := length_addrWords a
  unfold torInetNtop6
  simp only
  split
  next hdotted =>
    obtain ⟨hzeros, hword5⟩ := hdotted
    have hsplit : ∀ w, (addrWords a)[5]? = some w → addrWords a = [0, 0, 0, 0, 0] ++ [w] ++ (addrWords a).drop 6 := by
      intro w hw
      have htake : (addrWords a).take 6 = [0, 0, 0, 0, 0] ++ [w] := by
        rw [List.take_add_one (i := 5), hzeros, hw]
        rfl
      rw [← htake, List.take_append_drop]
    split
    next hzero =>
      have hread : readWords ⟨[], none⟩ "::".toList = some ⟨[], some 0⟩ := by
        rw [show "::".toList = ':' :: ':' :: [] from rfl, readWords_first_gap, readWords]
      exact torInetPton6_dotted a (by decide) rfl hread (by decide) (hsplit 0 hzero)
    next hzero =>
      have hffff : (addrWords a)[5]? = some 0xffff := hword5.resolve_left fun h => hzero h.1
      have hread : readWords ⟨[], none⟩ (':' :: ':' :: (Nat.toDigits 16 0xffff ++ [':'])) = some ⟨[0xffff], some 0⟩ := by
        rw [readWords_first_gap, readWords_word (by decide) (by decide) (.inr rfl), List.tail_cons, readWords]
        rfl
      have hrest := torInetPton6_dotted a (by decide) rfl hread (by decide) (hsplit 0xffff hffff)
      simpa using hrest
  · exact (torInetPton6_formatWords _ hlen (addrWords_lt a)).trans (by rw [wordsToBytes_addrWords])

end Badnet.Net

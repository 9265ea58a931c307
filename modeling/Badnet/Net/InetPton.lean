/-
  Badnet.Net.InetPton — the array of words of `tor_inet_pton` (`lib/net/inaddr.c`).

  The parser keeps eight words in an array, the words of a dotted address at its end from the start, and moves the words
  behind the gap with `memmove`. Here every index is checked and a failed assertion is a fault. No text leads to a fault,
  and the array holds what the list of words says (`torInetPton_eq`).
-/

import Badnet.Net.Inaddr

namespace Badnet.Net

open Encoding

/-! ## The array -/

inductive PtonFault where
  | assertion
  | outOfRange
  deriving DecidableEq, Repr

/-- `uint16_t words[8]` -/
abbrev WordArray := Vector Nat 8

variable (words : WordArray)

def setWord (i w : Nat) : Except PtonFault WordArray :=
  if h : i < 8 then .ok (words.set i w) else .error .outOfRange

def memmoveWords (dst src n : Nat) : Except PtonFault WordArray :=
  if dst + n ≤ 8 ∧ src + n ≤ 8 then
    .ok (Vector.ofFn fun k => if dst ≤ k.val ∧ k.val < dst + n then words[src + (k.val - dst)]?.getD 0 else words[k])
  else .error .outOfRange

def memsetWords (dst n : Nat) : Except PtonFault WordArray :=
  if dst + n ≤ 8 then .ok (Vector.ofFn fun k => if dst ≤ k.val ∧ k.val < dst + n then 0 else words[k])
  else .error .outOfRange

/-! ## The parser -/

/-- The variables of the loop; `gapPos` is `none` for -1. -/
structure PtonState where
  words : WordArray
  i : Nat
  gapPos : Option Nat
  setWords : Nat

/-- The loop from `src` up to `eow`, behind which `behind` characters of the text stand: `none` where the parser
    returns 0. -/
def ptonLoop (behind : Nat) (s : PtonState) (src : Text) : Except PtonFault (Option PtonState) :=
  if src.length ≤ behind then .ok (some s)
  else if s.i > 7 then .ok none
  else
    match src with
    | [] => .ok (some s)
    | c :: rest =>
      if _hc : isXDigit c then
        let r := (strtol16 (c :: rest)).1
        let next := (strtol16 (c :: rest)).2
        let len := if next = [] then (c :: rest).length - behind else (c :: rest).length - next.length
        if len > 4 then .ok none
        else if len > 1 ∧ ¬ rest.head?.any isXDigit then .ok none
        else if ¬ r < 65536 then .error .assertion
        else
          match setWord s.words s.i r with
          | .error fault => .error fault
          | .ok words =>
            if next.head? ≠ some ':' ∧ next.length ≠ behind then .ok none
            else ptonLoop behind { s with words := words, i := s.i + 1, setWords := s.setWords + 1 } next.tail
      else if c = ':' ∧ s.i > 0 ∧ s.gapPos = none then
        ptonLoop behind { s with gapPos := some s.i } rest
      else if c = ':' ∧ s.i = 0 ∧ behind + 1 < (c :: rest).length ∧ rest.head? = some ':' ∧ s.gapPos = none then
        ptonLoop behind { s with gapPos := some s.i } rest.tail
      else .ok none
termination_by src.length
decreasing_by
  · have hlen := strtol16_length rest _hc
    rw [List.length_tail, List.length_cons]
    omega
  · simp
  · rw [List.length_tail, List.length_cons]
    omega

/-- The words behind the gap move to the end of the array, or to where the dotted address begins. -/
def closeGap (dot : Bool) (s : PtonState) : Except PtonFault WordArray :=
  match s.gapPos with
  | none => .ok s.words
  | some gapPos =>
    let nToMove : Int := s.setWords - (if dot then 2 else 0) - gapPos
    let gapLen := 8 - s.setWords
    if nToMove < 0 then .error .assertion
    else do
      let words ← memmoveWords s.words (gapPos + gapLen) gapPos nToMove.toNat
      memsetWords words gapPos gapLen

/-- `memset(words, 0xf8, ..)`, and the words of a dotted address. -/
def firstWords (dotted : List Nat) : Except PtonFault WordArray :=
  let words : WordArray := Vector.replicate 8 0xf8f8
  match dotted with
  | [high, low] => do
    let words ← setWord words 6 high
    setWord words 7 low
  | _ => .ok words

/-- `tor_inet_pton` for `AF_INET6`. -/
def torInetPton (src : Text) : Except PtonFault (Option (Vector UInt8 16)) :=
  if src.length > 2 ∧ src.getLast? = some ':' ∧ src.dropLast.getLast? ≠ some ':' then .ok none
  else if src.head? = some '.' then .ok none
  else
    match splitDotted src with
    | none => .ok none
    | some (front, dotted) => do
      let words ← firstWords dotted
      match ← ptonLoop (src.length - front.length) ⟨words, 0, none, dotted.length⟩ src with
      | none => return none
      | some s =>
        if s.setWords > 8 ∨ (s.setWords = 8 ∧ s.gapPos ≠ none) ∨ (s.setWords < 8 ∧ s.gapPos = none) then return none
        let words ← closeGap (dotted ≠ []) s
        return some (wordsToBytes words.toList)

/-! ## Words before a dotted address -/

/-- The prefix that `strtol` passes over. -/
def HexPrefix (s : Text) : Prop := s.head? = some '0' ∧ (s[1]? = some 'x' ∨ s[1]? = some 'X') ∧ s[2]?.any isXDigit

instance (s : Text) : Decidable (HexPrefix s) := inferInstanceAs (Decidable (_ ∧ _ ∧ _))

def hexBody (s : Text) : Text := if HexPrefix s then s.drop 2 else s

theorem strtol16_eq (s : Text) : strtol16 s = (hexValue ((hexBody s).takeWhile isXDigit), (hexBody s).dropWhile isXDigit) := rfl

theorem HexPrefix.length {s : Text} (h : HexPrefix s) : 2 < s.length := by
  by_contra hlen
  have hthird := h.2.2
  rw [List.getElem?_eq_none (by omega)] at hthird
  cases hthird

theorem hexPrefix_append (front tail : Text) : HexPrefix (front ++ ':' :: tail) ↔ HexPrefix (front ++ [':']) := by
  have hcolon : isXDigit ':' = false := by decide
  rcases front with _ | ⟨a, _ | ⟨b, _ | ⟨c, front⟩⟩⟩
  · simp [HexPrefix]
  · simp [HexPrefix]
  · simp [HexPrefix, hcolon]
  · simp [HexPrefix]

/-- No number goes past a colon. -/
theorem hexBody_append {cur : Text} (h : cur.getLast? = some ':') (tail : Text) :
    hexBody (cur ++ tail) = hexBody cur ++ tail ∧ (hexBody cur).getLast? = some ':' := by
  obtain ⟨front, rfl⟩ := List.getLast?_eq_some_iff.mp h
  have hiff : HexPrefix (front ++ [':'] ++ tail) ↔ HexPrefix (front ++ [':']) := by
    rw [List.append_assoc]
    exact hexPrefix_append front tail
  unfold hexBody
  by_cases hprefix : HexPrefix (front ++ [':'])
  · have hlen := hprefix.length
    rw [if_pos hprefix, if_pos (hiff.mpr hprefix), List.drop_append_of_le_length (Nat.le_of_lt hlen), List.getLast?_drop,
      if_neg (Nat.not_le.mpr hlen)]
    exact ⟨rfl, h⟩
  · rw [if_neg hprefix, if_neg (fun h => hprefix (hiff.mp h))]
    exact ⟨rfl, h⟩

theorem takeWhile_colon (front more : Text) : (front ++ ':' :: more).takeWhile isXDigit = front.takeWhile isXDigit := by
  have hcolon : ¬ isXDigit ':' = true := by decide
  induction front with
  | nil => exact List.takeWhile_cons_of_neg hcolon
  | cons c front ih =>
    by_cases hc : isXDigit c = true
    · rw [List.cons_append, List.takeWhile_cons_of_pos hc, List.takeWhile_cons_of_pos hc, ih]
    · rw [List.cons_append, List.takeWhile_cons_of_neg hc, List.takeWhile_cons_of_neg hc]

theorem dropWhile_colon (front more : Text) :
    (front ++ ':' :: more).dropWhile isXDigit = front.dropWhile isXDigit ++ ':' :: more := by
  have hcolon : ¬ isXDigit ':' = true := by decide
  induction front with
  | nil => exact List.dropWhile_cons_of_neg hcolon
  | cons c front ih =>
    by_cases hc : isXDigit c = true
    · rw [List.cons_append, List.dropWhile_cons_of_pos hc, List.dropWhile_cons_of_pos hc, ih]
    · rw [List.cons_append, List.dropWhile_cons_of_neg hc, List.dropWhile_cons_of_neg hc, List.cons_append]

theorem strtol16_append {cur : Text} (h : cur.getLast? = some ':') (tail : Text) :
    strtol16 (cur ++ tail) = ((strtol16 cur).1, (strtol16 cur).2 ++ tail) ∧ (strtol16 cur).2.getLast? = some ':' := by
  obtain ⟨hbody, hlast⟩ := hexBody_append h tail
  obtain ⟨front, hfront⟩ := List.getLast?_eq_some_iff.mp hlast
  rw [strtol16_eq, strtol16_eq, hbody, hfront, List.append_assoc, List.singleton_append, takeWhile_colon, takeWhile_colon,
    dropWhile_colon, dropWhile_colon]
  exact ⟨by rw [List.append_assoc, List.singleton_append], List.getLast?_concat⟩

/-- What stands before `eow`: the whole text, or words each with its colon. -/
def UpToEow (cur tail : Text) : Prop := tail = [] ∨ cur = [] ∨ cur.getLast? = some ':'

/-- `strtol` reads the same with the dotted address behind, and does not come to it. -/
theorem UpToEow.strtol16 {c : Char} {cur tail : Text} (h : UpToEow (c :: cur) tail) :
    strtol16 (c :: cur ++ tail) = ((strtol16 (c :: cur)).1, (strtol16 (c :: cur)).2 ++ tail) ∧
      (tail = [] ∨ (strtol16 (c :: cur)).2.getLast? = some ':') := by
  rcases h with rfl | h | h
  · simp
  · cases h
  · exact ⟨(strtol16_append h tail).1, .inr (strtol16_append h tail).2⟩

theorem UpToEow.tail {c : Char} {cur tail : Text} (h : UpToEow (c :: cur) tail) : UpToEow cur tail := by
  rcases h with rfl | h | h
  · exact .inl rfl
  · cases h
  · cases cur with
    | nil => exact .inr (.inl rfl)
    | cons d cur => exact .inr (.inr (by rwa [List.getLast?_cons_cons] at h))

theorem xdigitValue_lt {c : Char} (h : isXDigit c = true) : xdigitValue c < 16 := by
  simp only [isXDigit, Char.isDigit, Bool.and_eq_true, decide_eq_true_eq, ge_iff_le, Char.le_def, UInt32.le_iff_toNat_le] at h
  simp only [xdigitValue, Char.isDigit, Char.toNat, Bool.and_eq_true, decide_eq_true_eq, ge_iff_le, Char.le_def,
    UInt32.le_iff_toNat_le]
  simp only [Char.reduceVal, UInt32.reduceToNat] at h ⊢
  split
  · omega
  split
  · omega
  · omega

theorem hexValue_lt {digits : Text} (h : ∀ c ∈ digits, isXDigit c = true) : hexValue digits < 16 ^ digits.length := by
  have hfold : ∀ v, digits.foldl (fun v c => 16 * v + xdigitValue c) v < (v + 1) * 16 ^ digits.length := by
    induction digits with
    | nil => intro v; simp
    | cons c digits ih =>
      intro v
      have hc := xdigitValue_lt (h c List.mem_cons_self)
      refine Nat.lt_of_lt_of_le (ih (fun d hd => h d (List.mem_cons_of_mem _ hd)) _) ?_
      rw [List.length_cons, Nat.pow_succ', ← Nat.mul_assoc]
      exact Nat.mul_le_mul_right _ (by simp only; omega)
  simpa [hexValue] using hfold 0

/-- A word of at most four characters, none of them of a prefix, fits in 16 bits. -/
theorem strtol16_lt {c : Char} {rest : Text} (hlen : ¬ (c :: rest).length - (strtol16 (c :: rest)).2.length > 4)
    (hsecond : ¬ ((c :: rest).length - (strtol16 (c :: rest)).2.length > 1 ∧ ¬ rest.head?.any isXDigit = true)) :
    (strtol16 (c :: rest)).1 < 65536 := by
  have hsplit := congrArg List.length (List.takeWhile_append_dropWhile (p := isXDigit) (l := hexBody (c :: rest)))
  rw [List.length_append] at hsplit
  rw [strtol16_eq] at hlen hsecond ⊢
  by_cases hprefix : HexPrefix (c :: rest)
  · have hlong := hprefix.length
    have hbody : (hexBody (c :: rest)).length = (c :: rest).length - 2 := by
      rw [hexBody, if_pos hprefix, List.length_drop]
    refine absurd ⟨by simp only; omega, ?_⟩ hsecond
    have hx := hprefix.2.1
    rw [List.getElem?_cons_succ, ← List.head?_eq_getElem?] at hx
    have hbad : isXDigit 'x' = false ∧ isXDigit 'X' = false := by decide
    rcases hx with hx | hx
    · simp [hx, hbad.1]
    · simp [hx, hbad.2]
  · have hbody : hexBody (c :: rest) = c :: rest := if_neg hprefix
    rw [hbody] at hlen hsplit ⊢
    have hdigits : ((c :: rest).takeWhile isXDigit).length ≤ 4 := by
      simp only at hlen
      omega
    have hall : ∀ d ∈ (c :: rest).takeWhile isXDigit, isXDigit d = true := fun d hd => List.all_eq_true.mp List.all_takeWhile d hd
    exact Nat.lt_of_lt_of_le (hexValue_lt hall) (Nat.pow_le_pow_right (by decide) hdigits)

/-! ## The array holds the list of words -/

structure Holds (dotted : List Nat) (p : PtonState) (s : Words) : Prop where
  i : p.i = s.words.length
  room : p.i ≤ 8
  words : p.words.toList.take p.i = s.words
  gapPos : p.gapPos = s.gapPos
  gap_le : ∀ g ∈ s.gapPos, g ≤ p.i
  setWords : p.setWords = s.words.length + dotted.length
  dotted : dotted ≠ [] → p.i ≤ 6 → p.words.toList.drop 6 = dotted

variable {dotted : List Nat} {p : PtonState} {s : Words}

theorem setWord_of_lt {words : WordArray} {i w : Nat} (h : i < 8) :
    ∃ words', setWord words i w = .ok words' ∧ words'.toList = words.toList.set i w :=
  ⟨words.set i w, dif_pos h, Vector.toList_set ..⟩

/-- `words[i++] = r`, after which no earlier word and, with room left for it, no dotted address has changed. -/
theorem Holds.word (h : Holds dotted p s) (hroom : p.i < 8) (r : Nat) :
    ∃ words, setWord p.words p.i r = .ok words ∧
      Holds dotted { p with words := words, i := p.i + 1, setWords := p.setWords + 1 } { s with words := s.words ++ [r] } := by
  obtain ⟨words, hset, hlist⟩ := @setWord_of_lt p.words p.i r hroom
  refine ⟨words, hset, ?_, hroom, ?_, h.gapPos, fun g hg => Nat.le_succ_of_le (h.gap_le g hg), ?_, ?_⟩
  · simp [h.i]
  · have hlen : p.i < p.words.toList.length := by simpa using hroom
    rw [hlist, List.take_add_one, List.take_set_of_le (Nat.le_refl _), h.words, List.getElem?_set_self hlen]
    rfl
  · simp only [h.setWords, List.length_append, List.length_singleton]
    omega
  · intro hne hle
    simp only at hle
    rw [hlist, List.drop_set_of_lt (by omega)]
    exact h.dotted hne (by omega)

theorem ptonLoop_done (tail : Text) : ptonLoop tail.length p tail = .ok (some p) := by
  rw [ptonLoop.eq_def, if_pos (Nat.le_refl _)]

theorem not_le_tail (c : Char) (rest tail : Text) : ¬ (c :: rest ++ tail).length ≤ tail.length := by
  rw [List.length_append, List.length_cons]
  omega

theorem ptonLoop_full {c : Char} (rest tail : Text) (h : p.i > 7) : ptonLoop tail.length p (c :: rest ++ tail) = .ok none := by
  rw [ptonLoop.eq_def, if_neg (not_le_tail c rest tail), if_pos h]

/-- A turn over a word: it is refused, or it is set and the loop goes on behind what follows it. -/
theorem ptonLoop_word {c : Char} {rest tail : Text} (hroom : ¬ p.i > 7) (hc : isXDigit c = true) (hcur : UpToEow (c :: rest) tail)
    {words : WordArray} (hset : setWord p.words p.i (strtol16 (c :: rest)).1 = .ok words) :
    ptonLoop tail.length p (c :: rest ++ tail) =
      if (c :: rest).length - (strtol16 (c :: rest)).2.length > 4 ∨
        ((c :: rest).length - (strtol16 (c :: rest)).2.length > 1 ∧ ¬ rest.head?.any isXDigit = true) then .ok none
      else if ((strtol16 (c :: rest)).2 ++ tail).head? ≠ some ':' ∧ ((strtol16 (c :: rest)).2 ++ tail).length ≠ tail.length then .ok none
      else ptonLoop tail.length { p with words := words, i := p.i + 1, setWords := p.setWords + 1 } ((strtol16 (c :: rest)).2 ++ tail).tail := by
  obtain ⟨hstrtol, htail⟩ := hcur.strtol16
  have hhead : (rest ++ tail).head? = rest.head? := by
    rcases hcur with rfl | h | h
    · rw [List.append_nil]
    · cases h
    · have hrest : rest ≠ [] := by
        rintro rfl
        cases h
        cases hc
      exact List.head?_append_of_ne_nil _ hrest
  have hlen : (if (strtol16 (c :: rest)).2 ++ tail = [] then (c :: rest ++ tail).length - tail.length
      else (c :: rest ++ tail).length - ((strtol16 (c :: rest)).2 ++ tail).length) =
      (c :: rest).length - (strtol16 (c :: rest)).2.length := by
    split
    next hnil => rw [List.append_eq_nil_iff] at hnil; simp [hnil]
    · simp only [List.length_append, List.length_cons]
      omega
  rw [ptonLoop.eq_def, if_neg (not_le_tail c rest tail), if_neg hroom]
  rw [List.cons_append] at hstrtol hlen ⊢
  simp only [hc, dif_pos, hstrtol, hlen, hhead, hset]
  by_cases hlong : (c :: rest).length - (strtol16 (c :: rest)).2.length > 4
  · rw [if_pos hlong, if_pos (.inl hlong)]
  by_cases hsecond : (c :: rest).length - (strtol16 (c :: rest)).2.length > 1 ∧ ¬ rest.head?.any isXDigit = true
  · rw [if_neg hlong, if_pos hsecond, if_pos (.inr hsecond)]
  · rw [if_neg hlong, if_neg hsecond, if_neg (not_not_intro (strtol16_lt hlong hsecond)), if_neg (not_or.mpr ⟨hlong, hsecond⟩)]

/-- A turn over anything else, which only a gap may be. -/
theorem ptonLoop_gap {c : Char} {rest tail : Text} (hroom : ¬ p.i > 7) (hc : ¬ isXDigit c = true) :
    ptonLoop tail.length p (c :: rest ++ tail) =
      if c = ':' ∧ p.i > 0 ∧ p.gapPos = none then ptonLoop tail.length { p with gapPos := some p.i } (rest ++ tail)
      else if c = ':' ∧ p.i = 0 ∧ rest.head? = some ':' ∧ p.gapPos = none then
        ptonLoop tail.length { p with gapPos := some p.i } (rest.tail ++ tail)
      else .ok none := by
  rw [ptonLoop.eq_def, if_neg (not_le_tail c rest tail), if_neg hroom, List.cons_append]
  simp only [hc, dif_neg, Bool.false_eq_true, not_false_eq_true]
  by_cases hgap : c = ':' ∧ p.i > 0 ∧ p.gapPos = none
  · rw [if_pos hgap, if_pos hgap]
  rw [if_neg hgap, if_neg hgap]
  by_cases hfirst : c = ':' ∧ p.i = 0 ∧ rest.head? = some ':' ∧ p.gapPos = none
  · obtain ⟨hcolon, hi, hhead, hnone⟩ := hfirst
    obtain ⟨d, rest, rfl⟩ := List.exists_cons_of_ne_nil (l := rest) fun hnil => by simp [hnil] at hhead
    have hlong : tail.length + 1 < (c :: (d :: rest ++ tail)).length := by
      simp only [List.length_cons, List.length_append]
      omega
    rw [if_pos ⟨hcolon, hi, hlong, hhead, hnone⟩, if_pos ⟨hcolon, hi, hhead, hnone⟩]
    rfl
  · rw [if_neg hfirst, if_neg]
    rintro ⟨hcolon, hi, hlong, hhead, hnone⟩
    have hne : rest ≠ [] := fun hnil => by simp [hnil] at hlong
    exact hfirst ⟨hcolon, hi, by rwa [List.head?_append_of_ne_nil _ hne] at hhead, hnone⟩

theorem Holds.gap (h : Holds dotted p s) : Holds dotted { p with gapPos := some p.i } { s with gapPos := some s.words.length } where
  i := h.i
  room := h.room
  words := h.words
  gapPos := by rw [h.i]
  gap_le := fun g hg => by cases hg; exact Nat.le_of_eq h.i.symm
  setWords := h.setWords
  dotted := h.dotted

/-- The loop over the array does what the loop over the list of words does. -/
theorem ptonLoop_rel (tail : Text) (s : Words) (cur : Text) : ∀ p, Holds dotted p s → UpToEow cur tail →
    ∃ r, ptonLoop tail.length p (cur ++ tail) = .ok r ∧ Option.Rel (Holds dotted) r (readWords s cur) := by
  fun_induction readWords s cur with
  | case1 s =>
    intro p h _
    exact ⟨some p, ptonLoop_done tail, .some h⟩
  | case2 s c rest hfull =>
    intro p h _
    exact ⟨none, ptonLoop_full rest tail (h.i ▸ hfull), .none⟩
  | case3 s c rest hfull hc len hbad =>
    intro p h hcur
    have hroom : ¬ p.i > 7 := h.i ▸ hfull
    obtain ⟨words, hset, -⟩ := h.word (by omega) (strtol16 (c :: rest)).1
    exact ⟨none, by rw [ptonLoop_word hroom hc hcur hset, if_pos hbad], .none⟩
  | case4 s c rest hfull hc r len hgood hnil =>
    intro p h hcur
    have hroom : ¬ p.i > 7 := h.i ▸ hfull
    obtain ⟨words, hset, hholds⟩ := h.word (by omega) (strtol16 (c :: rest)).1
    have htail : tail = [] := hcur.strtol16.2.resolve_right fun hlast => by rw [hnil] at hlast; cases hlast
    refine ⟨_, ?_, .some hholds⟩
    rw [ptonLoop_word hroom hc hcur hset, if_neg hgood, hnil, htail]
    exact ptonLoop_done []
  | case5 s c rest hfull hc len hgood d next hcons hd =>
    intro p h hcur
    have hroom : ¬ p.i > 7 := h.i ▸ hfull
    obtain ⟨words, hset, -⟩ := h.word (by omega) (strtol16 (c :: rest)).1
    refine ⟨none, ?_, .none⟩
    rw [ptonLoop_word hroom hc hcur hset, if_neg hgood, hcons, if_pos]
    refine ⟨by simpa using hd, ?_⟩
    have := not_le_tail d next tail
    omega
  | case6 s c rest hfull hc r len hgood d next hcons hd ih =>
    intro p h hcur
    have hroom : ¬ p.i > 7 := h.i ▸ hfull
    obtain ⟨words, hset, hholds⟩ := h.word (by omega) (strtol16 (c :: rest)).1
    have hnext : UpToEow next tail := UpToEow.tail (c := d) (hcons ▸ hcur.strtol16.2.imp_right .inr)
    obtain ⟨out, hout, hrel⟩ := ih _ hholds hnext
    refine ⟨out, ?_, hrel⟩
    rw [ptonLoop_word hroom hc hcur hset, if_neg hgood, hcons, if_neg]
    · exact hout
    · rintro ⟨hhead, -⟩
      exact hhead (by simpa using hd)
  | case7 s c rest hfull hc hgap ih =>
    intro p h hcur
    have hroom : ¬ p.i > 7 := h.i ▸ hfull
    obtain ⟨out, hout, hrel⟩ := ih _ h.gap hcur.tail
    exact ⟨out, by rw [ptonLoop_gap hroom hc, if_pos (by rwa [h.i, h.gapPos])]; exact hout, hrel⟩
  | case8 s c rest hfull hc hgap hfirst ih =>
    intro p h hcur
    have hroom : ¬ p.i > 7 := h.i ▸ hfull
    obtain ⟨d, rest, rfl⟩ := List.exists_cons_of_ne_nil (l := rest) fun hnil => by simp [hnil] at hfirst
    obtain ⟨out, hout, hrel⟩ := ih _ h.gap hcur.tail.tail
    refine ⟨out, ?_, hrel⟩
    rw [ptonLoop_gap hroom hc, if_neg (by rwa [h.i, h.gapPos]), if_pos (by rwa [h.i, h.gapPos])]
    exact hout
  | case9 s c rest hfull hc hgap hfirst =>
    intro p h hcur
    have hroom : ¬ p.i > 7 := h.i ▸ hfull
    exact ⟨none, by rw [ptonLoop_gap hroom hc, if_neg (by rwa [h.i, h.gapPos]), if_neg (by rwa [h.i, h.gapPos])], .none⟩

/-! ## The gap -/

theorem scanDotted_some {str : Text} (h : scanDotted str = some dotted) : ∃ high low, dotted = [high, low] := by
  unfold scanDotted at h
  simp only [Option.bind_eq_bind, Option.bind_eq_some_iff] at h
  obtain ⟨_, _, _, _, _, _, _, _, _, _, _, _, _, _, h⟩ := h
  split at h
  · cases h
  split at h
  · cases h
  · cases h
    exact ⟨_, _, rfl⟩

theorem splitDotted_some {src front : Text} (h : splitDotted src = some (front, dotted)) :
    (∃ tail, src = front ++ tail ∧ UpToEow front tail) ∧ (dotted = [] ∨ ∃ high low, dotted = [high, low]) := by
  unfold splitDotted at h
  simp only at h
  split at h
  · cases h
    exact ⟨⟨[], by simp, .inl rfl⟩, .inl rfl⟩
  split at h
  · cases h
  next hcolon =>
    obtain ⟨scanned, hscan, hpair⟩ := Option.map_eq_some_iff.mp h
    cases hpair
    have hprefix : ((src.takeWhile (· ≠ '.')).reverse.dropWhile Char.isDigit).reverse <+: src := by
      have hsuffix := List.reverse_prefix.mpr (List.dropWhile_suffix (l := (src.takeWhile (· ≠ '.')).reverse) Char.isDigit)
      rw [List.reverse_reverse] at hsuffix
      exact hsuffix.trans (List.takeWhile_prefix _)
    obtain ⟨tail, htail⟩ := hprefix
    exact ⟨⟨tail, htail.symm, .inr (.inr (not_not.mp hcolon))⟩, .inr (scanDotted_some hscan)⟩

theorem firstWords_holds (h : dotted = [] ∨ ∃ high low, dotted = [high, low]) :
    ∃ words, firstWords dotted = .ok words ∧ Holds dotted ⟨words, 0, none, dotted.length⟩ ⟨[], none⟩ := by
  rcases h with rfl | ⟨high, low, rfl⟩
  · exact ⟨_, rfl, rfl, by decide, rfl, rfl, nofun, rfl, fun h => absurd rfl h⟩
  · exact ⟨_, rfl, rfl, Nat.zero_le 8, rfl, rfl, nofun, rfl, fun _ _ => rfl⟩

/-- Where the loop ends with eight words or with a gap, the words of the dotted address are in place. -/
theorem Holds.tail (h : Holds dotted p s) (hdotted : dotted = [] ∨ ∃ high low, dotted = [high, low])
    (hroom : p.i + dotted.length ≤ 8) : p.words.toList.drop (8 - dotted.length) = dotted := by
  rcases hdotted with hnil | ⟨high, low, hpair⟩
  · rw [hnil]
    exact List.drop_eq_nil_of_le (by simp)
  · have hlen : dotted.length = 2 := by rw [hpair]; rfl
    rw [hlen]
    exact h.dotted (by rw [hpair]; exact List.cons_ne_nil _ _) (by omega)

theorem getElem?_fourParts (u v x y : List Nat) (k : Nat) : (u ++ v ++ x ++ y)[k]? =
    if k < u.length then u[k]?
    else if k < u.length + v.length then v[k - u.length]?
    else if k < u.length + v.length + x.length then x[k - (u.length + v.length)]?
    else y[k - (u.length + v.length + x.length)]? := by
  by_cases hu : k < u.length
  · rw [if_pos hu, List.append_assoc, List.append_assoc, List.getElem?_append_left hu]
  rw [if_neg hu]
  by_cases hv : k < u.length + v.length
  · rw [if_pos hv, List.append_assoc, List.getElem?_append_left (by rwa [List.length_append]),
      List.getElem?_append_right (by omega)]
  rw [if_neg hv]
  by_cases hx : k < u.length + v.length + x.length
  · rw [if_pos hx, List.getElem?_append_left (by rwa [List.length_append, List.length_append]),
      List.getElem?_append_right (by rw [List.length_append]; omega), List.length_append]
  · rw [if_neg hx, List.getElem?_append_right (by rw [List.length_append, List.length_append]; omega), List.length_append,
      List.length_append]

/-- The moved words are those of the list with its gap filled. -/
theorem Holds.closeGap (h : Holds dotted p s) (hdotted : dotted = [] ∨ ∃ high low, dotted = [high, low])
    (hcomplete : ¬ (p.setWords > 8 ∨ (p.setWords = 8 ∧ p.gapPos ≠ none) ∨ (p.setWords < 8 ∧ p.gapPos = none))) :
    ∃ words, closeGap (dotted ≠ []) p = .ok words ∧ words.toList = fillGap s dotted := by
  have hi := h.i
  have hset := h.setWords
  have htail := h.tail hdotted (by omega)
  cases hgap : p.gapPos with
  | none =>
    have hfull : p.setWords = 8 := by simp [hgap] at hcomplete; omega
    refine ⟨p.words, by simp only [Net.closeGap, hgap], ?_⟩
    rw [fillGap, show s.gapPos = none from h.gapPos ▸ hgap]
    simp only
    have hsame : p.i = 8 - dotted.length := by omega
    rw [← List.take_append_drop p.i p.words.toList, h.words, hsame, htail]
  | some g =>
    have hshort : p.setWords < 8 := by simp [hgap] at hcomplete; omega
    have hle : g ≤ p.i := h.gap_le g (h.gapPos ▸ hgap)
    have hdots : (if dotted ≠ [] then 2 else 0 : Int) = dotted.length := by
      rcases hdotted with rfl | ⟨high, low, rfl⟩ <;> rfl
    have hgapLen : g + (8 - p.setWords) + (p.i - g) + dotted.length = 8 := by omega
    have hmove : (p.setWords : Int) - (if dotted ≠ [] then 2 else 0) - g = ((p.i - g : Nat) : Int) := by
      rw [hdots]
      omega
    obtain ⟨n, hn⟩ : ∃ n, p.i - g = n := ⟨_, rfl⟩
    obtain ⟨gapLen, hg⟩ : ∃ gapLen, 8 - p.setWords = gapLen := ⟨_, rfl⟩
    rw [hn] at hmove
    rw [hn, hg] at hgapLen
    simp only [Net.closeGap, hgap, hg, hmove, decide_eq_true_eq]
    rw [if_neg (by omega), memmoveWords, if_pos (by rw [Int.toNat_natCast]; omega)]
    refine ⟨_, if_pos (by omega), ?_⟩
    have hcount : 8 - (s.words ++ dotted).length = gapLen := by rw [List.length_append, ← hset, hg]
    have hwords : ∀ k < p.i, p.words.toList[k]? = s.words[k]? := fun k hk => by
      rw [← h.words, List.getElem?_take_of_lt hk]
    rw [fillGap, show s.gapPos = some g from h.gapPos ▸ hgap]
    simp only [hcount]
    refine List.ext_getElem (by simp; omega) fun k hk hk' => ?_
    have hk8 : k < 8 := by simpa using hk
    refine Option.some.inj ?_
    rw [← List.getElem?_eq_getElem hk']
    simp only [Vector.getElem_toList, Vector.getElem_ofFn, Fin.getElem_fin, Int.toNat_natCast]
    have hbefore : (s.words.take g).length = g := List.length_take_of_le (by omega)
    have hmoved : (s.words.drop g).length = n := by rw [List.length_drop]; omega
    rw [getElem?_fourParts, hbefore, List.length_replicate, hmoved]
    by_cases hfirst : k < g
    · rw [if_neg (by omega), if_neg (by omega), if_pos hfirst, List.getElem?_take_of_lt hfirst, ← hwords k (by omega)]
      simp [hk8]
    rw [if_neg hfirst]
    by_cases hzeros : k < g + gapLen
    · rw [if_pos (by omega), if_pos hzeros, List.getElem?_replicate_of_lt (by omega)]
    rw [if_neg hzeros]
    by_cases hbehind : k < g + gapLen + n
    · have hsome : g + (k - (g + gapLen)) < 8 := by omega
      rw [if_neg (by omega), if_pos (by omega), if_pos hbehind, List.getElem?_drop, ← hwords _ (by omega),
        Vector.getElem?_toList, Vector.getElem?_eq_getElem hsome]
      rfl
    · have hidx : 8 - dotted.length + (k - (g + gapLen + n)) = k := by omega
      rw [if_neg (by omega), if_neg (by omega), if_neg hbehind, ← htail, List.getElem?_drop, hidx, Vector.getElem?_toList,
        Vector.getElem?_eq_getElem hk8]

/-- No text leads to a fault, and the array gives the address that the list of words gives. -/
theorem torInetPton_eq (src : Text) : torInetPton src = .ok (torInetPton6 src) := by
  unfold torInetPton torInetPton6
  split
  · rfl
  split
  · rfl
  cases hsplit : splitDotted src with
  | none => rfl
  | some pair =>
    obtain ⟨front, dotted⟩ := pair
    obtain ⟨⟨tail, rfl, hcur⟩, hdotted⟩ := splitDotted_some hsplit
    obtain ⟨words, hwords, hholds⟩ := firstWords_holds hdotted
    obtain ⟨r, hloop, hrel⟩ := ptonLoop_rel tail ⟨[], none⟩ front _ hholds hcur
    have hbehind : (front ++ tail).length - front.length = tail.length := by simp
    have hok : ∀ {α β : Type} (x : α) (f : α → Except PtonFault β), ((.ok x : Except PtonFault α) >>= f) = f x := fun _ _ => rfl
    simp only [hwords, hbehind, hok, hloop, Option.bind_eq_bind, Option.bind_some]
    revert hrel
    cases readWords ⟨[], none⟩ front with
    | none =>
      intro hrel
      cases hrel
      rfl
    | some s =>
      intro hrel
      cases hrel with | some hfinal =>
      next p =>
      have hset : p.setWords = (s.words ++ dotted).length := by rw [List.length_append, hfinal.setWords]
      simp only [Option.bind_some, ← hfinal.gapPos, ← hset]
      split
      · rfl
      next hcomplete =>
        obtain ⟨words', hclose, hlist⟩ := hfinal.closeGap hdotted hcomplete
        rw [hclose, hok, hlist]
        rfl

end Badnet.Net

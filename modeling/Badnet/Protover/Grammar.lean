/-
  Badnet.Protover.Grammar — the lists of versions that the readers in C and in Rust take.

  `entries` reads a list in which numbers may have a plus sign, entries may be apart by several blanks and ranges may
  overlap. The reader in C takes of these texts the ones without a plus sign (`C.parseProtocolList_eq`), the one in Rust
  those with single blanks in which every entry lists its versions once and not version 0; of two entries with one name
  the first counts in C and the last in Rust.
-/

import Badnet.Lib.Run
import Badnet.Protover.Protoset

namespace Badnet.Protover

open Lib Encoding

/-! ## The grammar -/

/-- Digits, perhaps after a plus sign, at most 63. -/
def number (p : Text) : Option Nat :=
  let digits := if p.head? = some '+' then p.tail else p
  if digits ≠ [] ∧ digits.all Char.isDigit ∧ Nat.ofDigitChars 10 digits 0 ≤ MAX_PROTOCOL_VERSION then
    some (Nat.ofDigitChars 10 digits 0)
  else none

/-- A number, or two with a dash between them. -/
def bounds (p : Text) : Option (Nat × Nat) :=
  if '-' ∈ p then do
    let lo ← number (p.takeWhile (· ≠ '-'))
    let hi ← number (p.dropWhile (· ≠ '-')).tail
    pure (lo, hi)
  else (number p).map fun v => (v, v)

def range (p : Text) : Option (Nat × Nat) := (bounds p).filter fun r => r.1 ≤ r.2

def ranges (v : Text) : Option (List (Nat × Nat)) := if v = [] then some [] else (v.splitOn ',').mapM range

def isName (n : Text) : Bool :=
  n ≠ [] ∧ n.length ≤ MAX_PROTOCOL_NAME_LENGTH ∧ n.all fun c => c.isAlphanum ∨ c = '-'

structure Entry where
  name : Text
  ranges : List (Nat × Nat)
  deriving DecidableEq, Repr

def entry (p : Text) : Option Entry :=
  if '=' ∈ p ∧ isName (p.takeWhile (· ≠ '=')) then
    (ranges (p.dropWhile (· ≠ '=')).tail).map fun rs => ⟨p.takeWhile (· ≠ '='), rs⟩
  else none

variable (s : Text)

/-- The pieces between blanks, without empty ones after the first. -/
def words : List Text := (s.splitOn ' ').take 1 ++ ((s.splitOn ' ').drop 1).filter (· ≠ [])

def entries : Option (List Entry) := if s = [] then some [] else (words s).mapM entry

/-- The entry lists the version. -/
def Entry.lists (e : Entry) (v : Nat) : Bool := e.ranges.any fun r => r.1 ≤ v ∧ v ≤ r.2

variable {p t : Text}

theorem takeWhile_sep {sep : Char} (h : sep ∉ p) : (p ++ sep :: t).takeWhile (· ≠ sep) = p := by
  apply takeWhile_run
  · intro x hx
    exact decide_eq_true fun e => h (e ▸ hx)
  · intro y hy
    cases hy
    simp

theorem dropWhile_sep {sep : Char} (h : sep ∉ p) : (p ++ sep :: t).dropWhile (· ≠ sep) = sep :: t := by
  apply dropWhile_run
  · intro x hx
    exact decide_eq_true fun e => h (e ▸ hx)
  · intro y hy
    cases hy
    simp

/-! ## Bounds -/

theorem mapM_range {l : List Text} {rs : List (Nat × Nat)} :
    l.mapM range = some rs ↔ l.mapM bounds = some rs ∧ ∀ r ∈ rs, r.1 ≤ r.2 := by
  induction l generalizing rs with
  | nil =>
    constructor
    · intro h
      cases h
      exact ⟨rfl, by simp⟩
    · rintro ⟨h, -⟩
      exact h
  | cons p l ih =>
    simp only [mapM_cons_eq, Option.bind_eq_some_iff, Option.map_eq_some_iff, ih, range, Option.filter_eq_some_iff,
      decide_eq_true_eq]
    constructor
    · rintro ⟨r, ⟨hr, hle⟩, rs', ⟨hrs, hall⟩, rfl⟩
      exact ⟨⟨r, hr, rs', hrs, rfl⟩, List.forall_mem_cons.mpr ⟨hle, hall⟩⟩
    · rintro ⟨⟨r, hr, rs', hrs, rfl⟩, hall⟩
      obtain ⟨hle, hall⟩ := List.forall_mem_cons.mp hall
      exact ⟨r, ⟨hr, hle⟩, rs', ⟨hrs, hall⟩, rfl⟩

theorem bounds_le {r : Nat × Nat} (h : bounds p = some r) :
    r.1 ≤ MAX_PROTOCOL_VERSION ∧ r.2 ≤ MAX_PROTOCOL_VERSION := by
  have hnum : ∀ {q : Text} {v : Nat}, number q = some v → v ≤ MAX_PROTOCOL_VERSION := by
    intro q v hv
    unfold number at hv
    simp only at hv
    generalize (if q.head? = some '+' then q.tail else q) = digits at hv
    split at hv
    · rename_i h
      cases hv
      exact h.2.2
    · cases hv
  unfold bounds at h
  split at h
  · cases hlo : number (p.takeWhile (· ≠ '-')) with
    | none =>
      rw [hlo] at h
      cases h
    | some lo =>
      cases hhi : number (p.dropWhile (· ≠ '-')).tail with
      | none =>
        rw [hlo, hhi] at h
        cases h
      | some hi =>
        rw [hlo, hhi] at h
        cases h
        exact ⟨hnum hlo, hnum hhi⟩
  · obtain ⟨v, hv, rfl⟩ := Option.map_eq_some_iff.mp h
    exact ⟨hnum hv, hnum hv⟩

theorem entry_bounds {e : Entry} (h : entry p = some e) :
    ∀ r ∈ e.ranges, r.1 ≤ r.2 ∧ r.2 ≤ MAX_PROTOCOL_VERSION := by
  unfold entry at h
  split at h
  · obtain ⟨rs, hrs, rfl⟩ := Option.map_eq_some_iff.mp h
    intro r hr
    unfold ranges at hrs
    split at hrs
    · cases hrs
      cases hr
    · obtain ⟨hb, hle⟩ := mapM_range.mp hrs
      obtain ⟨q, -, hq⟩ := mem_mapM hb r hr
      exact ⟨hle r hr, (bounds_le hq).2⟩
  · cases h

theorem entries_bounds {s : Text} {es : List Entry} (h : entries s = some es) :
    ∀ e ∈ es, ∀ r ∈ e.ranges, r.1 ≤ r.2 ∧ r.2 ≤ MAX_PROTOCOL_VERSION := by
  unfold entries at h
  split at h
  · cases h
    simp
  · intro e he
    obtain ⟨p, -, hp⟩ := mem_mapM h e he
    exact entry_bounds hp

/-! ## A number and a range in C -/

theorem number_of_noPlus (h : '+' ∉ p) :
    number p = if p ≠ [] ∧ p.all Char.isDigit ∧ Nat.ofDigitChars 10 p 0 ≤ MAX_PROTOCOL_VERSION then some (Nat.ofDigitChars 10 p 0)
      else none := by
  have hhead : p.head? ≠ some '+' := fun e => h (List.mem_of_mem_head? e)
  simp only [number, if_neg hhead]

theorem number_digits (hne : p ≠ []) (h : p.all Char.isDigit = true) :
    number p = if Nat.ofDigitChars 10 p 0 ≤ MAX_PROTOCOL_VERSION then some (Nat.ofDigitChars 10 p 0) else none := by
  have hplus : '+' ∉ p := fun hm => absurd (List.all_eq_true.mp h _ hm) (by decide)
  simp only [number_of_noPlus hplus, ne_eq, hne, not_false_eq_true, h, true_and]

theorem number_eq_none_of_not_digits (hplus : '+' ∉ p) (h : ¬ (p ≠ [] ∧ p.all Char.isDigit = true)) :
    number p = none := by
  rw [number_of_noPlus hplus, if_neg]
  rintro ⟨h1, h2, -⟩
  exact h ⟨h1, h2⟩

/-- A text that does not start with a digit or a plus sign is no number. -/
theorem bounds_eq_none_of_head (hplus : '+' ∉ p) (h : ∀ c ∈ p.head?, c.isDigit = false) : bounds p = none := by
  have hnum : ∀ q : Text, '+' ∉ q → (∀ c ∈ q.head?, c.isDigit = false) → number q = none := by
    intro q hq hhead
    refine number_eq_none_of_not_digits hq fun ⟨hne, hall⟩ => ?_
    obtain ⟨c, t, rfl⟩ := List.exists_cons_of_ne_nil hne
    have := List.all_eq_true.mp hall c List.mem_cons_self
    rw [hhead c rfl] at this
    cases this
  unfold bounds
  split
  · rw [hnum (p.takeWhile (· ≠ '-')) (fun hm => hplus ((List.takeWhile_subset _) hm))]
    · rfl
    · intro c hc
      cases p with
      | nil => cases hc
      | cons a t =>
        by_cases ha : a = '-'
        · rw [List.takeWhile_cons_of_neg (by simp [ha])] at hc
          cases hc
        · rw [List.takeWhile_cons_of_pos (by simp [ha])] at hc
          exact h c hc
  · rw [hnum p hplus h]
    rfl

/-- Nor is one with another character than digits and the dash. -/
theorem bounds_eq_none_of_other {d : Text} {c : Char} (hd : d.all Char.isDigit = true) (hc : c.isDigit = false)
    (hdash : c ≠ '-') (hplus : '+' ∉ d ++ c :: t) : bounds (d ++ c :: t) = none := by
  have hnot : ∀ u : Text, ¬ (d ++ c :: u ≠ [] ∧ (d ++ c :: u).all Char.isDigit = true) := by
    rintro u ⟨-, hall⟩
    have := List.all_eq_true.mp hall c (by simp)
    rw [hc] at this
    cases this
  unfold bounds
  split
  · have htake : (d ++ c :: t).takeWhile (· ≠ '-') = d ++ c :: t.takeWhile (· ≠ '-') := by
      have hrun : ∀ x ∈ d ++ [c], (decide (x ≠ '-')) = true := by
        intro x hx
        rcases List.mem_append.mp hx with hx | hx
        · have hdig := List.all_eq_true.mp hd x hx
          exact decide_eq_true fun e => absurd hdig (by rw [e]; decide)
        · rw [List.mem_singleton.mp hx]
          exact decide_eq_true hdash
      rw [show d ++ c :: t = (d ++ [c]) ++ t by simp, List.takeWhile_append_of_pos hrun]
      simp
    rw [htake, number_eq_none_of_not_digits _ (hnot _)]
    · rfl
    · intro hm
      rw [← htake] at hm
      exact hplus (List.takeWhile_subset _ hm)
  · rw [number_eq_none_of_not_digits hplus (hnot t)]
    rfl

theorem bounds_dash {d : Text} (hd : d.all Char.isDigit = true) :
    bounds (d ++ '-' :: t) = (number d).bind fun lo => (number t).map fun hi => (lo, hi) := by
  have hdash : '-' ∉ d := fun hm => absurd (List.all_eq_true.mp hd _ hm) (by decide)
  unfold bounds
  rw [if_pos (by simp), takeWhile_sep hdash, dropWhile_sep hdash, List.tail_cons]
  cases number d with
  | none => rfl
  | some lo =>
    cases number t with
    | none => rfl
    | some hi => rfl

namespace C

variable {d t rest p : Text}

/-- The digits a text starts with, before something that is no digit. -/
theorem torParseUlongNext_run (hne : d ≠ []) (hd : d.all Char.isDigit = true)
    (ht : ∀ c ∈ t.head?, c.isDigit = false) :
    torParseUlongNext (d ++ t) 0 MAX_PROTOCOL_VERSION = (number d).map fun v => (v, t) := by
  have hrun := List.all_eq_true.mp hd
  have hhead : (d ++ t).head?.any Char.isDigit = true := by
    obtain ⟨c, u, rfl⟩ := List.exists_cons_of_ne_nil hne
    exact hrun c List.mem_cons_self
  rw [torParseUlongNext_digits hhead (by decide), takeWhile_run hrun ht, dropWhile_run hrun ht, number_digits hne hd]
  by_cases hv : Nat.ofDigitChars 10 d 0 ≤ MAX_PROTOCOL_VERSION
  · rw [if_pos hv, if_pos hv]
    rfl
  · rw [if_neg hv, if_neg hv]
    rfl

/-- A text is a run of digits and a rest that does not start with one. -/
theorem exists_digits (t : Text) :
    ∃ d u, t = d ++ u ∧ d.all Char.isDigit = true ∧ ∀ c ∈ u.head?, c.isDigit = false := by
  refine ⟨t.takeWhile Char.isDigit, t.dropWhile Char.isDigit, List.takeWhile_append_dropWhile.symm, List.all_takeWhile, ?_⟩
  intro c hc
  have := List.head?_dropWhile_not Char.isDigit t
  rw [hc] at this
  simpa using this

theorem notMem_of_digits (hd : d.all Char.isDigit = true) {c : Char} (hc : c.isDigit = false) : c ∉ d := by
  intro hm
  have := List.all_eq_true.mp hd c hm
  rw [hc] at this
  cases this

theorem head_append {u : Text} (hu : ∀ c ∈ u.head?, c.isDigit = false) (hrest : ∀ c ∈ rest.head?, c.isDigit = false) :
    ∀ c ∈ (u ++ rest).head?, c.isDigit = false := by
  cases u with
  | nil => exact hrest
  | cons c u => exact hu

theorem startsWithDigit (hne : d ≠ []) (hd : d.all Char.isDigit = true) :
    (d ++ rest).head?.any Char.isDigit = true := by
  obtain ⟨c, u, rfl⟩ := List.exists_cons_of_ne_nil hne
  exact List.all_eq_true.mp hd c List.mem_cons_self

theorem not_startsWithDigit (h : ∀ c ∈ t.head?, c.isDigit = false) : ¬ t.head?.any Char.isDigit = true := by
  cases hh : t.head? with
  | none => simp
  | some c => simp [h c hh]

/-- The second number of a range, up to the end of it. -/
theorem secondNumber (hrest : ∀ c ∈ rest.head?, c.isDigit = false) (s : Text)
    (endOfRange low : Nat) (hend : offset s rest = endOfRange)
    (hmore : ∀ u : Text, u ≠ [] → (∃ d, t = d ++ u) → offset s (u ++ rest) ≠ endOfRange) :
    (if ¬ (t ++ rest).head?.any Char.isDigit then none
      else
        match torParseUlongNext (t ++ rest) 0 MAX_PROTOCOL_VERSION with
        | none => none
        | some (high, next') =>
          if offset s next' ≠ endOfRange then none else if low > high then none else some (low, high)) =
      if '+' ∈ t then none else ((number t).map fun hi => (low, hi)).filter fun r => r.1 ≤ r.2 := by
  -- only a text of digits passes, and these have no plus sign
  have hnone : ¬ (t ≠ [] ∧ t.all Char.isDigit = true) →
      (if '+' ∈ t then none else ((number t).map fun hi => (low, hi)).filter fun r => r.1 ≤ r.2) = none := by
    intro hnot
    split
    · rfl
    · rename_i hplus
      rw [number_eq_none_of_not_digits (by simpa using hplus) hnot]
      rfl
  obtain ⟨d, u, rfl, hd, hhead⟩ := exists_digits t
  have hnext := head_append hhead hrest
  by_cases hne : d = []
  · subst hne
    rw [List.nil_append] at hnone ⊢
    rw [if_pos (not_startsWithDigit hnext), hnone]
    rintro ⟨hne, hall⟩
    exact not_startsWithDigit hhead (by simpa using @startsWithDigit u [] hne hall)
  · rw [List.append_assoc, if_neg (not_not_intro (startsWithDigit hne hd)), torParseUlongNext_run hne hd hnext]
    cases u with
    | nil =>
      rw [List.append_nil, if_neg (notMem_of_digits hd (by decide))]
      cases number d with
      | none => rfl
      | some high =>
        simp only [List.nil_append, Option.map_some, hend, ne_eq, not_true_eq_false, if_false]
        by_cases hle : low ≤ high
        · rw [if_neg (by omega), Option.filter_some, if_pos (by simpa using hle)]
        · rw [if_pos (by omega), Option.filter_some, if_neg (by simpa using hle)]
    | cons a u =>
      rw [hnone]
      · cases number d with
        | none => rfl
        | some high =>
          have hlater := hmore _ (List.cons_ne_nil a u) ⟨d, rfl⟩
          exact if_pos hlater
      · rintro ⟨-, hall⟩
        exact notMem_of_digits hall (hhead a rfl) (by simp)

section Range

variable {d rest t : Text}

/-- A range of one number. -/
theorem parseVersionRange_single (hrest : ∀ c ∈ rest.head?, c.isDigit = false) (hne : d ≠ [])
    (hd : d.all Char.isDigit = true) :
    parseVersionRange (d ++ rest) d.length = if '+' ∈ d then none else range d := by
  have hoff : offset (d ++ rest) rest = d.length := by
    simp only [offset, List.length_append]
    omega
  unfold parseVersionRange
  rw [if_neg (not_not_intro (startsWithDigit hne hd)), torParseUlongNext_run hne hd hrest,
    if_neg (notMem_of_digits hd (by decide)), range, bounds, if_neg (notMem_of_digits hd (by decide))]
  cases number d with
  | none => rfl
  | some v => simp [hoff, Option.filter]

theorem offset_append (u : Text) : offset (d ++ t ++ rest) (u ++ rest) = (d ++ t).length - u.length := by
  simp only [offset, List.length_append]
  omega

/-- Two numbers with a dash between them. -/
theorem parseVersionRange_dash (hrest : ∀ c ∈ rest.head?, c.isDigit = false) (hne : d ≠ [])
    (hd : d.all Char.isDigit = true) :
    parseVersionRange (d ++ '-' :: t ++ rest) (d ++ '-' :: t).length =
      if '+' ∈ d ++ '-' :: t then none else range (d ++ '-' :: t) := by
  have hlt : offset (d ++ '-' :: t ++ rest) ('-' :: t ++ rest) < (d ++ '-' :: t).length := by
    rw [offset_append, List.length_append, List.length_cons]
    omega
  have hmem : '+' ∈ d ++ '-' :: t ↔ '+' ∈ t := by simp [notMem_of_digits hd (show '+'.isDigit = false by decide)]
  unfold parseVersionRange
  rw [List.append_assoc, if_neg (not_not_intro (startsWithDigit hne hd)),
    torParseUlongNext_run hne hd (head_append (u := '-' :: t) (by simp) hrest), ← List.append_assoc, range, bounds_dash hd]
  cases number d with
  | none => simp
  | some low =>
    have hsecond := secondNumber (t := t) hrest (d ++ '-' :: t ++ rest) (d ++ '-' :: t).length low (offset_append [])
      (by
        rintro u hu ⟨e, rfl⟩
        have := List.length_pos_of_ne_nil hu
        rw [offset_append, List.length_append, List.length_cons, List.length_append]
        omega)
    simp only [Option.map_some, Option.bind_some, hmem]
    rw [← hsecond, if_neg (by omega), if_neg (by omega), if_neg (by simp)]
    rfl

/-- Something else than a dash behind the first number. -/
theorem parseVersionRange_other {c : Char} (hrest : ∀ c ∈ rest.head?, c.isDigit = false) (hne : d ≠ [])
    (hd : d.all Char.isDigit = true) (hc : c.isDigit = false) (hdash : c ≠ '-') :
    parseVersionRange (d ++ c :: t ++ rest) (d ++ c :: t).length =
      if '+' ∈ d ++ c :: t then none else range (d ++ c :: t) := by
  have hlt : offset (d ++ c :: t ++ rest) (c :: t ++ rest) < (d ++ c :: t).length := by
    rw [offset_append, List.length_append, List.length_cons]
    omega
  have hright : (if '+' ∈ d ++ c :: t then none else range (d ++ c :: t)) = none := by
    split
    · rfl
    · rename_i hno
      rw [range, bounds_eq_none_of_other hd hc hdash (by simpa using hno)]
      rfl
  unfold parseVersionRange
  rw [hright, List.append_assoc, if_neg (not_not_intro (startsWithDigit hne hd)),
    torParseUlongNext_run hne hd (head_append (u := c :: t) (by simpa using hc) hrest), ← List.append_assoc]
  cases number d with
  | none => rfl
  | some low =>
    simp only [Option.map_some]
    rw [if_neg (by omega), if_neg (by omega), if_pos (by simpa using hdash)]

end Range

section

variable (hrest : ∀ c ∈ rest.head?, c.isDigit = false)
include hrest

/-- A piece that ends before something that is no digit is read as a range of the grammar
    without a plus sign. -/
theorem parseVersionRange_eq : parseVersionRange (p ++ rest) p.length = if '+' ∈ p then none else range p := by
  obtain ⟨d, t, rfl, hd, hhead⟩ := exists_digits p
  by_cases hne : d = []
  · subst hne
    unfold parseVersionRange
    rw [List.nil_append, if_pos (not_startsWithDigit (head_append hhead hrest))]
    split
    · rfl
    · rename_i hplus
      rw [range, bounds_eq_none_of_head (by simpa using hplus) hhead]
      rfl
  cases t with
  | nil =>
    rw [List.append_nil]
    exact parseVersionRange_single hrest hne hd
  | cons c t =>
    by_cases hdash : c = '-'
    · subst hdash
      exact parseVersionRange_dash hrest hne hd
    · exact parseVersionRange_other hrest hne hd (hhead c rfl) hdash

theorem parseVersionRange_some {r : Nat × Nat} (h : parseVersionRange (p ++ rest) p.length = some r) :
    '+' ∉ p ∧ range p = some r := by
  rw [parseVersionRange_eq hrest] at h
  by_cases hplus : '+' ∈ p
  · rw [if_pos hplus] at h
    cases h
  · rw [if_neg hplus] at h
    exact ⟨hplus, h⟩

theorem parseVersionRange_none (h : parseVersionRange (p ++ rest) p.length = none) : '+' ∈ p ∨ range p = none := by
  rw [parseVersionRange_eq hrest] at h
  by_cases hplus : '+' ∈ p
  · exact .inl hplus
  · rw [if_neg hplus] at h
    exact .inr h

end

/-- The bits of the ranges. -/
def orRanges (bitmask : BitVec 64) (rs : List (Nat × Nat)) : BitVec 64 :=
  rs.foldl (fun mask r => mask ||| bitmaskForRange r.1 r.2) bitmask

theorem findIdx?_sep {sep : Char} (h : sep ∉ p) : (p ++ sep :: t).findIdx? (· = sep) = some p.length := by
  have hp : p.findIdx? (· = sep) = none := by
    rw [List.findIdx?_eq_none_iff]
    intro x hx
    simpa using fun e : x = sep => h (e ▸ hx)
  rw [List.findIdx?_append, hp, List.findIdx?_cons]
  simp

theorem range_nil : range [] = none := by
  rw [range, bounds_eq_none_of_head (by simp) (by simp)]
  rfl

theorem ranges_cons (hp : ',' ∉ p) :
    ranges (p ++ ',' :: t) = (range p).bind fun r => ((t.splitOn ',').mapM range).map (r :: ·) := by
  rw [ranges, if_neg (by simp), List.splitOn_append_cons_self_of_not_mem hp, mapM_cons_eq]

theorem ranges_single (hne : p ≠ []) (hp : ',' ∉ p) : ranges p = (range p).map fun r => [r] := by
  rw [ranges, if_neg hne, List.splitOn_eq_singleton hp, mapM_cons_eq]
  cases range p with
  | none => rfl
  | some r => rfl

theorem parseRanges_eq {v : Text} (hrest : ∀ c ∈ rest.head?, c.isDigit = false) (bitmask : BitVec 64) :
    parseRanges (v ++ rest) v.length bitmask = if '+' ∈ v then none else (ranges v).map (orRanges bitmask) := by
  induction hn : v.length using Nat.strongRecOn generalizing v bitmask with
  | ind n ih =>
    subst hn
    rw [parseRanges]
    by_cases hv : v = []
    · subst hv
      rfl
    · have hlen := List.length_pos_of_ne_nil hv
      rw [if_neg (by omega), List.take_left]
      by_cases hcomma : ',' ∈ v
      · obtain ⟨p, t, rfl, hp⟩ := List.eq_append_cons_of_mem hcomma
        have hsep : ∀ c ∈ (',' :: t ++ rest).head?, c.isDigit = false := by
          intro c hc
          cases hc
          decide
        rw [findIdx?_sep hp, ranges_cons hp, Option.getD_some]
        simp only
        split
        next hnone =>
          rw [List.append_assoc] at hnone
          rcases parseVersionRange_none hsep hnone with hplus | hbad
          · simp [hplus]
          · simp [hbad]
        next low high hsome =>
          have hpos := parseVersionRange_pos hsome
          rw [List.append_assoc] at hsome
          obtain ⟨hplus, hrange⟩ := parseVersionRange_some hsep hsome
          rw [hrange, Option.bind_some]
          by_cases ht : t = []
          · -- a comma at the end is read again, as a piece
            subst ht
            have hsplit : ranges [','] = none := by
              rw [show [','] = [] ++ ',' :: [] from rfl, ranges_cons (by simp), range_nil]
              rfl
            have hagain := ih 1 (by simp; omega) (v := [',']) (bitmask ||| bitmaskForRange low high) rfl
            rw [hsplit] at hagain
            rw [List.append_assoc, List.drop_left, show (p ++ [',']).length - p.length = 1 by simp,
              if_neg (by simp), hagain, List.splitOn_nil, mapM_cons_eq, range_nil]
            simp
          · have hrec := ih t.length (by simp; omega) (v := t) (bitmask ||| bitmaskForRange low high) rfl
            have hdrop : (p ++ ',' :: t ++ rest).drop (p.length + 1) = t ++ rest := by
              rw [List.append_assoc, ← List.drop_drop, List.drop_left]
              rfl
            have htlen := List.length_pos_of_ne_nil ht
            rw [if_pos (by simp; omega), hdrop, show (p ++ ',' :: t).length - (p.length + 1) = t.length by simp; omega, hrec]
            rw [ranges, if_neg ht]
            simp only [List.mem_append, List.mem_cons, hplus, false_or, show ('+' = ',') = False by simp]
            split
            · rfl
            · cases (t.splitOn ',').mapM range with
              | none => rfl
              | some rs => rfl
      · have hnoidx : v.findIdx? (· = ',') = none := by
          rw [List.findIdx?_eq_none_iff]
          intro x hx
          simpa using fun e : x = ',' => hcomma (e ▸ hx)
        rw [hnoidx, Option.getD_none, ranges_single hv hcomma]
        simp only
        split
        next hnone =>
          rcases parseVersionRange_none hrest hnone with hplus | hbad
          · simp [hplus]
          · simp [hbad]
        next low high hsome =>
          obtain ⟨hplus, hrange⟩ := parseVersionRange_some hrest hsome
          rw [if_neg (by omega), List.drop_left, Nat.sub_self, parseRanges, if_pos rfl, if_neg hplus, hrange]
          rfl

/-! ## Entries and lists in C -/

def ofEntry (e : Entry) : ProtoEntry := ⟨e.name, orRanges 0 e.ranges⟩

theorem parseSingleEntry_eq (hrest : ∀ c ∈ rest.head?, c.isDigit = false) :
    parseSingleEntry (p ++ rest) p.length = if '+' ∈ p then none else (entry p).map ofEntry := by
  unfold parseSingleEntry entry
  rw [List.take_left]
  by_cases heq : '=' ∈ p
  · obtain ⟨n, v, rfl, hn⟩ := List.eq_append_cons_of_mem heq
    have htake : (n ++ '=' :: v ++ rest).take n.length = n := by
      rw [List.append_assoc, List.take_left]
    have hdrop : (n ++ '=' :: v ++ rest).drop (n.length + 1) = v ++ rest := by
      rw [List.append_assoc, ← List.drop_drop, List.drop_left]
      rfl
    rw [findIdx?_sep hn, takeWhile_sep hn, dropWhile_sep hn, List.tail_cons]
    simp only [heq, true_and, isValidKeyword, htake]
    by_cases hname : isName n = true
    · obtain ⟨hne, hlen, hall⟩ : n ≠ [] ∧ n.length ≤ MAX_PROTOCOL_NAME_LENGTH ∧
          n.all (fun c => c.isAlphanum ∨ c = '-') = true := of_decide_eq_true hname
      have hplus : '+' ∉ n := fun hm => absurd (List.all_eq_true.mp hall _ hm) (by decide)
      have hmem : '+' ∈ n ++ '=' :: v ↔ '+' ∈ v := by simp [hplus]
      have hpos := List.length_pos_of_ne_nil hne
      have hvlen : (n ++ '=' :: v).length - (n.length + 1) = v.length := by
        rw [List.length_append, List.length_cons]
        omega
      rw [if_neg (by omega), if_neg (by omega), if_neg (not_not.mpr hall), hdrop, hvlen, parseRanges_eq hrest]
      simp only [hmem, hname, if_true]
      split
      · rfl
      · cases ranges v with
        | none => rfl
        | some rs => rfl
    · rw [if_neg hname]
      have hname : ¬ n ≠ [] ∨ ¬ n.length ≤ MAX_PROTOCOL_NAME_LENGTH ∨
          ¬ n.all (fun c => c.isAlphanum ∨ c = '-') = true := by
        simpa only [isName, decide_eq_true_eq, not_and_or] using hname
      have hright : (if '+' ∈ n ++ '=' :: v then none else (none : Option Entry).map ofEntry) = none := by
        split
        · rfl
        · rfl
      rw [hright]
      rcases hname with hname | hname | hname
      · rw [if_pos (by simpa using hname)]
      · split
        · rfl
        · rw [if_pos (by omega)]
      · rw [if_pos hname]
        split
        · rfl
        · split
          · rfl
          · rfl
  · have hnoidx : p.findIdx? (· = '=') = none := by
      rw [List.findIdx?_eq_none_iff]
      intro x hx
      simpa using fun e : x = '=' => heq (e ▸ hx)
    rw [hnoidx]
    simp [heq]

/-- The pieces between blanks that are not empty. -/
def nonblank : List Text := (s.splitOn ' ').filter (· ≠ [])

theorem nonblank_dropWhile : nonblank (s.dropWhile (· = ' ')) = nonblank s := by
  induction s with
  | nil => rfl
  | cons c s ih =>
    by_cases hc : c = ' '
    · subst hc
      have hsplit : (' ' :: s).splitOn ' ' = [] :: s.splitOn ' ' := by
        rw [show ' ' :: s = [] ++ ' ' :: s from rfl, List.splitOn_append_cons_self_of_not_mem (by simp)]
      rw [List.dropWhile_cons_of_pos (by simp), ih, nonblank, nonblank, hsplit, List.filter_cons_of_neg (by simp)]
    · rw [List.dropWhile_cons_of_neg (by simpa using hc)]

/-- The first piece, and the pieces after the blanks behind it. -/
theorem words_eq {r : Text} (hp : ' ' ∉ p) (hr : ∀ c ∈ r.head?, c = ' ') :
    words (p ++ r) = p :: nonblank (r.dropWhile (· = ' ')) := by
  rw [nonblank_dropWhile]
  unfold words nonblank
  cases r with
  | nil =>
    rw [List.append_nil, List.splitOn_eq_singleton hp]
    rfl
  | cons c u =>
    have hc : c = ' ' := hr c rfl
    subst hc
    have hsplit : (' ' :: u).splitOn ' ' = [] :: u.splitOn ' ' := by
      rw [show ' ' :: u = [] ++ ' ' :: u from rfl, List.splitOn_append_cons_self_of_not_mem (by simp)]
    rw [List.splitOn_append_cons_self_of_not_mem hp, hsplit]
    simp

theorem takeWhile_dropWhile_blank (s : Text) :
    ' ' ∉ s.takeWhile (· ≠ ' ') ∧ ∀ c ∈ (s.dropWhile (· ≠ ' ')).head?, c = ' ' := by
  constructor
  · intro hm
    have := List.all_eq_true.mp (List.all_takeWhile (p := (· ≠ ' ')) (l := s)) _ hm
    simp at this
  · intro c hc
    have := List.head?_dropWhile_not (· ≠ ' ') s
    rw [hc] at this
    simpa using this

/-- A text that does not start with a blank. -/
theorem entries_eq (ht : ∀ c ∈ t.head?, c ≠ ' ') : entries t = (nonblank t).mapM entry := by
  unfold entries
  by_cases hne : t = []
  · subst hne
    rfl
  · rw [if_neg hne]
    obtain ⟨hp, hr⟩ := takeWhile_dropWhile_blank t
    have hsplit := List.takeWhile_append_dropWhile (p := (· ≠ ' ')) (l := t)
    have hword : t.takeWhile (· ≠ ' ') ≠ [] := by
      obtain ⟨c, u, rfl⟩ := List.exists_cons_of_ne_nil hne
      rw [List.takeWhile_cons_of_pos (by simpa using ht c rfl)]
      exact List.cons_ne_nil _ _
    have hwords := words_eq hp hr
    rw [hsplit] at hwords
    have hnb : nonblank t = words t := by
      obtain ⟨a, l, hl⟩ := List.exists_cons_of_ne_nil (List.splitOn_ne_nil ' ' t)
      have ha : a ≠ [] := by
        rw [words, hl] at hwords
        rw [(List.cons.inj hwords).1]
        exact hword
      rw [words, nonblank, hl, List.filter_cons_of_pos (by simpa using ha)]
      rfl
    rw [hnb]

/-- The reader in C takes the lists without a plus sign. -/
theorem parseProtocolList_eq (s : Text) :
    parseProtocolList s = if '+' ∈ s then none else (entries s).map (List.map ofEntry) := by
  induction hn : s.length using Nat.strongRecOn generalizing s with
  | ind n ih =>
    subst hn
    rw [parseProtocolList]
    by_cases hs : s = []
    · subst hs
      rfl
    · obtain ⟨hp, hr⟩ := takeWhile_dropWhile_blank s
      have hsplit := List.takeWhile_append_dropWhile (p := (· ≠ ' ')) (l := s)
      generalize s.takeWhile (· ≠ ' ') = p at hp hsplit ⊢
      generalize s.dropWhile (· ≠ ' ') = r at hr hsplit
      subst hsplit
      have hentry : parseSingleEntry (p ++ r) p.length = if '+' ∈ p then none else (entry p).map ofEntry := by
        apply parseSingleEntry_eq
        intro c hc
        rw [hr c hc]
        decide
      have hblanks := List.takeWhile_append_dropWhile (p := (· = ' ')) (l := r)
      have hplus : '+' ∈ p ++ r ↔ '+' ∈ p ∨ '+' ∈ r.dropWhile (· = ' ') := by
        have hno : '+' ∉ r.takeWhile (· = ' ') := by
          intro hm
          have := List.all_eq_true.mp (List.all_takeWhile (p := (· = ' ')) (l := r)) _ hm
          simp at this
        nth_rewrite 1 [← hblanks]
        simp only [List.mem_append, hno, false_or]
      have hrest : entries (r.dropWhile (· = ' ')) = (nonblank (r.dropWhile (· = ' '))).mapM entry := by
        apply entries_eq
        intro c hc
        have := List.head?_dropWhile_not (· = ' ') r
        rw [hc] at this
        simpa using this
      have hall : entries (p ++ r) =
          (entry p).bind fun e => (entries (r.dropWhile (· = ' '))).map (e :: ·) := by
        rw [entries, if_neg hs, words_eq hp hr, mapM_cons_eq, hrest]
      rw [if_neg hs, hall]
      simp only [hplus, List.drop_left]
      split
      · rename_i hnone
        rw [hentry] at hnone
        by_cases hpp : '+' ∈ p
        · simp [hpp]
        · rw [if_neg hpp, Option.map_eq_none_iff] at hnone
          simp [hnone]
      · rename_i e hsome
        have hpos := parseSingleEntry_pos hsome
        rw [hentry] at hsome
        have hpp : '+' ∉ p := by
          intro hm
          rw [if_pos hm] at hsome
          cases hsome
        rw [if_neg hpp, Option.map_eq_some_iff] at hsome
        obtain ⟨e', he', rfl⟩ := hsome
        have hlen := (List.dropWhile_sublist (· = ' ') (l := r)).length_le
        rw [ih _ (by rw [List.length_append]; omega) _ rfl, he']
        simp only [hpp, false_or, Option.bind_some]
        split
        · rfl
        · cases entries (r.dropWhile (· = ' ')) with
          | none => rfl
          | some es => rfl

end C

end Badnet.Protover

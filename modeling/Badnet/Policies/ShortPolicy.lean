/-
  Badnet.Policies.ShortPolicy — the text of a summary, and the short policy that clients read from it
  (`policy_summarize`, `parse_short_policy` and `compare_tor_addr_to_short_policy` of `core/or/policies.c`).

  For entries with ranges within 1 to 65535 no assertion fails and no index is out of range, the text has at most 1000
  characters, and its reader accepts the ports that the policy accepts, or some of these when the text was cut
  (`policySummarize_agrees`).
-/

import Mathlib.Algebra.Ring.Nat
import Badnet.Policies.Summary

namespace Badnet.Policies

open Lib Net Encoding

/-! ## Ranges -/

def rangeText (startPrt prtMax : Nat) : Text :=
  if startPrt = prtMax then decimal startPrt else decimal startPrt ++ '-' :: decimal prtMax

/-- The texts of the accepted ranges and of the rejected ones. -/
structure RangeTexts where
  accepts : List Text
  rejects : List Text
  deriving DecidableEq

variable (t : RangeTexts)

def RangeTexts.add (accepted : Bool) (buf : Text) : RangeTexts :=
  if accepted then { t with accepts := t.accepts ++ [buf] } else { t with rejects := t.rejects ++ [buf] }

/-- The loop that merges the items into ranges. -/
def mergeRanges (summary : List PolicySummaryItem) (t : RangeTexts) (startPrt i : Nat) : Option RangeTexts :=
  match _h : summary[i]? with
  | none => none
  | some item =>
    let t' := t.add item.accepted (rangeText startPrt item.prtMax.toNat)
    if i + 1 = summary.length then some t'
    else
      match summary[i + 1]? with
      | none => none
      | some next =>
        if item.accepted ≠ next.accepted then mergeRanges summary t' next.prtMin.toNat (i + 1)
        else mergeRanges summary t startPrt (i + 1)
termination_by summary.length - i
decreasing_by all_goals
  have hi := (List.getElem?_eq_some_iff.mp _h).1
  omega

/-! ## Text -/

def MAX_EXITPOLICY_SUMMARY_LEN : Nat := 1000

def acceptPrefix : Text := ['a', 'c', 'c', 'e', 'p', 't']

def rejectPrefix : Text := ['r', 'e', 'j', 'e', 'c', 't']

/-- `1-65535` -/
def allPorts : Text := ['1', '-', '6', '5', '5', '3', '5']

/-- The loop back from `c` to a comma; the end of the loop is asserted to be one. -/
def commaBefore (str : Text) (c : Nat) : Option Nat :=
  if str[c]? = some ',' then some c
  else match c with
    | 0 => none
    | c + 1 => commaBefore str c

/-- `smartlist_join_strings` with a comma. -/
def joinRanges (l : List Text) : Text := [','].intercalate l

def tooLong (str : Text) : Prop := str.length > MAX_EXITPOLICY_SUMMARY_LEN - rejectPrefix.length - 1

instance (str : Text) : Decidable (tooLong str) := inferInstanceAs (Decidable (_ > _))

/-- The text of the two lists of ranges. -/
def summaryText : Option Text :=
  if t.accepts = [] then some (rejectPrefix ++ ' ' :: allPorts)
  else if t.rejects = [] then some (acceptPrefix ++ ' ' :: allPorts)
  else
    let acceptsStr := joinRanges t.accepts
    let rejectsStr := joinRanges t.rejects
    if tooLong rejectsStr ∧ tooLong acceptsStr then
      (commaBefore acceptsStr (MAX_EXITPOLICY_SUMMARY_LEN - acceptPrefix.length - 1)).map fun c =>
        acceptPrefix ++ ' ' :: acceptsStr.take c
    else if rejectsStr.length < acceptsStr.length then some (rejectPrefix ++ ' ' :: rejectsStr)
    else some (acceptPrefix ++ ' ' :: acceptsStr)

def summaryRanges (policy : List AddrPolicy) (family : SaFamily) : Option RangeTexts :=
  (summarizeEntries policy family).bind fun summary => mergeRanges summary.items ⟨[], []⟩ 1 0

def policySummarize (policy : List AddrPolicy) (family : SaFamily) : Option Text :=
  (summaryRanges policy family).bind summaryText

/-! ## Reading -/

structure ShortPolicy where
  isAccept : Bool
  entries : List (Nat × Nat)
  deriving DecidableEq, Repr

theorem strtoul_length (s : Text) : (strtoul s).2.1.length ≤ s.length := by
  have hspace : (s.dropWhile isspace).length ≤ s.length := (List.dropWhile_suffix _).length_le
  have hsign : (if (s.dropWhile isspace).head? = some '-' ∨ (s.dropWhile isspace).head? = some '+' then
      (s.dropWhile isspace).tail else s.dropWhile isspace).length ≤ s.length := by
    split
    · rw [List.length_tail]; omega
    · exact hspace
  unfold strtoul
  dsimp only
  generalize (if (s.dropWhile isspace).head? = some '-' ∨ (s.dropWhile isspace).head? = some '+' then
    (s.dropWhile isspace).tail else s.dropWhile isspace) = t at hsign
  split
  · exact Nat.le_refl _
  · split <;>
      · rw [List.length_drop]
        omega

theorem torParseUlongNext_length {s next : Text} {min max r : Nat} (h : torParseUlongNext s min max = some (r, next)) :
    next.length < s.length := by
  have hle := strtoul_length s
  unfold torParseUlongNext at h
  split at h
  next r' endptr erange hs =>
    rw [hs] at hle
    split at h
    · cases h
    next hok =>
      cases h
      simp only [not_or] at hok
      exact Nat.lt_of_le_of_ne hle hok.2.1

/-- The loop of `parse_short_policy` over the text. -/
def parseEntries (summary : Text) (entries : List (Nat × Nat)) : Option (List (Nat × Nat)) :=
  match summary with
  | [] => some entries
  | c :: rest =>
    if entries.length = MAX_EXITPOLICY_SUMMARY_LEN then none
    else
      match _h : torParseUlongNext (c :: rest) 1 65535 with
      | none =>
        if ¬ c.isDigit ∨ c = ',' then
          match _hn : (strtoul (c :: rest)).2.1.dropWhile (· ≠ ',') with
          | [] => some entries
          | _ :: next => parseEntries next entries
        else none
      | some (low, next) =>
        match _hn : next with
        | [] => some (entries ++ [(low, low)])
        | d :: next =>
          if d = ',' then parseEntries next (entries ++ [(low, low)])
          else if d = '-' then
            match _hh : torParseUlongNext next low 65535 with
            | none => none
            | some (high, next) =>
              match _hm : next with
              | [] => some (entries ++ [(low, high)])
              | d :: next => if d = ',' then parseEntries next (entries ++ [(low, high)]) else none
          else none
termination_by summary.length
decreasing_by
  · have hle := strtoul_length (c :: rest)
    have hdrop := (List.dropWhile_suffix (· ≠ ',') (l := (strtoul (c :: rest)).2.1)).length_le
    rw [_hn, List.length_cons] at hdrop
    omega
  · have hlt := torParseUlongNext_length _h
    rw [List.length_cons] at hlt
    omega
  · have hlt := torParseUlongNext_length _h
    have hlt' := torParseUlongNext_length _hh
    rw [List.length_cons] at hlt hlt'
    omega

def parseShortPolicy (summary : Text) : Option ShortPolicy :=
  let parse (isAccept : Bool) (rest : Text) : Option ShortPolicy :=
    (parseEntries rest []).bind fun entries => if entries = [] then none else some ⟨isAccept, entries⟩
  if acceptPrefix ++ [' '] <+: summary then parse true (summary.drop 7)
  else if rejectPrefix ++ [' '] <+: summary then parse false (summary.drop 7)
  else none

variable (rejectsInternal : TorAddr → Bool)

/-- `rejectsInternal` is the test of an address that is known to be internal or a loopback one. -/
def compareTorAddrToShortPolicy (addr : Option TorAddr) (port : UInt16) (policy : ShortPolicy) :
    Option AddrPolicyResult :=
  if port = 0 then none
  else if (addr.filter (!torAddrIsNull ·)).any rejectsInternal then some .ADDR_POLICY_REJECTED
  else
    let foundMatch := policy.entries.any fun e => e.1 ≤ port.toNat ∧ port.toNat ≤ e.2
    let accept := if foundMatch then policy.isAccept else !policy.isAccept
    some (if accept then .ADDR_POLICY_PROBABLY_ACCEPTED else .ADDR_POLICY_REJECTED)

/-! ## The ranges say what the items say -/

/-- A range of ports that are all accepted, or none of them. -/
structure PortRange where
  lo : Nat
  hi : Nat
  accepted : Bool

def PortRange.Has (r : PortRange) (p : Nat) : Prop := r.lo ≤ p ∧ p ≤ r.hi

/-- The ranges the items are merged into; the first one starts at `start`. -/
def rangesOf (start : Nat) : List PolicySummaryItem → List PortRange
  | [] => []
  | [item] => [⟨start, lastPort item, item.accepted⟩]
  | item :: next :: rest =>
    if item.accepted ≠ next.accepted then
      ⟨start, lastPort item, item.accepted⟩ :: rangesOf (firstPort next) (next :: rest)
    else rangesOf start (next :: rest)

def textsOf (accepted : Bool) (rs : List PortRange) : List Text :=
  (rs.filter (·.accepted = accepted)).map fun r => rangeText r.lo r.hi

theorem mergeRanges_eq {pre : List PolicySummaryItem} {item : PolicySummaryItem} {rest : List PolicySummaryItem}
    {t : RangeTexts} {start : Nat} :
    mergeRanges (pre ++ item :: rest) t start pre.length =
      some ⟨t.accepts ++ textsOf true (rangesOf start (item :: rest)),
        t.rejects ++ textsOf false (rangesOf start (item :: rest))⟩ := by
  induction rest generalizing pre item t start with
  | nil =>
    unfold mergeRanges
    split
    next hnone => simp at hnone
    next x hx =>
      have hx : item = x := by simpa using hx
      subst hx
      rw [if_pos (by simp)]
      cases hacc : item.accepted <;> simp [RangeTexts.add, textsOf, rangesOf, lastPort, hacc]
  | cons next rest ih =>
    have hlist : pre ++ item :: next :: rest = (pre ++ [item]) ++ next :: rest := by simp
    have hlen : (pre ++ [item]).length = pre.length + 1 := by simp
    unfold mergeRanges
    split
    next hnone => simp at hnone
    next x hx =>
      have hx : item = x := by simpa using hx
      subst hx
      have hnext : (pre ++ item :: next :: rest)[pre.length + 1]? = some next := by
        rw [hlist, ← hlen]
        simp
      rw [if_neg (by simp), hnext]
      simp only [hlist, ← hlen]
      rw [ih, ih, rangesOf]
      split
      next hne =>
        cases hacc : item.accepted <;> simp [RangeTexts.add, textsOf, firstPort, lastPort]
      next heq => rfl

theorem rangesOf_spec {item : PolicySummaryItem} {rest : List PolicySummaryItem} {f : Nat → UInt64 × Bool} {start a b : Nat}
    (hitems : Items a (item :: rest) b) (hf : Describes (item :: rest) f) (hle : start ≤ a)
    (hstart : ∀ p, start ≤ p → p < a → (f p).2 = item.accepted) :
    (∀ r ∈ rangesOf start (item :: rest), start ≤ r.lo ∧ r.lo ≤ r.hi ∧ r.hi < b ∧ ∀ p, r.Has p → (f p).2 = r.accepted) ∧
    ∀ p, start ≤ p → p < b → ∃ r ∈ rangesOf start (item :: rest), r.Has p := by
  induction rest generalizing item start a with
  | nil =>
    obtain ⟨hfirst, hlast, hend⟩ := hitems
    have hend : lastPort item + 1 = b := hend
    refine ⟨fun r hr => ?_, fun p hp hp' => ⟨_, List.mem_singleton.mpr rfl, hp, show p ≤ lastPort item by omega⟩⟩
    rw [List.mem_singleton.mp hr]
    refine ⟨Nat.le_refl _, Nat.le_trans hle hlast, show lastPort item < b by omega, fun p hp => ?_⟩
    by_cases hpa : p < a
    · exact hstart p hp.1 hpa
    · rw [← hf item List.mem_cons_self p (by omega) hp.2]
  | cons next rest ih =>
    obtain ⟨hfirst, hlast, hrest⟩ := hitems
    have hrest' : Items (lastPort item + 1) (next :: rest) b := hrest
    have hnext : firstPort next = lastPort item + 1 := hrest.1
    have hf' : Describes (next :: rest) f := fun x hx => hf x (List.mem_cons_of_mem item hx)
    have hsame : ∀ p, start ≤ p → p < lastPort item + 1 → (f p).2 = item.accepted := by
      intro p hp hp'
      by_cases hpa : p < a
      · exact hstart p hp hpa
      · rw [← hf item List.mem_cons_self p (by omega) (by omega)]
    rw [rangesOf]
    split
    next hne =>
      obtain ⟨hin, hcover⟩ := ih hrest' hf' (Nat.le_of_eq hnext) fun p hp hp' => by omega
      have hb := hrest'.le
      refine ⟨fun r hr => ?_, fun p hp hp' => ?_⟩
      · rcases List.mem_cons.mp hr with rfl | hr
        · exact ⟨Nat.le_refl _, Nat.le_trans hle hlast, hb, fun p hp => hsame p hp.1 (Nat.lt_succ_of_le hp.2)⟩
        · obtain ⟨h1, h2, h3, h4⟩ := hin r hr
          exact ⟨by omega, h2, h3, h4⟩
      · by_cases hpl : p ≤ lastPort item
        · exact ⟨_, List.mem_cons_self, hp, hpl⟩
        · obtain ⟨r, hr, hrp⟩ := hcover p (by omega) hp'
          exact ⟨r, List.mem_cons_of_mem _ hr, hrp⟩
    next heq =>
      refine ih hrest' hf' (by omega) fun p hp hp' => ?_
      rw [hsame p hp hp', Classical.not_not.mp heq]

/-! ## Printing and reading -/

variable {n : Nat} {rs : List PortRange} {acc : Nat → Bool}

theorem strtoul_decimal (hlong : n ≤ ULONG_MAX) {rest : Text} (hrest : ∀ c ∈ rest.head?, c.isDigit = false) :
    strtoul (decimal n ++ rest) = (n, rest, false) := by
  obtain ⟨hspace, hneg, hpos, hdigits⟩ := @decimal_start n rest hrest
  unfold strtoul
  simp only [hspace, hneg, hpos, hdigits, ofDigitChars_decimal, decimal_ne_nil, or_self, if_false, List.drop_left]
  rw [if_neg (by omega)]

theorem torParseUlongNext_decimal {min : Nat} (hmin : min ≤ n) (hmax : n ≤ 65535) {rest : Text}
    (hrest : ∀ c ∈ rest.head?, c.isDigit = false) :
    torParseUlongNext (decimal n ++ rest) min 65535 = some (n, rest) := by
  have hlen : rest.length ≠ (decimal n ++ rest).length := by
    have hpos := List.length_pos_of_ne_nil (decimal_ne_nil n)
    rw [List.length_append]
    omega
  unfold torParseUlongNext
  rw [strtoul_decimal (by unfold ULONG_MAX; omega) hrest]
  simp only
  rw [if_neg]
  simp only [Bool.false_eq_true, hlen, false_or]
  omega

/-- A range of ports that can be printed. -/
def PortRange.Ok (r : PortRange) : Prop := 1 ≤ r.lo ∧ r.lo ≤ r.hi ∧ r.hi ≤ 65535

theorem parseEntries_number {s next : Text} {low : Nat} {entries : List (Nat × Nat)}
    (hroom : entries.length < MAX_EXITPOLICY_SUMMARY_LEN) (h : torParseUlongNext s 1 65535 = some (low, next)) :
    parseEntries s entries =
      match next with
      | [] => some (entries ++ [(low, low)])
      | d :: next =>
        if d = ',' then parseEntries next (entries ++ [(low, low)])
        else if d = '-' then
          match torParseUlongNext next low 65535 with
          | none => none
          | some (high, next) =>
            match next with
            | [] => some (entries ++ [(low, high)])
            | d :: next => if d = ',' then parseEntries next (entries ++ [(low, high)]) else none
        else none := by
  cases s with
  | nil => cases torParseUlongNext_length h
  | cons c rest =>
    rw [parseEntries, if_neg (Nat.ne_of_lt hroom)]
    split
    next hnone => rw [h] at hnone; cases hnone
    next low' next' hsome =>
      rw [h] at hsome
      cases hsome
      cases next with
      | nil => rfl
      | cons d next =>
        dsimp only
        split
        · rfl
        split
        · split
          next hh => rw [hh]
          next high next' hh =>
            cases next' <;> simp only [hh]
        · rfl

/-- One range at the start of a text is read, up to the comma or the end. -/
theorem parseEntries_range {r : PortRange} (hr : r.Ok) (entries : List (Nat × Nat))
    (hroom : entries.length < MAX_EXITPOLICY_SUMMARY_LEN) :
    parseEntries (rangeText r.lo r.hi) entries = some (entries ++ [(r.lo, r.hi)]) ∧
    ∀ rest, parseEntries (rangeText r.lo r.hi ++ ',' :: rest) entries = parseEntries rest (entries ++ [(r.lo, r.hi)]) := by
  obtain ⟨hpos, hle, hmax⟩ := hr
  have hnone : ∀ c ∈ ([] : Text).head?, c.isDigit = false := nofun
  have hsep : ∀ {d : Char}, d.isDigit = false → ∀ rest : Text, ∀ c ∈ (d :: rest).head?, c.isDigit = false := by
    intro d hd rest c hc
    cases hc
    exact hd
  have hcomma := hsep (d := ',') (by decide)
  have hdash := hsep (d := '-') (by decide)
  unfold rangeText
  split
  next heq =>
    rw [← heq]
    refine ⟨?_, fun rest => ?_⟩
    · rw [← List.append_nil (decimal r.lo), parseEntries_number hroom (torParseUlongNext_decimal hpos (by omega) hnone)]
    · rw [parseEntries_number hroom (torParseUlongNext_decimal hpos (by omega) (hcomma rest))]
      rfl
  next hne =>
    refine ⟨?_, fun rest => ?_⟩
    · rw [parseEntries_number hroom (torParseUlongNext_decimal hpos (by omega) (hdash _))]
      have hhigh := torParseUlongNext_decimal hle hmax hnone
      rw [List.append_nil] at hhigh
      simp [hhigh]
    · rw [List.append_assoc, List.cons_append,
        parseEntries_number hroom (torParseUlongNext_decimal hpos (by omega) (hdash _))]
      simp [torParseUlongNext_decimal hle hmax (hcomma rest)]

/-! ## Lists of ranges -/

theorem joinRanges_cons (t u : Text) (l : List Text) : joinRanges (t :: u :: l) = t ++ ',' :: joinRanges (u :: l) := by
  simp [joinRanges]

theorem joinRanges_singleton (t : Text) : joinRanges [t] = t := by
  simp [joinRanges]

def rangeTexts (rs : List PortRange) : List Text := rs.map fun r => rangeText r.lo r.hi

def rangeEntries (rs : List PortRange) : List (Nat × Nat) := rs.map fun r => (r.lo, r.hi)

theorem parseEntries_join (hne : rs ≠ []) (hrs : ∀ r ∈ rs, r.Ok) {entries : List (Nat × Nat)}
    (hroom : entries.length + rs.length ≤ MAX_EXITPOLICY_SUMMARY_LEN) :
    parseEntries (joinRanges (rangeTexts rs)) entries = some (entries ++ rangeEntries rs) := by
  induction rs generalizing entries with
  | nil => exact absurd rfl hne
  | cons r rs ih =>
    have hread := parseEntries_range (hrs r List.mem_cons_self) entries (by simp at hroom; omega)
    cases rs with
    | nil =>
      rw [rangeTexts, List.map_singleton, joinRanges_singleton, hread.1]
      rfl
    | cons r' rs =>
      rw [rangeTexts, List.map_cons, List.map_cons, joinRanges_cons, hread.2]
      have hrest : parseEntries _ (entries ++ [(r.lo, r.hi)]) = _ := ih (List.cons_ne_nil r' rs)
        (fun x hx => hrs x (List.mem_cons_of_mem r hx)) (by simp at hroom ⊢; omega)
      rw [rangeTexts, List.map_cons] at hrest
      rw [hrest]
      simp [rangeEntries]

theorem decimal_length (h : n ≤ 65535) : (decimal n).length ≤ 5 :=
  (Nat.length_toDigits_le_iff (by decide) (by decide)).mpr (by omega)

theorem rangeText_ne_nil (lo hi : Nat) : rangeText lo hi ≠ [] := by
  unfold rangeText
  split
  · exact decimal_ne_nil lo
  · simp

theorem rangeText_length {r : PortRange} (hr : r.Ok) : (rangeText r.lo r.hi).length ≤ 11 := by
  obtain ⟨-, hle, hmax⟩ := hr
  have hlo := decimal_length (n := r.lo) (by omega)
  have hhi := decimal_length hmax
  unfold rangeText
  split
  · omega
  · rw [List.length_append, List.length_cons]
    omega

theorem comma_notMem_rangeText (lo hi : Nat) : ',' ∉ rangeText lo hi := by
  have hdecimal : ∀ n, ',' ∉ decimal n := fun n h => absurd (isDigit_decimal _ h) (by decide)
  unfold rangeText
  split
  · exact hdecimal lo
  · simp [hdecimal]

/-- A text is no shorter than the number of its ranges. -/
theorem length_le_join (rs : List PortRange) : rs.length ≤ (joinRanges (rangeTexts rs)).length := by
  induction rs with
  | nil => exact Nat.zero_le _
  | cons r rs ih =>
    have hpos := List.length_pos_of_ne_nil (rangeText_ne_nil r.lo r.hi)
    cases rs with
    | nil =>
      rw [rangeTexts, List.map_singleton, joinRanges_singleton]
      exact hpos
    | cons r' rs =>
      rw [rangeTexts, List.map_cons] at ih
      rw [rangeTexts, List.map_cons, List.map_cons, joinRanges_cons, List.length_append]
      simp only [List.length_cons] at ih ⊢
      omega

/-- What stands before a comma is a list of ranges too. -/
theorem joinRanges_cut {x y : Text} (h : joinRanges (rangeTexts rs) = x ++ ',' :: y) :
    ∃ rs1 rs2, rs = rs1 ++ rs2 ∧ rs1 ≠ [] ∧ x = joinRanges (rangeTexts rs1) := by
  induction rs generalizing x with
  | nil => cases x <;> cases h
  | cons r rs ih =>
    have hcomma := comma_notMem_rangeText r.lo r.hi
    cases rs with
    | nil =>
      rw [rangeTexts, List.map_singleton, joinRanges_singleton] at h
      exact absurd (h ▸ by simp) hcomma
    | cons r' rs =>
      rw [rangeTexts, List.map_cons, List.map_cons, joinRanges_cons] at h
      rcases List.append_eq_append_iff.mp h with ⟨z, hx, hz⟩ | ⟨z, hr, hz⟩
      · cases z with
        | nil =>
          rw [List.append_nil] at hx
          exact ⟨[r], r' :: rs, rfl, by simp, by rw [hx, rangeTexts, List.map_singleton, joinRanges_singleton]⟩
        | cons c z =>
          rw [List.cons_append, List.cons.injEq] at hz
          obtain ⟨rs1, rs2, hrs, hne, hz'⟩ := ih (x := z) (by rw [rangeTexts, List.map_cons, hz.2])
          refine ⟨r :: rs1, rs2, by rw [hrs, List.cons_append], by simp, ?_⟩
          obtain ⟨r1, rs1, rfl⟩ := List.exists_cons_of_ne_nil hne
          rw [hx, ← hz.1, hz', rangeTexts, rangeTexts, List.map_cons, List.map_cons, List.map_cons, joinRanges_cons]
      · cases z with
        | nil =>
          rw [List.append_nil] at hr
          exact ⟨[r], r' :: rs, rfl, by simp, by rw [← hr, rangeTexts, List.map_singleton, joinRanges_singleton]⟩
        | cons c z =>
          rw [List.cons_append, List.cons.injEq] at hz
          exact absurd (by rw [hr, ← hz.1]; simp) hcomma

theorem commaBefore_spec {str : Text} {c : Nat} (h : ∃ j ≤ c, str[j]? = some ',') :
    ∃ k ≤ c, commaBefore str c = some k ∧ str[k]? = some ',' := by
  induction c with
  | zero =>
    obtain ⟨j, hj, hget⟩ := h
    rw [Nat.le_zero.mp hj] at hget
    exact ⟨0, Nat.le_refl 0, by rw [commaBefore, if_pos hget], hget⟩
  | succ c ih =>
    by_cases hget : str[c + 1]? = some ','
    · exact ⟨c + 1, Nat.le_refl _, by rw [commaBefore, if_pos hget], hget⟩
    · obtain ⟨j, hj, hj'⟩ := h
      have hne : j ≠ c + 1 := fun e => hget (e ▸ hj')
      obtain ⟨k, hk, hfound, hk'⟩ := ih ⟨j, by omega, hj'⟩
      exact ⟨k, by omega, by rw [commaBefore, if_neg hget]; exact hfound, hk'⟩

/-! ## The summary and its reader agree -/

/-- What `compare_tor_addr_to_short_policy` says about a port. -/
def shortAccepts (policy : ShortPolicy) (p : Nat) : Bool :=
  if policy.entries.any fun e => e.1 ≤ p ∧ p ≤ e.2 then policy.isAccept else !policy.isAccept

theorem compareTorAddrToShortPolicy_eq {port : UInt16} (hport : port ≠ 0) (policy : ShortPolicy) :
    compareTorAddrToShortPolicy rejectsInternal none port policy = some .ADDR_POLICY_PROBABLY_ACCEPTED ↔
      shortAccepts policy port.toNat = true := by
  unfold compareTorAddrToShortPolicy
  rw [if_neg hport, if_neg (by simp)]
  dsimp only
  rw [← shortAccepts]
  split
  next h => simp [h]
  next h => simp [h]

theorem rangeEntries_any {p : Nat} :
    (rangeEntries rs).any (fun e => e.1 ≤ p ∧ p ≤ e.2) = true ↔ ∃ r ∈ rs, r.Has p := by
  simp [rangeEntries, PortRange.Has]

/-- A text of ranges is read as these ranges. -/
theorem parseShortPolicy_join (isAccept : Bool) (hne : rs ≠ []) (hrs : ∀ r ∈ rs, r.Ok)
    (hlen : (joinRanges (rangeTexts rs)).length ≤ MAX_EXITPOLICY_SUMMARY_LEN) :
    parseShortPolicy ((if isAccept then acceptPrefix else rejectPrefix) ++ ' ' :: joinRanges (rangeTexts rs)) =
      some ⟨isAccept, rangeEntries rs⟩ := by
  have hentries : rangeEntries rs ≠ [] := by simpa [rangeEntries] using hne
  have hparse : parseEntries (joinRanges (rangeTexts rs)) [] = some (rangeEntries rs) := by
    refine parseEntries_join hne hrs ?_
    rw [List.length_nil, Nat.zero_add]
    exact Nat.le_trans (length_le_join rs) hlen
  cases isAccept <;> simp [parseShortPolicy, acceptPrefix, rejectPrefix, hparse, hentries]

/-- The ranges of one kind. -/
def kind (b : Bool) (rs : List PortRange) : List PortRange := rs.filter (·.accepted = b)

/-- The ranges are ranges of ports that say what `acc` says, and they cover all ports. -/
structure RangesOk (rs : List PortRange) (acc : Nat → Bool) : Prop where
  ok : ∀ r ∈ rs, r.Ok
  same : ∀ r ∈ rs, ∀ p, r.Has p → acc p = r.accepted
  cover : ∀ p, 1 ≤ p → p < 65536 → ∃ r ∈ rs, r.Has p

section
variable {rs : List PortRange} {acc : Nat → Bool} {p : Nat}

theorem RangesOk.kind_iff (h : RangesOk rs acc) (hlo : 1 ≤ p) (hhi : p < 65536) (b : Bool) :
    acc p = b ↔ ∃ r ∈ kind b rs, r.Has p := by
  constructor
  · intro hacc
    obtain ⟨r, hr, hrp⟩ := h.cover p hlo hhi
    refine ⟨r, List.mem_filter.mpr ⟨hr, decide_eq_true ?_⟩, hrp⟩
    rw [← h.same r hr p hrp, hacc]
  · intro ⟨r, hr, hrp⟩
    obtain ⟨hr, hb⟩ := List.mem_filter.mp hr
    rw [h.same r hr p hrp, of_decide_eq_true hb]

theorem RangesOk.kind_ok (h : RangesOk rs acc) (b : Bool) : ∀ r ∈ kind b rs, r.Ok :=
  fun r hr => h.ok r (List.mem_filter.mp hr).1

/-- All ranges of a kind say what is said. -/
theorem RangesOk.shortAccepts_kind (h : RangesOk rs acc) (hlo : 1 ≤ p) (hhi : p < 65536) (b : Bool) :
    shortAccepts ⟨b, rangeEntries (kind b rs)⟩ p = acc p := by
  have hiff := h.kind_iff hlo hhi b
  unfold shortAccepts
  split
  next hany => exact (hiff.mpr (rangeEntries_any.mp hany)).symm
  next hany =>
    have hne : acc p ≠ b := fun e => hany (rangeEntries_any.mpr (hiff.mp e))
    cases b <;> simpa using hne.symm

/-- Some of the accepted ranges accept nothing else. -/
theorem RangesOk.shortAccepts_some (h : RangesOk rs acc) (hlo : 1 ≤ p) (hhi : p < 65536) {some rest : List PortRange}
    (hkind : kind true rs = some ++ rest) (hp : shortAccepts ⟨true, rangeEntries some⟩ p = true) : acc p = true := by
  unfold shortAccepts at hp
  split at hp
  next hany =>
    obtain ⟨r, hr, hrp⟩ := rangeEntries_any.mp hany
    exact (h.kind_iff hlo hhi true).mpr ⟨r, hkind ▸ List.mem_append_left rest hr, hrp⟩
  · cases hp

end

/-- What a summary promises to its reader. -/
def SummaryOk (acc : Nat → Bool) (result : Text) : Prop :=
  result.length ≤ MAX_EXITPOLICY_SUMMARY_LEN ∧ ∃ sp, parseShortPolicy result = some sp ∧
    ∀ p, 1 ≤ p → p < 65536 → (shortAccepts sp p = true → acc p = true) ∧
      (¬ (tooLong (joinRanges t.rejects) ∧ tooLong (joinRanges t.accepts)) → shortAccepts sp p = acc p)

/-- A kind of ranges that is not too long is printed whole. -/
theorem summaryOk_kind (h : RangesOk rs acc) (t : RangeTexts) {b : Bool}
    (hne : kind b rs ≠ []) (hlen : ¬ tooLong (joinRanges (rangeTexts (kind b rs)))) :
    SummaryOk t acc ((if b then acceptPrefix else rejectPrefix) ++ ' ' :: joinRanges (rangeTexts (kind b rs))) := by
  have hlen : (joinRanges (rangeTexts (kind b rs))).length ≤ 993 := Nat.not_lt.mp hlen
  have hprefix : (if b then acceptPrefix else rejectPrefix).length = 6 := by cases b <;> rfl
  refine ⟨?_, _, parseShortPolicy_join b hne (h.kind_ok b) ?_, fun p hlo hhi => ?_⟩
  · rw [List.length_append, List.length_cons, hprefix, MAX_EXITPOLICY_SUMMARY_LEN]
    omega
  · rw [MAX_EXITPOLICY_SUMMARY_LEN]
    omega
  · rw [h.shortAccepts_kind hlo hhi b]
    exact ⟨id, fun _ => rfl⟩

/-- No range of the other kind: one range stands for all ports. -/
theorem summaryOk_all (h : RangesOk rs acc) (t : RangeTexts) {b : Bool}
    (hnone : kind (!b) rs = []) : SummaryOk t acc ((if b then acceptPrefix else rejectPrefix) ++ ' ' :: allPorts) := by
  have hall : RangesOk [⟨1, 65535, b⟩] acc := by
    refine ⟨fun r hr => ?_, fun r hr p hrp => ?_, fun p hlo hhi => ⟨_, List.mem_singleton.mpr rfl, hlo, Nat.le_of_lt_succ hhi⟩⟩
    · rw [List.mem_singleton.mp hr]
      exact ⟨Nat.le_refl 1, show 1 ≤ 65535 by decide, Nat.le_refl _⟩
    · rw [List.mem_singleton.mp hr] at hrp ⊢
      have hne : acc p ≠ !b := by
        rw [Ne, h.kind_iff hrp.1 (Nat.lt_succ_of_le hrp.2) (!b), hnone]
        simp
      cases hacc : acc p <;> cases b <;> simp_all
  have hkind : kind b [⟨1, 65535, b⟩] = [⟨1, 65535, b⟩] := by simp [kind]
  have htext : joinRanges (rangeTexts [⟨1, 65535, b⟩]) = allPorts := by cases b <;> decide +kernel
  have hok := summaryOk_kind hall t (b := b) (by simp [hkind]) (by rw [hkind, htext]; decide)
  rwa [hkind, htext] at hok

/-- The accepted ranges are cut at a comma when they are too long. -/
theorem summaryOk_cut (h : RangesOk rs acc) {t : RangeTexts}
    (hlong : tooLong (joinRanges (rangeTexts (kind true rs))))
    (hboth : tooLong (joinRanges t.rejects) ∧ tooLong (joinRanges t.accepts)) :
    ∃ c, commaBefore (joinRanges (rangeTexts (kind true rs))) (MAX_EXITPOLICY_SUMMARY_LEN - acceptPrefix.length - 1) = some c ∧
      SummaryOk t acc (acceptPrefix ++ ' ' :: (joinRanges (rangeTexts (kind true rs))).take c) := by
  have hok := h.kind_ok true
  -- the first range has at most eleven characters, so a second one follows it
  have hfirst : ∃ j ≤ 993, (joinRanges (rangeTexts (kind true rs)))[j]? = some ',' := by
    have hlong : (joinRanges (rangeTexts (kind true rs))).length > 993 := hlong
    rcases hk : kind true rs with _ | ⟨r, _ | ⟨r', rest⟩⟩
    · rw [hk] at hlong
      cases hlong
    · rw [hk, rangeTexts, List.map_singleton, joinRanges_singleton] at hlong
      have hlen := rangeText_length (hok r (by simp [hk]))
      omega
    · have hlen := rangeText_length (hok r (by simp [hk]))
      refine ⟨(rangeText r.lo r.hi).length, by omega, ?_⟩
      rw [rangeTexts, List.map_cons, List.map_cons, joinRanges_cons]
      simp
  obtain ⟨c, hc, hfound, hcomma⟩ := commaBefore_spec hfirst
  refine ⟨c, hfound, ?_⟩
  have hsplit : joinRanges (rangeTexts (kind true rs)) = (joinRanges (rangeTexts (kind true rs))).take c ++
      ',' :: (joinRanges (rangeTexts (kind true rs))).drop (c + 1) := by
    rw [← drop_eq_cons hcomma, List.take_append_drop]
  obtain ⟨some, rest, hkind, hne, htext⟩ := joinRanges_cut hsplit
  have hlen : ((joinRanges (rangeTexts (kind true rs))).take c).length ≤ 993 := Nat.le_trans (List.length_take_le _ _) hc
  rw [htext] at hlen ⊢
  refine ⟨?_, _, parseShortPolicy_join true hne (fun r hr => hok r (hkind ▸ List.mem_append_left rest hr)) ?_,
    fun p hlo hhi => ⟨h.shortAccepts_some hlo hhi hkind, fun hnot => absurd hboth hnot⟩⟩
  · rw [List.length_append, List.length_cons, MAX_EXITPOLICY_SUMMARY_LEN, acceptPrefix]
    simp only [List.length_cons, List.length_nil]
    omega
  · rw [MAX_EXITPOLICY_SUMMARY_LEN]
    omega

theorem summaryText_spec (h : RangesOk rs acc) :
    ∃ result, summaryText ⟨rangeTexts (kind true rs), rangeTexts (kind false rs)⟩ = some result ∧
      SummaryOk ⟨rangeTexts (kind true rs), rangeTexts (kind false rs)⟩ acc result := by
  have hnil : ∀ {b}, rangeTexts (kind b rs) = [] ↔ kind b rs = [] := fun {b} => List.map_eq_nil_iff
  unfold summaryText
  split
  next hempty => exact ⟨_, rfl, summaryOk_all (b := false) h _ (hnil.mp hempty)⟩
  next haccepts =>
    split
    next hempty => exact ⟨_, rfl, summaryOk_all (b := true) h _ (hnil.mp hempty)⟩
    next hrejects =>
      have haccepts := fun e => haccepts (hnil.mpr e)
      have hrejects := fun e => hrejects (hnil.mpr e)
      dsimp only
      split
      next hlong =>
        obtain ⟨c, hc, hok⟩ := summaryOk_cut h (t := ⟨rangeTexts (kind true rs), rangeTexts (kind false rs)⟩) hlong.2 hlong
        exact ⟨_, by rw [hc]; rfl, hok⟩
      next hlong =>
        split
        next hlt =>
          refine ⟨_, rfl, summaryOk_kind (b := false) h _ hrejects fun hr => hlong ⟨hr, ?_⟩⟩
          exact Nat.lt_trans hr hlt
        next hle =>
          refine ⟨_, rfl, summaryOk_kind (b := true) h _ haccepts fun ha => hlong ⟨?_, ha⟩⟩
          exact Nat.lt_of_lt_of_le ha (Nat.not_lt.mp hle)

/-! ## What a policy accepts -/

variable (family : SaFamily)

/-- An entry that accepts the port at every address of the family. -/
def acceptsAt (p : Nat) (e : AddrPolicy) : Bool :=
  e.policyType = .ADDR_POLICY_ACCEPT ∧ torAddrFamily e.addr = family ∧ e.maskbits = 0 ∧ covers e p

/-- An entry that rejects the port in a network of the family, and not a private one. -/
def rejectsAt (p : Nat) (e : AddrPolicy) : Bool :=
  e.policyType = .ADDR_POLICY_REJECT ∧ torAddrFamily e.addr = family ∧ ¬ isPrivateEntry e ∧ covers e p

variable (policy : List AddrPolicy) (p : Nat)

/-- The saturating sum of the addresses that entries reject. -/
def rejectedSum : Nat :=
  min UINT64_MAX.toNat ((policy.filter (rejectsAt family p)).map fun e => (rejectedCount e).toNat).sum

/-- An entry accepts the port everywhere, and not too many addresses have been rejected before it. -/
def PolicyAccepts (family : SaFamily) (p : Nat) : Prop :=
  ∃ pre e post, policy = pre ++ e :: post ∧ acceptsAt family p e = true ∧
    rejectedSum family pre p ≤ (familyRejectCount family).toNat

theorem satAdd_toNat (a b : UInt64) : (satAdd a b).toNat = min UINT64_MAX.toNat (a.toNat + b.toNat) := by
  have ha := a.toNat_lt
  have hb := b.toNat_lt
  have hmax : UINT64_MAX.toNat = 2 ^ 64 - 1 := rfl
  have hsub : (UINT64_MAX - b).toNat = 2 ^ 64 - 1 - b.toNat := by
    rw [UInt64.toNat_sub_of_le _ _ (UInt64.le_iff_toNat_le.mpr (by omega)), hmax]
  unfold satAdd
  split
  next hle =>
    have hle := UInt64.le_iff_toNat_le.mp hle
    rw [UInt64.toNat_add, hmax]
    omega
  next hlt =>
    have hlt := UInt64.lt_iff_toNat_lt.mp (UInt64.not_le.mp hlt)
    omega

theorem portState_snoc (e : AddrPolicy) (p : Nat) :
    portState family (policy ++ [e]) p = portStep family p (portState family policy p) e := by
  simp [portState]

theorem portStep_eq (st : UInt64 × Bool) (e : AddrPolicy) :
    portStep family p st e = (if rejectsAt family p e then satAdd st.1 (rejectedCount e) else st.1,
      st.2 || (acceptsAt family p e && decide (st.1 ≤ familyRejectCount family))) := by
  unfold portStep
  split
  next h =>
    have hrejects : rejectsAt family p e = false :=
      decide_eq_false fun hr => h.elim (fun hf => hf hr.2.1) fun hc => hc hr.2.2.2
    have haccepts : acceptsAt family p e = false :=
      decide_eq_false fun hr => h.elim (fun hf => hf hr.2.1) fun hc => hc hr.2.2.2
    simp [hrejects, haccepts]
  next h =>
    simp only [not_or, Classical.not_not] at h
    cases htype : e.policyType with
    | ADDR_POLICY_ACCEPT =>
      dsimp only
      split
      next hb => simp [rejectsAt, acceptsAt, htype, hb, h.1, h.2]
      next hb => simp [rejectsAt, acceptsAt, htype, hb]
    | ADDR_POLICY_REJECT =>
      dsimp only
      split
      next hp => simp [rejectsAt, acceptsAt, htype, hp]
      next hp => simp [rejectsAt, acceptsAt, htype, hp, h.1, h.2]

theorem portState_count : (portState family policy p).1.toNat = rejectedSum family policy p := by
  induction policy using List.reverseRecOn with
  | nil => rfl
  | append_singleton policy e ih =>
    rw [portState_snoc, portStep_eq]
    split
    next h =>
      rw [satAdd_toNat, ih]
      unfold rejectedSum
      rw [List.filter_append, List.map_append, List.sum_append]
      simp only [h, List.filter_cons_of_pos, List.filter_nil, List.map_cons, List.map_nil, List.sum_cons, List.sum_nil]
      omega
    next h =>
      rw [ih]
      unfold rejectedSum
      rw [List.filter_append, List.filter_cons_of_neg h, List.filter_nil, List.append_nil]

theorem portState_accepted : (portState family policy p).2 = true ↔ PolicyAccepts policy family p := by
  induction policy using List.reverseRecOn with
  | nil =>
    refine ⟨nofun, fun ⟨pre, e, post, h, _⟩ => ?_⟩
    cases pre <;> cases h
  | append_singleton policy e ih =>
    have hcount : (portState family policy p).1 ≤ familyRejectCount family ↔
        rejectedSum family policy p ≤ (familyRejectCount family).toNat := by
      rw [UInt64.le_iff_toNat_le, portState_count]
    rw [portState_snoc, portStep_eq, Bool.or_eq_true, ih, Bool.and_eq_true, decide_eq_true_eq, hcount]
    constructor
    · intro h
      rcases h with ⟨pre, e', post, rfl, hacc, hsum⟩ | ⟨hacc, hsum⟩
      · exact ⟨pre, e', post ++ [e], by simp, hacc, hsum⟩
      · exact ⟨policy, e, [], rfl, hacc, hsum⟩
    · intro ⟨pre, e', post, hp, hacc, hsum⟩
      rcases List.eq_nil_or_concat' post with rfl | ⟨post, last, rfl⟩
      · obtain ⟨rfl, he⟩ := List.append_inj' hp rfl
        cases he
        exact .inr ⟨hacc, hsum⟩
      · rw [← List.cons_append, ← List.append_assoc] at hp
        obtain ⟨rfl, -⟩ := List.append_inj' hp rfl
        exact .inl ⟨pre, e', post, rfl, hacc, hsum⟩

/-! ## Summaries -/

/-- The ranges of a partition say what it says. -/
theorem mergeRanges_spec {items : List PolicySummaryItem} {f : Nat → UInt64 × Bool} (hpart : Partition items f) :
    ∃ rs, mergeRanges items ⟨[], []⟩ 1 0 = some ⟨rangeTexts (kind true rs), rangeTexts (kind false rs)⟩ ∧
      RangesOk rs fun p => (f p).2 := by
  obtain ⟨hitems, hf⟩ := hpart
  cases items with
  | nil => cases hitems
  | cons item rest =>
    obtain ⟨hin, hcover⟩ := rangesOf_spec hitems hf (Nat.le_refl 1) fun p hp hp' => by omega
    refine ⟨rangesOf 1 (item :: rest), ?_, fun r hr => ?_, fun r hr => (hin r hr).2.2.2, hcover⟩
    · have hmerge : mergeRanges ([] ++ item :: rest) ⟨[], []⟩ 1 ([] : List PolicySummaryItem).length = _ := mergeRanges_eq
      exact hmerge
    · obtain ⟨h1, h2, h3, -⟩ := hin r hr
      exact ⟨h1, h2, Nat.le_of_lt_succ h3⟩

/-- An IPv4 network has at most 2^32 addresses. -/
theorem rejectedCount_le {e : AddrPolicy} (h : torAddrFamily e.addr = .AF_INET) : (rejectedCount e).toNat ≤ 2 ^ 32 := by
  unfold rejectedCount
  rw [h]
  dsimp only
  split
  · decide
  · have hbits : addrbits .AF_INET - scale .AF_INET - e.maskbits.toNat ≤ 32 := Nat.sub_le 32 _
    rw [networkCount_toNat (by omega)]
    exact Nat.pow_le_pow_right (by decide) hbits

theorem rejectedSum_le : rejectedSum .AF_INET policy p ≤ policy.length * 2 ^ 32 := by
  have hsum : ∀ l : List AddrPolicy, (∀ e ∈ l, torAddrFamily e.addr = .AF_INET) →
      (l.map fun e => (rejectedCount e).toNat).sum ≤ l.length * 2 ^ 32 := by
    intro l hl
    induction l with
    | nil => exact Nat.le_refl 0
    | cons e l ih =>
      have hcount := rejectedCount_le (hl e List.mem_cons_self)
      have ih := ih fun e' he' => hl e' (List.mem_cons_of_mem e he')
      rw [List.map_cons, List.sum_cons, List.length_cons, Nat.succ_mul]
      omega
  have hfilter := hsum (policy.filter (rejectsAt .AF_INET p)) fun e he => (of_decide_eq_true (List.mem_filter.mp he).2).2.1
  calc rejectedSum .AF_INET policy p
      ≤ ((policy.filter (rejectsAt .AF_INET p)).map fun e => (rejectedCount e).toNat).sum := Nat.min_le_right _ _
    _ ≤ (policy.filter (rejectsAt .AF_INET p)).length * 2 ^ 32 := hfilter
    _ ≤ policy.length * 2 ^ 32 := Nat.mul_le_mul_right _ (List.length_filter_le _ _)

/-- No other assertion fails either, for prefixes of their family in a list that fits into memory. -/
theorem summarizeEntries_no_bug {policy : List AddrPolicy} {family : SaFamily} {summary : Summary}
    (hfamily : family ≠ .AF_UNSPEC) (hports : ∀ e ∈ policy, PortsOk e.prtMin e.prtMax)
    (hmasks : ∀ e ∈ policy, MaskFits e.addr e.maskbits.toNat) (hlen : policy.length < 2 ^ 32)
    (h : summarizeEntries policy family = some summary) : summary.bug = false := by
  obtain ⟨summary', hs, -, hbug⟩ := summarizeEntries_spec policy family hports
  rw [h] at hs
  cases hs
  by_contra hb
  obtain ⟨pre, e, post, rfl, hf, hsrc⟩ := hbug (by simpa using hb)
  have hmask := hmasks e (by simp)
  unfold MaskFits at hmask
  rcases hsrc with hunspec | hfit | ⟨hinet, p, hover⟩
  · exact hfamily (hf.symm.trans hunspec)
  · cases hfe : torAddrFamily e.addr with
    | AF_UNSPEC => exact hfamily (hf.symm.trans hfe)
    | AF_INET | AF_INET6 =>
      rw [hfe] at hmask hfit
      exact Nat.not_lt.mpr hmask hfit
  · subst hf
    refine hover (UInt64.le_iff_toNat_le.mpr ?_)
    have hcount := rejectedCount_le hinet
    have hsum := rejectedSum_le pre p
    have hmax : UINT64_MAX.toNat = 2 ^ 64 - 1 := rfl
    rw [List.length_append, List.length_cons] at hlen
    rw [portState_count, UInt64.toNat_sub_of_le _ _ (UInt64.le_iff_toNat_le.mpr (by omega)), hinet, hmax]
    omega

/-- `policy_summarize` fails no assertion; its text is short, and read as accepting the ports that the policy
accepts, or some of these when both lists of ranges are too long. -/
theorem policySummarize_agrees (policy : List AddrPolicy) (family : SaFamily) (hfamily : family ≠ .AF_UNSPEC)
    (hports : ∀ e ∈ policy, PortsOk e.prtMin e.prtMax) :
    (∃ texts result sp, summaryRanges policy family = some texts ∧ policySummarize policy family = some result ∧
      result.length ≤ 1000 ∧ parseShortPolicy result = some sp ∧
      ∀ (rejectsInternal : TorAddr → Bool) (p : UInt16), p ≠ 0 →
        (compareTorAddrToShortPolicy rejectsInternal none p sp = some .ADDR_POLICY_PROBABLY_ACCEPTED →
          PolicyAccepts policy family p.toNat) ∧
        (¬ (tooLong (joinRanges texts.rejects) ∧ tooLong (joinRanges texts.accepts)) →
          (compareTorAddrToShortPolicy rejectsInternal none p sp = some .ADDR_POLICY_PROBABLY_ACCEPTED ↔
            PolicyAccepts policy family p.toNat))) ∧
    ((∀ e ∈ policy, MaskFits e.addr e.maskbits.toNat) → policy.length < 2 ^ 32 →
      ∀ summary, summarizeEntries policy family = some summary → summary.bug = false) := by
  refine ⟨?_, fun hmasks hlen summary => summarizeEntries_no_bug hfamily hports hmasks hlen⟩
  obtain ⟨summary, hsummary, hpart, -⟩ := summarizeEntries_spec policy family hports
  obtain ⟨rs, hrs, hok⟩ := mergeRanges_spec hpart
  obtain ⟨result, hresult, hlen, sp, hsp, htells⟩ := summaryText_spec hok
  have hranges : summaryRanges policy family = some ⟨rangeTexts (kind true rs), rangeTexts (kind false rs)⟩ := by
    rw [summaryRanges, hsummary, Option.bind_some, hrs]
  refine ⟨_, result, sp, hranges, ?_, hlen, hsp, fun rejectsInternal p hp => ?_⟩
  · rw [policySummarize, hranges, Option.bind_some, hresult]
  · have hpos : 1 ≤ p.toNat := Nat.pos_of_ne_zero fun e => hp (UInt16.toNat_inj.mp e)
    obtain ⟨hsub, hexact⟩ := htells p.toNat hpos p.toNat_lt
    rw [compareTorAddrToShortPolicy_eq rejectsInternal hp, ← portState_accepted]
    exact ⟨hsub, fun hlong => by rw [hexact hlong]⟩

/-- `reject *4:25` and `accept *4:*` are summarized as `reject 25`. -/
theorem policySummarize_agrees_of_mail :
    let policy : List AddrPolicy :=
      [⟨.ADDR_POLICY_REJECT, false, 0, .inet 0, 25, 25⟩, ⟨.ADDR_POLICY_ACCEPT, false, 0, .inet 0, 1, 65535⟩]
    policySummarize policy .AF_INET = some "reject 25".toList ∧
      ¬ PolicyAccepts policy .AF_INET 25 ∧ PolicyAccepts policy .AF_INET 80 := by
  intro policy
  have hports : ∀ e ∈ policy, PortsOk e.prtMin e.prtMax := by decide
  obtain ⟨⟨texts, result, sp, htexts, hresult, -, hsp, htells⟩, -⟩ := policySummarize_agrees policy .AF_INET (by decide) hports
  have hsummary : policySummarize policy .AF_INET = some "reject 25".toList := by decide +kernel
  have hranges : summaryRanges policy .AF_INET = some ⟨["1-24".toList, "26-65535".toList], ["25".toList]⟩ := by
    decide +kernel
  have hparsed : parseShortPolicy "reject 25".toList = some ⟨false, [(25, 25)]⟩ := by decide +kernel
  rw [hsummary] at hresult
  cases hresult
  rw [hparsed] at hsp
  cases hsp
  rw [hranges] at htexts
  cases htexts
  have hshort : ¬ (tooLong (joinRanges ["25".toList]) ∧ tooLong (joinRanges ["1-24".toList, "26-65535".toList])) := by
    decide +kernel
  have h25 := (htells (fun _ => false) 25 (by decide)).2 hshort
  have h80 := (htells (fun _ => false) 80 (by decide)).2 hshort
  exact ⟨hsummary, fun h => absurd (h25.mpr h) (by decide), h80.mp (by decide)⟩

end Badnet.Policies

/-
  Badnet.Consdiff.GenEdDiff — `gen_ed_diff` of `feature/dircommon/consdiff.c`.

  The generator walks two consensuses router by router, in the order of the identity hashes, cuts both at the routers
  they share, and marks in each pair of slices the lines that are gone and the lines that are new (`calcChanges`). Each
  run of marked lines becomes one ed command (`edScript`). The source writes the marks into two bit arrays; here each
  call returns the marks of its slices. The lines left unmarked are the same in both consensuses (`walk_aligned`).
-/

import Badnet.Encoding.Decimal
import Badnet.Lib.Marks

namespace Badnet.Consdiff

open Encoding Lib

/-- `cdline_t`: the bytes of a line, without its newline. -/
abbrev Line := Text

/-! ## Longest common subsequences -/

/-- The inner loop of `lcs_lengths` for one line of the first slice: `prev` from position `j` on, and
    `result[j]`. -/
def lcsRow (line1 : Line) : List Line → List Nat → Nat → List Nat
  | line2 :: slice2, p :: p' :: prev, left =>
    let r := if line1 = line2 then p + 1 else max left p'
    r :: lcsRow line1 slice2 (p' :: prev) r
  | _, _, _ => []

/-- `lcs_lengths` in the direction 1; the direction -1 is that of the reversed slices. -/
def lcsLengths (slice1 slice2 : List Line) : List Nat :=
  slice1.foldl (fun result line1 => result.headD 0 :: lcsRow line1 slice2 result (result.headD 0))
    (List.replicate (slice2.length + 1) 0)

/-- The loop of `optimal_column_to_split`: the column and `max_sum`. -/
def bestColumn (lensTop lensBot : List Nat) (len : Nat) (best : Nat × Int) (i : Nat) : Nat × Int :=
  let sum : Int := lensTop.getD i 0 + lensBot.getD (len - i) 0
  if sum > best.2 then (i, sum) else best

def optimalColumnToSplit (top bot slice2 : List Line) : Nat :=
  let lensTop := lcsLengths top slice2
  let lensBot := lcsLengths bot.reverse slice2.reverse
  ((List.range (slice2.length + 1)).foldl (bestColumn lensTop lensBot slice2.length) (0, -1)).1

/-! ## Marking the changes -/

/-- How many lines are equal at the start of both slices. -/
def equalAtStart : List Line → List Line → Nat
  | x :: xs, y :: ys => if x = y then equalAtStart xs ys + 1 else 0
  | _, _ => 0

/-- Two slices after `trim_slices`, and how many lines it took off their starts and ends. -/
structure Trimmed where
  front : Nat
  back : Nat
  slice1 : List Line
  slice2 : List Line

def trimSlices (slice1 slice2 : List Line) : Trimmed :=
  let front := equalAtStart slice1 slice2
  let slice1 := slice1.drop front
  let slice2 := slice2.drop front
  let back := equalAtStart slice1.reverse slice2.reverse
  { front, back, slice1 := slice1.take (slice1.length - back), slice2 := slice2.take (slice2.length - back) }

/-- `set_changed`, for a first slice of at most one line. `toskip` is the position in the second slice of the
    line they share. -/
def setChanged (slice1 slice2 : List Line) : List Bool × List Bool :=
  match slice1 with
  | [] => ([], List.replicate slice2.length true)
  | lineCommon :: _ =>
    let toskip := slice2.findIdx? (· = lineCommon)
    ([toskip.isNone], (List.range slice2.length).map fun i => some i != toskip)

theorem length_trimmed (slice1 slice2 : List Line) : (trimSlices slice1 slice2).slice1.length ≤ slice1.length := by
  simp only [trimSlices, List.length_take, List.length_drop]
  omega

/-- `calc_changes`: the marks of the two slices. -/
def calcChanges (slice1 slice2 : List Line) : List Bool × List Bool :=
  let t := trimSlices slice1 slice2
  let changed :=
    if t.slice1.length ≤ 1 then setChanged t.slice1 t.slice2
    else if t.slice2.length ≤ 1 then (setChanged t.slice2 t.slice1).swap
    else
      let mid := t.slice1.length / 2
      let mid2 := optimalColumnToSplit (t.slice1.take mid) (t.slice1.drop mid) t.slice2
      let top := calcChanges (t.slice1.take mid) (t.slice2.take mid2)
      let bot := calcChanges (t.slice1.drop mid) (t.slice2.drop mid2)
      (top.1 ++ bot.1, top.2 ++ bot.2)
  (List.replicate t.front false ++ changed.1 ++ List.replicate t.back false,
   List.replicate t.front false ++ changed.2 ++ List.replicate t.back false)
termination_by slice1.length
decreasing_by
  all_goals
    have hle := length_trimmed slice1 slice2
    have hlong : ¬ (trimSlices slice1 slice2).slice1.length ≤ 1 := by assumption
    simp only [List.length_take, List.length_drop]
    omega

theorem equalAtStart_spec (xs ys : List Line) :
    ∃ pre, pre.length = equalAtStart xs ys ∧ xs = pre ++ xs.drop (equalAtStart xs ys) ∧
      ys = pre ++ ys.drop (equalAtStart xs ys) := by
  fun_induction equalAtStart xs ys with
  | case1 xs x ys ih =>
    obtain ⟨pre, hlen, hxs, hys⟩ := ih
    refine ⟨x :: pre, by simp [hlen], ?_, ?_⟩
    · rw [List.drop_succ_cons, List.cons_append, ← hxs]
    · rw [List.drop_succ_cons, List.cons_append, ← hys]
  | case2 => exact ⟨[], rfl, rfl, rfl⟩
  | case3 => exact ⟨[], rfl, by simp, by simp⟩

/-- What is trimmed is the same at the start and at the end of both slices. -/
theorem trimSlices_spec (slice1 slice2 : List Line) :
    ∃ pre post, pre.length = (trimSlices slice1 slice2).front ∧ post.length = (trimSlices slice1 slice2).back ∧
      slice1 = pre ++ (trimSlices slice1 slice2).slice1 ++ post ∧
      slice2 = pre ++ (trimSlices slice1 slice2).slice2 ++ post := by
  obtain ⟨pre, hpre, h1, h2⟩ := equalAtStart_spec slice1 slice2
  obtain ⟨post, hpost, h3, h4⟩ := equalAtStart_spec (slice1.drop (equalAtStart slice1 slice2)).reverse
    (slice2.drop (equalAtStart slice1 slice2)).reverse
  have h5 := congrArg List.reverse h3
  have h6 := congrArg List.reverse h4
  rw [List.reverse_reverse, List.reverse_append, List.drop_reverse, List.reverse_reverse] at h5 h6
  refine ⟨pre, post.reverse, hpre, by rw [List.length_reverse, hpost]; rfl, ?_, ?_⟩ <;> simp only [trimSlices]
  · rw [List.append_assoc, ← h5, ← h1]
  · rw [List.append_assoc, ← h6, ← h2]

theorem setChanged_aligned {slice1 : List Line} (h : slice1.length ≤ 1) (slice2 : List Line) :
    Aligned (setChanged slice1 slice2).1 slice1 (setChanged slice1 slice2).2 slice2 := by
  rcases slice1 with _ | ⟨line, rest⟩
  · exact ⟨rfl, by simp [setChanged], by simp [setChanged, kept_all]⟩
  obtain rfl : rest = [] := by simpa using h
  refine ⟨rfl, by simp [setChanged], ?_⟩
  simp only [setChanged]
  rcases hpos : slice2.findIdx? (· = line) with _ | k
  · -- the line is gone, and all of the second slice is new
    have hall : ((List.range slice2.length).map fun i => some i != none) = List.replicate slice2.length true := by
      have hconst : (fun i : Nat => some i != none) = fun _ => true := by
        funext i
        rfl
      rw [hconst, List.map_const', List.length_range]
    rw [hall, kept_all]
    rfl
  · obtain ⟨hk, hline, -⟩ := List.findIdx?_eq_some_iff_getElem.mp hpos
    have hsplit : slice2 = slice2.take k ++ line :: slice2.drop (k + 1) := by
      have hline : slice2[k] = line := by simpa using hline
      rw [← hline, List.cons_getElem_drop_succ, List.take_append_drop]
    have hlen : (slice2.take k).length = k := by
      rw [List.length_take]
      omega
    have hkept := kept_all_but_one (slice2.take k) line (slice2.drop (k + 1))
    rw [← hsplit, hlen] at hkept
    rw [hkept]
    rfl

/-- What holds of short slices and is kept by putting back what was trimmed and by the split of `calc_changes` holds of
the marks of any slices. -/
theorem calcChanges_rule {P : List Line → List Line → List Bool × List Bool → Prop}
    (trimmed : ∀ pre xs ys post changed, P xs ys changed → P (pre ++ xs ++ post) (pre ++ ys ++ post)
      (List.replicate pre.length false ++ changed.1 ++ List.replicate post.length false,
        List.replicate pre.length false ++ changed.2 ++ List.replicate post.length false))
    (few : ∀ xs ys, xs.length ≤ 1 → P xs ys (setChanged xs ys))
    (swapped : ∀ xs ys, ys.length ≤ 1 → P xs ys (setChanged ys xs).swap)
    (split : ∀ xs xs' ys changed changed', P xs (ys.take (optimalColumnToSplit xs xs' ys)) changed →
      P xs' (ys.drop (optimalColumnToSplit xs xs' ys)) changed' →
      P (xs ++ xs') ys (changed.1 ++ changed'.1, changed.2 ++ changed'.2))
    (slice1 slice2 : List Line) : P slice1 slice2 (calcChanges slice1 slice2) := by
  induction hn : slice1.length using Nat.strong_induction_on generalizing slice1 slice2 with
  | _ n ih =>
    subst hn
    obtain ⟨pre, post, hpre, hpost, h1, h2⟩ := trimSlices_spec slice1 slice2
    have hle := length_trimmed slice1 slice2
    -- the trimmed ends stay unmarked; what is between them is marked in one of three ways
    have around : ∀ {changed : List Bool × List Bool},
        P (trimSlices slice1 slice2).slice1 (trimSlices slice1 slice2).slice2 changed →
        P slice1 slice2 (List.replicate (trimSlices slice1 slice2).front false ++ changed.1 ++
            List.replicate (trimSlices slice1 slice2).back false,
          List.replicate (trimSlices slice1 slice2).front false ++ changed.2 ++
            List.replicate (trimSlices slice1 slice2).back false) := by
      intro changed h
      have hal := trimmed pre _ _ post changed h
      rwa [← h1, ← h2, hpre, hpost] at hal
    rw [calcChanges]
    apply around
    by_cases hs1 : (trimSlices slice1 slice2).slice1.length ≤ 1
    · rw [if_pos hs1]
      exact few _ _ hs1
    rw [if_neg hs1]
    by_cases hs2 : (trimSlices slice1 slice2).slice2.length ≤ 1
    · rw [if_pos hs2]
      exact swapped _ _ hs2
    rw [if_neg hs2]
    have hboth := split ((trimSlices slice1 slice2).slice1.take ((trimSlices slice1 slice2).slice1.length / 2))
      ((trimSlices slice1 slice2).slice1.drop ((trimSlices slice1 slice2).slice1.length / 2))
      (trimSlices slice1 slice2).slice2 _ _
      (ih _ (by rw [List.length_take]; omega) _ _ rfl) (ih _ (by rw [List.length_drop]; omega) _ _ rfl)
    rwa [List.take_append_drop] at hboth

/-- The lines `calc_changes` leaves unmarked are the same in both slices. -/
theorem calcChanges_aligned (slice1 slice2 : List Line) :
    Aligned (calcChanges slice1 slice2).1 slice1 (calcChanges slice1 slice2).2 slice2 := by
  refine calcChanges_rule (P := fun xs ys changed => Aligned changed.1 xs changed.2 ys) ?_ ?_ ?_ ?_ slice1 slice2
  · intro pre xs ys post changed h
    exact ((Aligned.unmarked pre).append h).append (Aligned.unmarked post)
  · intro xs ys h
    exact setChanged_aligned h ys
  · intro xs ys h
    exact (setChanged_aligned h xs).symm
  · intro xs xs' ys changed changed' htop hbot
    have hboth := htop.append hbot
    rwa [List.take_append_drop] at hboth

/-! ## Router lines -/

/-- `base64_compare_table`: the value of a character, 255 when it is none of the alphabet. -/
def base64CompareTable (c : Char) : Nat :=
  let i := base64EncodeTable.idxOf c
  if i < 64 then i else 255

def notValidBase64 : Nat := 255

def getIdHash (line : Line) : Option Line :=
  if line.length < 2 then none
  else match (line.drop 2).dropWhile (· ≠ ' ') with
    | [] => none
    | _ :: hash =>
      let hash := hash.takeWhile fun c => base64CompareTable c ≠ notValidBase64
      if hash = [] then none else some hash

def isValidRouterEntry (line : Line) : Bool := line.take 2 == ['r', ' '] && (getIdHash line).isSome

variable (cons : List Line)

/-- `next_router`: the first router line after `cur`, or the length. -/
def nextRouter (cur : Int) : Int :=
  let from_ := (cur + 1).toNat
  from_ + (cons.drop from_).findIdx isValidRouterEntry

/-- The loop of `base64cmp` on two hashes that are not NULL. -/
def base64cmpLoop : Line → Line → Int
  | a :: as, b :: bs =>
    let av := base64CompareTable a
    let bv := base64CompareTable b
    if av = notValidBase64 then (if bv = notValidBase64 then 0 else -1)
    else if bv = notValidBase64 then 1
    else if av < bv then -1
    else if bv < av then 1
    else match as, bs with
      | [], [] => 0
      | [], _ :: _ => -1
      | _ :: _, [] => 1
      | _ :: _, _ :: _ => base64cmpLoop as bs
  | [], [] => 0
  | [], _ :: _ => -1
  | _ :: _, [] => 1

def base64cmp : Option Line → Option Line → Int
  | none, none => 0
  | none, some _ => -1
  | some _, none => 1
  | some a, some b => base64cmpLoop a b

/-- A position in a consensus, and `iter.hash`: the hash of the last router line found. -/
structure Cursor where
  i : Int
  hash : Option Line
deriving DecidableEq

/-- `find_next_router_line`; `none` when the hashes are out of order. -/
def findNextRouterLine (c : Cursor) : Option Cursor :=
  let i := nextRouter cons c.i
  if i < cons.length then
    match getIdHash (cons.getD i.toNat []) with
    | none => none
    | some hash => if base64cmp (some hash) c.hash ≤ 0 then none else some { i, hash := some hash }
  else some { c with i }

theorem lt_nextRouter (cur : Int) : cur < nextRouter cons cur := by
  simp only [nextRouter]
  omega

theorem nextRouter_le {cur : Int} (h : cur < cons.length) : nextRouter cons cur ≤ cons.length := by
  have hle : (cons.drop (cur + 1).toNat).findIdx isValidRouterEntry ≤ (cons.drop (cur + 1).toNat).length :=
    List.findIdx_le_length
  rw [List.length_drop] at hle
  simp only [nextRouter]
  omega

/-- A router line found is past the position, and not past the end. -/
theorem findNextRouterLine_spec {cons : List Line} {c c' : Cursor} (h : findNextRouterLine cons c = some c')
    (hhi : c.i < cons.length) : c.i < c'.i ∧ c'.i ≤ cons.length := by
  have hlt := lt_nextRouter cons c.i
  have hle := nextRouter_le cons hhi
  simp only [findNextRouterLine] at h
  split at h
  · split at h
    · cases h
    · split at h
      · cases h
      · cases h
        exact ⟨hlt, hle⟩
  · cases h
    exact ⟨hlt, hle⟩

/-! ## The walk -/

/-- The inner loop: advance the lower position until the hashes meet, or one consensus ends. -/
def catchUp (cons1 cons2 : List Line) (c1 c2 : Cursor) : Option (Cursor × Cursor) :=
  let cmp := base64cmp c1.hash c2.hash
  if cmp = 0 then some (c1, c2)
  else if c1.i < cons1.length ∧ cmp < 0 then
    match _h : findNextRouterLine cons1 c1 with
    | none => none
    | some c1' =>
      if c1'.i = cons1.length then some (c1', { c2 with i := cons2.length }) else catchUp cons1 cons2 c1' c2
  else if c2.i < cons2.length ∧ cmp > 0 then
    match _h : findNextRouterLine cons2 c2 with
    | none => none
    | some c2' =>
      if c2'.i = cons2.length then some ({ c1 with i := cons1.length }, c2') else catchUp cons1 cons2 c1 c2'
  else some ({ c1 with i := cons1.length }, { c2 with i := cons2.length })
termination_by (cons1.length - c1.i).toNat + (cons2.length - c2.i).toNat
decreasing_by
  · have := findNextRouterLine_spec _h (by omega)
    omega
  · have := findNextRouterLine_spec _h (by omega)
    omega

/-- A position that only moves on, and is set to the end at most. -/
def Onward (len : Nat) (i j : Int) : Prop := (i ≤ j ∨ j = len) ∧ (j ≤ len ∨ j = i)

variable {cons1 cons2 : List Line} {c1 c2 : Cursor}

theorem catchUp_onward {d1 d2 : Cursor} (h : catchUp cons1 cons2 c1 c2 = some (d1, d2)) :
    Onward cons1.length c1.i d1.i ∧ Onward cons2.length c2.i d2.i := by
  simp only [Onward]
  fun_induction catchUp cons1 cons2 c1 c2 with
  | case1 c1 c2 cmp h0 =>
    cases h
    omega
  | case2 => cases h
  | case3 c1 c2 cmp h0 hlt d hd hend =>
    have := findNextRouterLine_spec hd hlt.1
    cases h
    dsimp only
    omega
  | case4 c1 c2 cmp h0 hlt d hd hend ih =>
    have := findNextRouterLine_spec hd hlt.1
    have := ih h
    omega
  | case5 => cases h
  | case6 c1 c2 cmp h0 hlt hlt' d hd hend =>
    have := findNextRouterLine_spec hd hlt'.1
    cases h
    dsimp only
    omega
  | case7 c1 c2 cmp h0 hlt hlt' d hd hend ih =>
    have := findNextRouterLine_spec hd hlt'.1
    have := ih h
    omega
  | case8 =>
    cases h
    dsimp only
    omega

/-- The advance at the top of the loop, by one router line unless at the end. -/
def advance (c : Cursor) : Option Cursor :=
  if c.i < cons.length then findNextRouterLine cons c else some c

/-- One turn of the walk up to the slices: both positions a router on, and then to the next routers with one
    hash. -/
def nextCut (cons1 cons2 : List Line) (c1 c2 : Cursor) : Option (Cursor × Cursor) := do
  let c1 ← advance cons1 c1
  let c2 ← advance cons2 c2
  if c1.i < cons1.length ∨ c2.i < cons2.length then catchUp cons1 cons2 c1 c2 else some (c1, c2)

theorem advance_onward {cons : List Line} {c d : Cursor} (h : advance cons c = some d) :
    (c.i < cons.length → c.i < d.i) ∧ Onward cons.length c.i d.i := by
  simp only [Onward]
  rw [advance] at h
  split at h
  · next hlt =>
    have := findNextRouterLine_spec h hlt
    omega
  · cases h
    omega

/-- A cut is further on in every consensus that was not at its end. -/
theorem nextCut_onward {d1 d2 : Cursor} (h : nextCut cons1 cons2 c1 c2 = some (d1, d2)) :
    ((c1.i < cons1.length → c1.i < d1.i) ∧ Onward cons1.length c1.i d1.i) ∧
      ((c2.i < cons2.length → c2.i < d2.i) ∧ Onward cons2.length c2.i d2.i) := by
  simp only [nextCut, Option.bind_eq_bind, Option.bind_eq_some_iff] at h
  obtain ⟨e1, he1, e2, he2, h⟩ := h
  have ha1 := advance_onward he1
  have ha2 := advance_onward he2
  split at h
  · have := catchUp_onward h
    simp only [Onward] at *
    omega
  · cases h
    exact ⟨ha1, ha2⟩

def maxLineCount : Int := 10000

/-- `smartlist_slice`. -/
def slice (start end_ : Int) : List Line := (cons.drop start.toNat).take (end_ - start).toNat

/-- The walk: each turn marks the slices up to the next cut. A slice that is too long ends it. -/
def walk (cons1 cons2 : List Line) (c1 c2 : Cursor) (start1 start2 : Int) (changed1 changed2 : List Bool) :
    Option (List Bool × List Bool) :=
  if c1.i < cons1.length ∨ c2.i < cons2.length then
    match _h : nextCut cons1 cons2 c1 c2 with
    | none => none
    | some (d1, d2) =>
      if d1.i - start1 > maxLineCount ∨ d2.i - start2 > maxLineCount then none
      else
        let changed := calcChanges (slice cons1 start1 d1.i) (slice cons2 start2 d2.i)
        walk cons1 cons2 d1 d2 d1.i d2.i (changed1 ++ changed.1) (changed2 ++ changed.2)
  else some (changed1, changed2)
termination_by (cons1.length - c1.i).toNat + (cons2.length - c2.i).toNat
decreasing_by
  have := nextCut_onward _h
  simp only [Onward] at this
  omega

theorem slice_append {start end_ : Int} (h0 : 0 ≤ start) (h : start ≤ end_) :
    cons.take start.toNat ++ slice cons start end_ = cons.take end_.toNat := by
  have he : end_.toNat = start.toNat + (end_ - start).toNat := by omega
  rw [slice, he, List.take_add]

/-- The lines the walk leaves unmarked are the same in both consensuses. -/
theorem walk_aligned {start1 start2 : Int} {ms1 ms2 changed1 changed2 : List Bool}
    (h : walk cons1 cons2 c1 c2 start1 start2 ms1 ms2 = some (changed1, changed2))
    (h1 : c1.i ≤ cons1.length ∧ 0 ≤ start1 ∧ (c1.i = start1 ∨ (c1.i = -1 ∧ start1 = 0)))
    (h2 : c2.i ≤ cons2.length ∧ 0 ≤ start2 ∧ (c2.i = start2 ∨ (c2.i = -1 ∧ start2 = 0)))
    (hal : Aligned ms1 (cons1.take start1.toNat) ms2 (cons2.take start2.toNat)) :
    Aligned changed1 cons1 changed2 cons2 := by
  fun_induction walk cons1 cons2 c1 c2 start1 start2 ms1 ms2 with
  | case1 => cases h
  | case2 => cases h
  | case3 c1 c2 start1 start2 ms1 ms2 hlt d1 d2 hcut hshort changed ih =>
    have hon := nextCut_onward hcut
    simp only [Onward] at hon
    have hnew := hal.append (calcChanges_aligned (slice cons1 start1 d1.i) (slice cons2 start2 d2.i))
    rw [slice_append cons1 h1.2.1 (by omega), slice_append cons2 h2.2.1 (by omega)] at hnew
    exact ih h (by omega) (by omega) hnew
  | case4 c1 c2 start1 start2 ms1 ms2 hend =>
    -- both positions are at the end
    cases h
    have he1 : start1.toNat = cons1.length := by omega
    have he2 : start2.toNat = cons2.length := by omega
    rwa [he1, he2, List.take_length, List.take_length] at hal

/-! ## The script -/

/-- The loops "grab all contiguous changed lines": from the line before position `i` down. -/
def skipChanged (changed : List Bool) : Nat → Nat
  | 0 => 0
  | i + 1 => if changed.getD i false then skipChanged changed i else i + 1

/-- The five forms of a command, for `deleted` lines from `start1x` on and `added` new ones. -/
def edCommand (start1x deleted added : Nat) : Line :=
  if added = 0 then
    if deleted = 1 then decimal (start1x + 1) ++ ['d']
    else decimal (start1x + 1) ++ ',' :: (decimal (start1x + deleted) ++ ['d'])
  else if deleted = 0 then decimal start1x ++ ['a']
  else if deleted = 1 then decimal (start1x + 1) ++ ['c']
  else decimal (start1x + 1) ++ ',' :: (decimal (start1x + deleted) ++ ['c'])

/-- The bit of the line before position `p`. -/
def changedBefore (changed : List Bool) (p : Nat) : Bool := p > 0 && changed.getD (p - 1) false

theorem skipChanged_le (changed : List Bool) (p : Nat) : skipChanged changed p ≤ p := by
  induction p with
  | zero => exact Nat.le_refl _
  | succ p ih =>
    rw [skipChanged]
    split
    · omega
    · exact Nat.le_refl _

theorem skipChanged_lt {changed : List Bool} {p : Nat} (h : changedBefore changed p = true) :
    skipChanged changed p < p := by
  rcases p with _ | p
  · simp [changedBefore] at h
  · have hbit : changed.getD p false = true := by simpa [changedBefore] using h
    rw [skipChanged, if_pos hbit]
    have := skipChanged_le changed p
    omega

/-- Where one of the two lines is marked, one of the two positions moves. -/
theorem skipChanged_moves {changed1 changed2 : List Bool} {p q : Nat}
    (h : ¬ (changedBefore changed1 p = false ∧ changedBefore changed2 q = false)) :
    0 < p - skipChanged changed1 p ∨ 0 < q - skipChanged changed2 q := by
  rcases hb : changedBefore changed1 p
  · rcases hb' : changedBefore changed2 q
    · exact absurd ⟨hb, hb'⟩ h
    · have := skipChanged_lt hb'
      omega
  · have := skipChanged_lt hb
    omega

/-- The loop that reads the marks in reverse order. `p` and `q` are `i1 + 1` and `i2 + 1`; `none` when a line
    to add is ".". -/
def edScript (changed1 changed2 : List Bool) (cons2 : List Line) (p q : Nat) : Option (List Line) :=
  if p = 0 ∧ q = 0 then some []
  else if changedBefore changed1 p = false ∧ changedBefore changed2 q = false then
    edScript changed1 changed2 cons2 (p - 1) (q - 1)
  else
    let start1x := skipChanged changed1 p
    let start2x := skipChanged changed2 q
    let command := edCommand start1x (p - start1x) (q - start2x)
    if q - start2x = 0 then (edScript changed1 changed2 cons2 start1x start2x).map (command :: ·)
    else
      let added := (cons2.drop start2x).take (q - start2x)
      if ∃ line ∈ added, line = ['.'] then none
      else (edScript changed1 changed2 cons2 start1x start2x).map fun script => command :: (added ++ ['.'] :: script)
termination_by p + q
decreasing_by
  · omega
  all_goals
    have hp := skipChanged_le changed1 p
    have hq := skipChanged_le changed2 q
    have hmove := skipChanged_moves ‹¬ (changedBefore changed1 p = false ∧ changedBefore changed2 q = false)›
    omega

def startOfSignaturesSection : Line := "directory-signature ".toList

/-- The first line of the signatures. -/
def dirsigIdx : Option Nat := cons.findIdx? fun line => startOfSignaturesSection.isPrefixOf line

/-- `preprocess_consensus`: the lines without the signatures, and the command that removes these. -/
def preprocessConsensus : List Line × Option Line :=
  match dirsigIdx cons with
  | some idx => (cons.take idx, some (decimal (idx + 1) ++ [',', '$', 'd']))
  | none => (cons, none)

def intMax : Nat := 2147483647

/-- `gen_ed_diff`. A smartlist holds at most INT_MAX lines: `smartlist_add_all` asserts it. -/
def genEdDiff (cons1Orig cons2 : List Line) : Option (List Line) :=
  if intMax < cons1Orig.length then none
  else do
    let (cons1, removeTrailer) := preprocessConsensus cons1Orig
    let (changed1, changed2) ← walk cons1 cons2 { i := -1, hash := none } { i := -1, hash := none } 0 0 [] []
    let script ← edScript changed1 changed2 cons2 cons1.length cons2.length
    some (removeTrailer.toList ++ script)

end Badnet.Consdiff

/-
  Badnet.Consdiff.ApplyEdDiff — `apply_ed_diff` of `feature/dircommon/consdiff.c`, and that it undoes `gen_ed_diff`.

  The applier reads a script of ed commands, in reverse order of their lines, and rebuilds the target from its end. A
  command line is copied into a NUL-terminated array and parsed as a C string. The script `gen_ed_diff` returns rebuilds
  its target (`applyEdDiff_genEdDiff`), unless the base ends with a signatures section of one line.
-/

import Badnet.Consdiff.GenEdDiff

namespace Badnet.Consdiff

open Encoding Lib

/-! ## Applying a script -/

/-- The C string that starts with these bytes. -/
def cstr (s : Text) : Text := s.takeWhile (· ≠ '\x00')

def int32Max : Nat := 2147483647

def getLinenum (s : Text) : Option (Int × Text) :=
  if s.head?.any Char.isDigit then torParseLongNext s 0 int32Max else none

structure Command where
  start : Int
  end_ : Int
  action : Char
deriving DecidableEq, Repr

/-- The range at the start of a command: its ends, whether it had two of them, whether the second was `$`, and
    the rest of the line. -/
def parseRange (len1 : Nat) (line : Text) : Option (Int × Int × Bool × Bool × Text) :=
  match getLinenum line with
  | none => none
  | some (start, ',' :: '$' :: rest) => if len1 ≤ start then none else some (start, len1, true, true, rest)
  | some (start, ',' :: rest) =>
    match getLinenum rest with
    | none => none
    | some (end_, rest) => if end_ ≤ start then none else some (start, end_, true, false, rest)
  | some (start, rest) => some (start, start, false, false, rest)

/-- One command line, with `j` lines of the base still to be taken. -/
def parseCommand (len1 : Nat) (j : Int) (line : Line) : Option Command :=
  if line.length > 127 then none
  else match parseRange len1 (cstr line) with
    | none => none
    | some (start, end_, hadRange, endWasEof, rest) =>
      if j < end_ then none
      else match rest with
        | [action] =>
          if action ≠ 'a' ∧ action ≠ 'c' ∧ action ≠ 'd' then none
          else if endWasEof ∧ action ≠ 'd' then none
          else if hadRange ∧ action = 'a' then none
          else some { start, end_, action }
        | _ => none

/-- The loop over the script. `j` lines of the base are left, and `cons2` is the result so far, last line
    first. -/
def applyLoop (cons1 : List Line) (diff : List Line) (j : Int) (cons2 : List Line) : Option (List Line) :=
  match diff with
  | [] => some (cons2 ++ (cons1.take j.toNat).reverse).reverse
  | line :: rest =>
    match parseCommand cons1.length j line with
    | none => none
    | some command =>
      -- add unchanged lines
      let cons2 := cons2 ++ ((cons1.take j.toNat).drop command.end_.toNat).reverse
      let j := command.end_
      -- `while (--j >= start)`
      let j := if command.action = 'a' then j else min (j - 1) (command.start - 1)
      if command.action = 'd' then applyLoop cons1 rest j cons2
      else
        let added := rest.takeWhile (· ≠ ['.'])
        -- no "." at the end, or no lines before it
        if rest.length ≤ added.length ∨ added = [] then none
        else applyLoop cons1 (rest.drop (added.length + 1)) j (cons2 ++ added.reverse)
termination_by diff.length
decreasing_by
  · simp
  · simp only [List.length_drop, List.length_cons]
    omega

def applyEdDiff (cons1 diff : List Line) (diffStartingLine : Nat) : Option (List Line) :=
  applyLoop cons1 (diff.drop diffStartingLine) cons1.length []

/-! ## Commands are read as they are written -/

theorem cstr_of_no_nul {s : Text} (h : '\x00' ∉ s) : cstr s = s := by
  have hall : ∀ c ∈ s, decide (c ≠ '\x00') = true := by
    intro c hc
    rw [decide_eq_true_eq]
    intro he
    exact h (he ▸ hc)
  have hrun : (s ++ []).takeWhile (· ≠ '\x00') = s := takeWhile_run hall nofun
  rwa [List.append_nil] at hrun

theorem nul_notMem_decimal (n : Nat) : '\x00' ∉ decimal n := fun h => absurd (isDigit_decimal _ h) (by decide)

variable {n len1 p : Nat} {j : Int} {base : List Line}

theorem getLinenum_decimal (hn : n ≤ int32Max) {rest : Text} (hrest : ∀ c ∈ rest.head?, c.isDigit = false) :
    getLinenum (decimal n ++ rest) = some ((n : Int), rest) := by
  have hhead : (decimal n ++ rest).head?.any Char.isDigit = true := by
    rw [List.head?_append_of_ne_nil _ (decimal_ne_nil n), List.head?_eq_some_head (decimal_ne_nil n)]
    exact isDigit_decimal _ (List.head_mem _)
  rw [getLinenum, if_pos hhead]
  exact torParseLongNext_decimal (by exact_mod_cast hn) (Nat.le_trans hn (by decide)) hrest

/-- A number of lines has at most ten digits. -/
theorem length_decimal_le (hn : n ≤ int32Max) : (decimal n).length ≤ 10 :=
  (Nat.length_toDigits_le_iff (by decide) (by decide)).mpr (Nat.lt_of_le_of_lt hn (by decide))

/-- A command on one line number. -/
theorem parseCommand_single (hn : n ≤ int32Max) (hj : (n : Int) ≤ j) {action : Char}
    (ha : action = 'a' ∨ action = 'c' ∨ action = 'd') :
    parseCommand len1 j (decimal n ++ [action]) = some { start := n, end_ := n, action } := by
  have hdigit : ∀ c ∈ [action].head?, c.isDigit = false := by
    intro c hc
    rw [← Option.some.inj hc]
    rcases ha with rfl | rfl | rfl <;> decide
  have hnul : '\x00' ∉ decimal n ++ [action] := by
    rw [List.mem_append, List.mem_singleton, not_or]
    refine ⟨nul_notMem_decimal n, ?_⟩
    rcases ha with rfl | rfl | rfl <;> decide
  have hlen := length_decimal_le hn
  have hrange : parseRange len1 (decimal n ++ [action]) = some ((n : Int), (n : Int), false, false, [action]) := by
    rw [parseRange, getLinenum_decimal hn hdigit]
    rcases ha with rfl | rfl | rfl <;> rfl
  rw [parseCommand, if_neg (by rw [List.length_append, List.length_singleton]; omega), cstr_of_no_nul hnul, hrange]
  simp only
  rw [if_neg (by omega)]
  rcases ha with rfl | rfl | rfl <;> rfl

/-- A command on a range of two or more lines. -/
theorem parseCommand_range {m : Nat} (hm : m < n) (hn : n ≤ int32Max) (hj : (n : Int) ≤ j)
    {action : Char} (ha : action = 'c' ∨ action = 'd') :
    parseCommand len1 j (decimal m ++ ',' :: (decimal n ++ [action])) = some { start := m, end_ := n, action } := by
  have hcomma : ∀ c ∈ (',' :: (decimal n ++ [action])).head?, c.isDigit = false := by
    intro c hc
    rw [← Option.some.inj hc]
    decide
  have hdigit : ∀ c ∈ [action].head?, c.isDigit = false := by
    intro c hc
    rw [← Option.some.inj hc]
    rcases ha with rfl | rfl <;> decide
  have hnul : '\x00' ∉ decimal m ++ ',' :: (decimal n ++ [action]) := by
    simp only [List.mem_append, List.mem_cons, List.not_mem_nil, or_false, not_or]
    refine ⟨nul_notMem_decimal m, by decide, nul_notMem_decimal n, ?_⟩
    rcases ha with rfl | rfl <;> decide
  have hlenm := length_decimal_le (n := m) (by omega)
  have hlenn := length_decimal_le hn
  obtain ⟨d, ds, hds⟩ := List.exists_cons_of_ne_nil (decimal_ne_nil n)
  have hdollar : d ≠ '$' := by
    have hd : d.isDigit = true := isDigit_decimal d (by rw [hds]; exact List.mem_cons_self)
    exact fun he => absurd hd (by rw [he]; decide)
  have hrange : parseRange len1 (decimal m ++ ',' :: (decimal n ++ [action])) =
      some ((m : Int), (n : Int), true, false, [action]) := by
    rw [parseRange, getLinenum_decimal (by omega) hcomma]
    have hnum := getLinenum_decimal hn hdigit
    rw [hds, List.cons_append] at *
    split
    · cases ‹some _ = none›
    · next heq =>
      cases heq
      exact absurd rfl hdollar
    · next heq =>
      cases heq
      rw [hnum]
      simp only
      rw [if_neg (by omega)]
    · next hno heq =>
      cases heq
      exact absurd rfl (hno _)
  rw [parseCommand, if_neg ?_, cstr_of_no_nul hnul, hrange]
  · simp only
    rw [if_neg (by omega)]
    rcases ha with rfl | rfl <;> rfl
  · simp only [List.length_append, List.length_cons, List.length_nil]
    omega

/-- The command that removes the signatures: it reaches to the end of the base. -/
theorem parseCommand_trailer {m : Nat} (hm : m < len1) (hlen1 : len1 ≤ int32Max) :
    parseCommand len1 len1 (decimal m ++ [',', '$', 'd']) = some { start := m, end_ := len1, action := 'd' } := by
  have hcomma : ∀ c ∈ [',', '$', 'd'].head?, c.isDigit = false := by
    intro c hc
    rw [← Option.some.inj hc]
    decide
  have hnul : '\x00' ∉ decimal m ++ [',', '$', 'd'] := by
    rw [List.mem_append, not_or]
    exact ⟨nul_notMem_decimal m, by decide⟩
  have hlenm := length_decimal_le (n := m) (by omega)
  have hrange : parseRange len1 (decimal m ++ [',', '$', 'd']) = some ((m : Int), (len1 : Int), true, true, ['d']) := by
    rw [parseRange, getLinenum_decimal (by omega) hcomma]
    simp only
    rw [if_neg (by omega)]
  rw [parseCommand, if_neg ?_, cstr_of_no_nul hnul, hrange]
  · simp only
    rw [if_neg (by omega)]
    rfl
  · simp only [List.length_append, List.length_cons, List.length_nil]
    omega

/-! ## One command -/

/-- What a command of the generator stands for: the lines `start1x`, up to `start1x + deleted`, and whether there
    are lines to add. -/
theorem parseCommand_edCommand (len1 : Nat) {start1x deleted : Nat} (added : Nat) (hsome : 0 < deleted ∨ 0 < added)
    (hmax : start1x + deleted ≤ int32Max) (hj : ((start1x + deleted : Nat) : Int) ≤ j) :
    ∃ start action, parseCommand len1 j (edCommand start1x deleted added) =
        some { start := start, end_ := (start1x + deleted : Nat), action } ∧
      (if action = 'a' then ((start1x + deleted : Nat) : Int)
        else min (((start1x + deleted : Nat) : Int) - 1) (start - 1)) = start1x ∧
      (action = 'd' ↔ added = 0) := by
  by_cases ha : added = 0
  · by_cases hd : deleted = 1
    · subst hd
      refine ⟨(start1x + 1 : Nat), 'd', ?_, ?_, by simp [ha]⟩
      · rw [edCommand, if_pos ha, if_pos rfl, parseCommand_single hmax hj (.inr (.inr rfl))]
      · rw [if_neg (by decide)]
        omega
    · refine ⟨(start1x + 1 : Nat), 'd', ?_, ?_, by simp [ha]⟩
      · rw [edCommand, if_pos ha, if_neg hd, parseCommand_range (by omega) hmax hj (.inr rfl)]
      · rw [if_neg (by decide)]
        omega
  by_cases hd0 : deleted = 0
  · subst hd0
    rw [Nat.add_zero] at *
    refine ⟨(start1x : Nat), 'a', ?_, if_pos rfl, by simp [ha]⟩
    rw [edCommand, if_neg ha, if_pos rfl, parseCommand_single hmax hj (.inl rfl)]
  by_cases hd : deleted = 1
  · subst hd
    refine ⟨(start1x + 1 : Nat), 'c', ?_, ?_, by simp [ha]⟩
    · rw [edCommand, if_neg ha, if_neg hd0, if_pos rfl, parseCommand_single hmax hj (.inr (.inl rfl))]
    · rw [if_neg (by decide)]
      omega
  · refine ⟨(start1x + 1 : Nat), 'c', ?_, ?_, by simp [ha]⟩
    · rw [edCommand, if_neg ha, if_neg hd0, if_neg hd, parseCommand_range (by omega) hmax hj (.inl rfl)]
    · rw [if_neg (by decide)]
      omega

section Loop

variable {base : List Line} {start1x deleted : Nat} {j : Nat}

/-- A command that only deletes. -/
theorem applyLoop_delete (hdel : 0 < deleted) (hmax : start1x + deleted ≤ int32Max) (hj : start1x + deleted ≤ j)
    (rest out : List Line) :
    applyLoop base (edCommand start1x deleted 0 :: rest) j out =
      applyLoop base rest start1x (out ++ ((base.take j).drop (start1x + deleted)).reverse) := by
  obtain ⟨start, action, hparse, hnext, hd⟩ := parseCommand_edCommand base.length 0 (j := (j : Int))
    (.inl hdel) hmax (by exact_mod_cast hj)
  rw [applyLoop, hparse]
  simp only [hnext, if_pos (hd.mpr rfl), Int.toNat_natCast]

/-- A command that adds lines, and deletes or not. -/
theorem applyLoop_add (hmax : start1x + deleted ≤ int32Max) (hj : start1x + deleted ≤ j) {added : List Line}
    (h0 : added ≠ []) (hdot : ['.'] ∉ added) (rest out : List Line) :
    applyLoop base (edCommand start1x deleted added.length :: (added ++ ['.'] :: rest)) j out =
      applyLoop base rest start1x (out ++ ((base.take j).drop (start1x + deleted)).reverse ++ added.reverse) := by
  have hlen := List.length_pos_of_ne_nil h0
  obtain ⟨start, action, hparse, hnext, hd⟩ := parseCommand_edCommand base.length added.length (j := (j : Int))
    (.inr hlen) hmax (by exact_mod_cast hj)
  have htake : (added ++ ['.'] :: rest).takeWhile (· ≠ ['.']) = added := by
    refine takeWhile_run (fun line hline => ?_) fun line hline => ?_
    · rw [decide_eq_true_eq]
      intro he
      exact hdot (he ▸ hline)
    · rw [← Option.some.inj hline]
      decide
  have hdrop : (added ++ ['.'] :: rest).drop (added.length + 1) = rest := by
    rw [List.drop_append]
    simp
  rw [applyLoop, hparse]
  simp only [hnext, if_neg (fun he => absurd (hd.mp he) (by omega)), Int.toNat_natCast, htake, hdrop]
  rw [if_neg]
  simp only [h0, or_false, List.length_append, List.length_cons]
  omega

end Loop

/-! ## Whole scripts -/

theorem take_succ_getD {ms : List Bool} (hp : p < ms.length) {m : Bool} (hm : ms.getD p false = m) :
    ms.take (p + 1) = ms.take p ++ [m] := by
  rw [List.getD_eq_getElem?_getD, List.getElem?_eq_getElem hp, Option.getD_some] at hm
  rw [List.take_succ_eq_append_getElem hp, hm]

/-- The marked lines before a position can be left out of an alignment. -/
theorem aligned_skipChanged {ms ns : List Bool} {ys : List Line} (hp : p ≤ ms.length) (hb : p ≤ base.length)
    (h : Aligned (ms.take p) (base.take p) ns ys) :
    Aligned (ms.take (skipChanged ms p)) (base.take (skipChanged ms p)) ns ys := by
  induction p with
  | zero => exact h
  | succ p ih =>
    rw [skipChanged]
    by_cases hbit : ms.getD p false = true
    · rw [if_pos hbit]
      rw [take_succ_getD hp hbit, List.take_succ_eq_append_getElem hb] at h
      exact ih (by omega) (by omega) h.drop_left
    · rw [if_neg hbit]
      exact h

/-- The invariant between generator and applier. The generator has gone down to `p` and `q`; of the base `j` lines
    are left, and the lines between `p` and `j`, still to be taken over, with those already put out make up the
    target from `q` on. -/
structure Rebuilds (base cons2 : List Line) (changed1 changed2 : List Bool) (p q j : Nat) (out : List Line) : Prop where
  marks1 : p ≤ changed1.length
  marks2 : q ≤ changed2.length
  fits1 : p ≤ j ∧ j ≤ base.length
  fits2 : q ≤ cons2.length
  aligned : Aligned (changed1.take p) (base.take p) (changed2.take q) (cons2.take q)
  done : (base.take j).drop p ++ out.reverse = cons2.drop q

namespace Rebuilds

variable {base cons2 out : List Line} {changed1 changed2 : List Bool} {p q j : Nat}

/-- Two unmarked lines are equal: both positions go one line down. -/
theorem unmarked (h : Rebuilds base cons2 changed1 changed2 p q j out) (hpq : ¬ (p = 0 ∧ q = 0))
    (h1 : changedBefore changed1 p = false) (h2 : changedBefore changed2 q = false) :
    Rebuilds base cons2 changed1 changed2 (p - 1) (q - 1) j out := by
  have hm1 := h.marks1
  have hm2 := h.marks2
  have hf1 := h.fits1
  have hf2 := h.fits2
  have hal := h.aligned
  rcases p with _ | p
  · rcases q with _ | q
    · exact absurd ⟨rfl, rfl⟩ hpq
    · have hbit : changed2.getD q false = false := by simpa [changedBefore] using h2
      rw [take_succ_getD (by omega) hbit, List.take_succ_eq_append_getElem (show q < cons2.length by omega)] at hal
      exact absurd hal Aligned.not_nil_left
  have hbit1 : changed1.getD p false = false := by simpa [changedBefore] using h1
  rw [take_succ_getD (by omega) hbit1, List.take_succ_eq_append_getElem (show p < base.length by omega)] at hal
  rcases q with _ | q
  · exact absurd hal.symm Aligned.not_nil_left
  have hbit2 : changed2.getD q false = false := by simpa [changedBefore] using h2
  rw [take_succ_getD (by omega) hbit2, List.take_succ_eq_append_getElem (show q < cons2.length by omega)] at hal
  obtain ⟨heq, hal⟩ := hal.last
  refine ⟨by simp only [Nat.add_sub_cancel]; omega, by simp only [Nat.add_sub_cancel]; omega,
    by simp only [Nat.add_sub_cancel]; omega, by simp only [Nat.add_sub_cancel]; omega, hal, ?_⟩
  have hp : p < (base.take j).length := by rw [List.length_take]; omega
  have hget : (base.take j)[p] = cons2[q] := by rw [List.getElem_take, heq]
  simp only [Nat.add_sub_cancel]
  rw [← List.cons_getElem_drop_succ (h := hp), ← List.cons_getElem_drop_succ (h := show q < cons2.length by omega),
    List.cons_append, hget, h.done]

/-- One command: the lines from `p` to `j` are taken over, the marked lines of the base are left out, and those of
    the target are put out. -/
theorem changed (h : Rebuilds base cons2 changed1 changed2 p q j out) :
    Rebuilds base cons2 changed1 changed2 (skipChanged changed1 p) (skipChanged changed2 q) (skipChanged changed1 p)
      (out ++ ((base.take j).drop p).reverse ++
        ((cons2.drop (skipChanged changed2 q)).take (q - skipChanged changed2 q)).reverse) := by
  have hm1 := h.marks1
  have hm2 := h.marks2
  have hf1 := h.fits1
  have hf2 := h.fits2
  have hp := skipChanged_le changed1 p
  have hq := skipChanged_le changed2 q
  have hal := aligned_skipChanged hm1 (by omega) h.aligned
  have hal := (aligned_skipChanged hm2 hf2 hal.symm).symm
  refine ⟨by omega, by omega, by omega, by omega, hal, ?_⟩
  have hnone : (base.take (skipChanged changed1 p)).drop (skipChanged changed1 p) = [] :=
    List.drop_eq_nil_of_le (by rw [List.length_take]; omega)
  rw [hnone, List.nil_append, List.reverse_append, List.reverse_append, List.reverse_reverse, List.reverse_reverse, h.done]
  have hsplit := List.take_append_drop (q - skipChanged changed2 q) (cons2.drop (skipChanged changed2 q))
  rw [List.drop_drop, show skipChanged changed2 q + (q - skipChanged changed2 q) = q by omega] at hsplit
  exact hsplit

end Rebuilds

/-- The script of two aligned consensuses rebuilds the second from the first. -/
theorem applyLoop_edScript {cons2 : List Line} {changed1 changed2 : List Bool} (hmax : base.length ≤ int32Max)
    {q : Nat} {script : List Line} (h : edScript changed1 changed2 cons2 p q = some script) {j : Nat} {out : List Line}
    (hr : Rebuilds base cons2 changed1 changed2 p q j out) : applyLoop base script j out = some cons2 := by
  fun_induction edScript changed1 changed2 cons2 p q generalizing script j out with
  | case1 p q h0 =>
    obtain ⟨rfl, rfl⟩ := h0
    cases h
    rw [applyLoop, Int.toNat_natCast, List.reverse_append, List.reverse_reverse]
    simpa using hr.done
  | case2 p q h0 hun ih => exact ih h (hr.unmarked h0 hun.1 hun.2)
  | case3 =>
    rename_i p q h0 hun start1x start2x command hadd ih
    -- nothing to add
    obtain ⟨rest, hrest, rfl⟩ := Option.map_eq_some_iff.mp h
    have hp := skipChanged_le changed1 p
    have hf := hr.fits1
    have hdel : 0 < p - start1x := by
      have := skipChanged_moves hun
      omega
    have hend : start1x + (p - start1x) = p := by omega
    have hnext := hr.changed
    rw [show q - skipChanged changed2 q = 0 from hadd, List.take_zero, List.reverse_nil, List.append_nil] at hnext
    rw [show command = edCommand start1x (p - start1x) 0 from by rw [← hadd],
      applyLoop_delete hdel (by omega) (by omega), hend]
    exact ih hrest hnext
  | case4 => cases h
  | case5 =>
    rename_i p q h0 hun start1x start2x command hadd added hdot ih
    obtain ⟨rest, hrest, rfl⟩ := Option.map_eq_some_iff.mp h
    have hp := skipChanged_le changed1 p
    have hf := hr.fits1
    have hf2 := hr.fits2
    have hlen : added.length = q - start2x := by
      rw [List.length_take, List.length_drop]
      have := skipChanged_le changed2 q
      omega
    have hne : added ≠ [] := by
      intro hnil
      rw [hnil] at hlen
      exact hadd hlen.symm
    have hend : start1x + (p - start1x) = p := by omega
    rw [show command = edCommand start1x (p - start1x) added.length from by rw [hlen],
      applyLoop_add (by omega) (by omega) hne (fun hm => hdot ⟨_, hm, rfl⟩), hend]
    exact ih hrest hr.changed

/-! ## The signatures -/

theorem applyLoop_trailer {idx : Nat} (hidx : idx + 2 ≤ base.length) (hmax : base.length ≤ int32Max)
    (rest : List Line) :
    applyLoop base ((decimal (idx + 1) ++ [',', '$', 'd']) :: rest) base.length [] = applyLoop base rest idx [] := by
  have hj : min ((base.length : Int) - 1) (((idx + 1 : Nat) : Int) - 1) = idx := by omega
  rw [applyLoop, parseCommand_trailer (by omega) hmax]
  simp only [Int.toNat_natCast, List.take_length, List.drop_length, List.reverse_nil, List.append_nil]
  rw [if_pos trivial, if_neg (by decide), hj]

/-- Whatever script `gen_ed_diff` returns, applied to its base it gives the target. -/
theorem applyEdDiff_genEdDiff {cons1 cons2 script : List Line} (h : genEdDiff cons1 cons2 = some script)
    (hsig : ∀ idx, dirsigIdx cons1 = some idx → idx + 2 ≤ cons1.length) : applyEdDiff cons1 script 0 = some cons2 := by
  rw [genEdDiff] at h
  split at h
  · cases h
  next hmax =>
  have hmax : cons1.length ≤ int32Max := Nat.le_of_not_lt hmax
  simp only [Option.bind_eq_bind, Option.bind_eq_some_iff, Option.some.injEq] at h
  obtain ⟨⟨changed1, changed2⟩, hwalk, rest, hscript, rfl⟩ := h
  have hal := walk_aligned hwalk (by dsimp only; omega) (by dsimp only; omega) Aligned.nil
  -- both lists are compared whole, and nothing of the target is put out yet
  have hrebuilds : ∀ idx, idx ≤ cons1.length → (preprocessConsensus cons1).1 = cons1.take idx →
      Rebuilds cons1 cons2 changed1 changed2 (preprocessConsensus cons1).1.length cons2.length idx [] := by
    intro idx hidx hpre
    have hlen : (preprocessConsensus cons1).1.length = idx := by
      rw [hpre, List.length_take]
      omega
    refine ⟨hal.left.ge, hal.right.ge, by omega, Nat.le_refl _, ?_, ?_⟩
    · rw [← hal.left, List.take_length, hal.left, ← hal.right, List.take_length, hal.right, List.take_length, hlen, ← hpre]
      exact hal
    · rw [hlen, List.drop_length, List.reverse_nil, List.append_nil]
      exact List.drop_eq_nil_of_le (by rw [List.length_take]; omega)
  rw [applyEdDiff, List.drop_zero]
  rcases hd : dirsigIdx cons1 with _ | idx
  · have hpre : preprocessConsensus cons1 = (cons1, none) := by rw [preprocessConsensus, hd]
    have hr := hrebuilds cons1.length (Nat.le_refl _) (by rw [hpre, List.take_length])
    rw [hpre] at hscript hr ⊢
    exact applyLoop_edScript hmax hscript hr
  · -- the first command takes the signatures off
    have hpre : preprocessConsensus cons1 = (cons1.take idx, some (decimal (idx + 1) ++ [',', '$', 'd'])) := by
      rw [preprocessConsensus, hd]
    have hidx := hsig idx hd
    have hr := hrebuilds idx (by omega) (by rw [hpre])
    rw [hpre] at hscript hr ⊢
    rw [Option.toList_some, List.singleton_append, applyLoop_trailer hidx hmax]
    exact applyLoop_edScript hmax hscript hr

end Badnet.Consdiff

/-
  Badnet.Consdiff.Document — consensus diffs as documents: `consensus_diff_generate` and `consensus_diff_apply` of
  `feature/dircommon/consdiff.c`.

  The server checks that its script rebuilds the target, and puts two lines in front: the format, and the digests of the
  base as signed and of the target. The client checks the digests. SHA3-256 is any function of the bytes. What the two
  functions return is a C string.

  The check of the script never fails (`diffs_reproduce_target`); the client rebuilds the target exactly when it has no
  NUL byte (`documents_round_trip_iff`).
-/

import Badnet.Consdiff.ApplyEdDiff
import Badnet.Encoding.Base16

namespace Badnet.Consdiff

open Encoding Lib

/-! ## Lines and documents -/

def consensusLineMaxLen : Nat := 1 <<< 20

/-- `consensus_split_lines`: `none` for a last line without a newline, or a line that is too long. -/
def consensusSplitLines (s : Text) : Option (List Line) :=
  if s = [] then some []
  else
    let line := s.takeWhile (· ≠ '\n')
    if s.length ≤ line.length then none
    else if consensusLineMaxLen < line.length then none
    else (consensusSplitLines (s.drop (line.length + 1))).map (line :: ·)
termination_by s.length
decreasing_by
  rw [List.length_drop]
  have := List.length_pos_of_ne_nil ‹s ≠ []›
  omega

def consensusJoinLines (lines : List Line) : Text := unlines '\n' lines

/-! ## Digests -/

/-- The 32 bytes of a SHA3-256 digest. -/
abbrev Digest := { d : Bytes // d.length = 32 }

variable (sha3 : Text → Digest)

def networkStatusVersion : Text := "network-status-version".toList

def newlineDirectorySignature : Text := "\ndirectory-signature".toList

variable (s : Text)

/-- `router_get_networkstatus_v3_signed_boundaries`: the signed part of a document, from its first line to the blank
    after the first "directory-signature". -/
def signedPart : Option Text := do
  let start ← search networkStatusVersion s
  if start ≠ 0 ∧ s.getD (start - 1) '\n' ≠ '\n' then none
  else do
    let s := s.drop start
    let body := s.drop networkStatusVersion.length
    let end_ ← search newlineDirectorySignature body
    let eol ← (body.drop (end_ + newlineDirectorySignature.length)).findIdx? (· = ' ')
    some (s.take (networkStatusVersion.length + (end_ + newlineDirectorySignature.length) + (eol + 1)))

/-- `router_get_networkstatus_v3_sha3_as_signed`: of the whole text when no signed part is found. -/
def digestAsSigned : Digest := sha3 ((signedPart s).getD s)

/-! ## The server -/

def nsDiffVersion : Line := "network-status-diff-version 1".toList

def hashToken : Line := "hash".toList

def hashLine (d1 d2 : Digest) : Line := hashToken ++ ' ' :: (base16Encode d1.1 ++ ' ' :: base16Encode d2.1)

def consdiffGenDiff (cons1 cons2 : List Line) (d1 d2 : Digest) : Option (List Line) :=
  match genEdDiff cons1 cons2 with
  | none => none
  | some edDiff =>
    -- see that the script actually produces what we want
    match applyEdDiff cons1 edDiff 0 with
    | none => none
    | some edCons2 => if cons2 = edCons2 then some (nsDiffVersion :: hashLine d1 d2 :: edDiff) else none

def consensusDiffGenerate (cons1 cons2 : Text) : Option Text := do
  let lines1 ← consensusSplitLines cons1
  let lines2 ← consensusSplitLines cons2
  let lines ← consdiffGenDiff lines1 lines2 (digestAsSigned sha3 cons1) (sha3 cons2)
  some (cstr (consensusJoinLines lines))

/-! ## The client -/

def consdiffGetDigests (diff : List Line) : Option (Bytes × Bytes) :=
  match diff with
  | format :: line2 :: _ =>
    if format ≠ nsDiffVersion then none
    else match (cstr line2).splitOn ' ' with
      | [token, hex1, hex2] =>
        if token ≠ hashToken then none
        else if hex1.length ≠ 64 ∨ hex2.length ≠ 64 then none
        else match base16Decode 32 hex1, base16Decode 32 hex2 with
          | some hash1, some hash2 => if hash1.length ≠ 32 ∨ hash2.length ≠ 32 then none else some (hash1, hash2)
          | _, _ => none
      | _ => none
  | _ => none

/-- `consdiff_apply_diff`: the digest of the result is taken over `strlen(cons2_str)` bytes. -/
def consdiffApplyDiff (cons1 diff : List Line) (d1 : Digest) : Option Text := do
  let (hash1, hash2) ← consdiffGetDigests diff
  if d1.1 ≠ hash1 then none
  else do
    let cons2 ← applyEdDiff cons1 diff 2
    let cons2Str := consensusJoinLines cons2
    if (sha3 (cstr cons2Str)).1 ≠ hash2 then none else some (cstr cons2Str)

def consensusDiffApply (consensus diff : Text) : Option Text := do
  let lines1 ← consensusSplitLines consensus
  let lines2 ← consensusSplitLines diff
  consdiffApplyDiff sha3 lines1 lines2 (digestAsSigned sha3 consensus)

/-! ## Splitting and joining -/

/-- A line that a document can hold. -/
def Short (line : Line) : Prop := '\n' ∉ line ∧ line.length ≤ consensusLineMaxLen

variable {lines script : List Line} {n : Nat}

theorem consensusSplitLines_spec {s : Text} (h : consensusSplitLines s = some lines) :
    consensusJoinLines lines = s ∧ ∀ line ∈ lines, Short line := by
  fun_induction consensusSplitLines s generalizing lines with
  | case1 =>
    cases h
    exact ⟨rfl, by simp⟩
  | case2 => cases h
  | case3 => cases h
  | case4 =>
    rename_i s h0 line hend hmax ih
    obtain ⟨rest, hrest, rfl⟩ := Option.map_eq_some_iff.mp h
    obtain ⟨hjoin, hlines⟩ := ih hrest
    obtain ⟨hnl, hs⟩ := first_line (Nat.lt_of_not_le hend)
    refine ⟨?_, ?_⟩
    · rw [consensusJoinLines, unlines_cons, ← consensusJoinLines, hjoin]
      exact hs.symm
    · intro l hl
      rcases List.mem_cons.mp hl with rfl | hl
      · exact ⟨hnl, Nat.le_of_not_lt hmax⟩
      · exact hlines l hl

theorem consensusSplitLines_cons {line : Line} (h : Short line) (s : Text) :
    consensusSplitLines (line ++ '\n' :: s) = (consensusSplitLines s).map (line :: ·) := by
  have htake : (line ++ '\n' :: s).takeWhile (· ≠ '\n') = line := by
    refine takeWhile_run (fun c hc => ?_) fun c hc => ?_
    · rw [decide_eq_true_eq]
      exact fun he => h.1 (he ▸ hc)
    · rw [← Option.some.inj hc]
      decide
  have hdrop : (line ++ '\n' :: s).drop (line.length + 1) = s := by
    rw [List.drop_append]
    simp
  rw [consensusSplitLines, if_neg (by simp)]
  simp only [htake, hdrop]
  rw [if_neg (by simp), if_neg (Nat.not_lt.mpr h.2)]

theorem consensusSplitLines_join (h : ∀ line ∈ lines, Short line) :
    consensusSplitLines (consensusJoinLines lines) = some lines := by
  induction lines with
  | nil => rw [consensusJoinLines, unlines_nil, consensusSplitLines, if_pos rfl]
  | cons line lines ih =>
    rw [consensusJoinLines, unlines_cons, ← consensusJoinLines, consensusSplitLines_cons (h line List.mem_cons_self),
      ih fun l hl => h l (List.mem_cons_of_mem _ hl), Option.map_some]

theorem mem_join {c : Char} (hc : c ≠ '\n') : c ∈ consensusJoinLines lines ↔ ∃ line ∈ lines, c ∈ line := by
  simp [consensusJoinLines, unlines, hc]

/-! ## What a script is made of -/

/-- A line of a script that is not one of the target: digits and a few other characters. -/
def CommandLine (line : Line) : Prop :=
  line.length ≤ 30 ∧ ∀ c ∈ line, c.isDigit = true ∨ c ∈ [',', '$', '.', 'a', 'c', 'd']

theorem CommandLine.short {line : Line} (h : CommandLine line) : Short line := by
  refine ⟨fun hm => ?_, Nat.le_trans h.1 (by decide)⟩
  rcases h.2 _ hm with hd | hd
  · exact absurd hd (by decide)
  · exact absurd hd (by decide)

theorem CommandLine.no_nul {line : Line} (h : CommandLine line) : '\x00' ∉ line := by
  intro hm
  rcases h.2 _ hm with hd | hd
  · exact absurd hd (by decide)
  · exact absurd hd (by decide)

theorem commandLine_decimal (hn : n ≤ int32Max) {tail : Text} (hlen : tail.length ≤ 20)
    (htail : ∀ c ∈ tail, c.isDigit = true ∨ c ∈ [',', '$', '.', 'a', 'c', 'd']) : CommandLine (decimal n ++ tail) := by
  have := length_decimal_le hn
  refine ⟨by rw [List.length_append]; omega, fun c hc => ?_⟩
  rcases List.mem_append.mp hc with hc | hc
  · exact .inl (isDigit_decimal c hc)
  · exact htail c hc

theorem commandLine_single (hn : n ≤ int32Max) {action : Char} (ha : action ∈ ['a', 'c', 'd']) :
    CommandLine (decimal n ++ [action]) := by
  refine commandLine_decimal hn (by simp) fun c hc => .inr ?_
  rw [List.mem_singleton.mp hc]
  simp only [List.mem_cons, List.not_mem_nil, or_false] at *
  tauto

theorem commandLine_range {m : Nat} (hm : m ≤ int32Max) (hn : n ≤ int32Max) {action : Char} (ha : action ∈ ['a', 'c', 'd']) :
    CommandLine (decimal m ++ ',' :: (decimal n ++ [action])) := by
  have hlen := length_decimal_le hn
  refine commandLine_decimal hm ?_ fun c hc => ?_
  · rw [List.length_cons, List.length_append, List.length_singleton]
    omega
  · rcases List.mem_cons.mp hc with rfl | hc
    · exact .inr (by decide)
    · exact (commandLine_single hn ha).2 c hc

theorem commandLine_edCommand {start1x deleted added : Nat} (h : start1x + deleted ≤ int32Max)
    (hsome : 0 < deleted ∨ 0 < added) : CommandLine (edCommand start1x deleted added) := by
  rw [edCommand]
  split
  · split
    · exact commandLine_single (by omega) (by decide)
    · exact commandLine_range (by omega) h (by decide)
  · split
    · exact commandLine_single (by omega) (by decide)
    · split
      · exact commandLine_single (by omega) (by decide)
      · exact commandLine_range (by omega) h (by decide)

theorem edScript_lines {changed1 changed2 : List Bool} {cons2 : List Line} {p q : Nat}
    (h : edScript changed1 changed2 cons2 p q = some script) (hp : p ≤ int32Max) :
    ∀ line ∈ script, CommandLine line ∨ line ∈ cons2 := by
  fun_induction edScript changed1 changed2 cons2 p q generalizing script with
  | case1 =>
    cases h
    simp
  | case2 p q h0 hun ih => exact ih h (by omega)
  | case3 =>
    rename_i p q h0 hun start1x start2x command hadd ih
    obtain ⟨rest, hrest, rfl⟩ := Option.map_eq_some_iff.mp h
    have hle := skipChanged_le changed1 p
    intro line hline
    rcases List.mem_cons.mp hline with rfl | hline
    · exact .inl (commandLine_edCommand (by omega) (skipChanged_moves hun))
    · exact ih hrest (by omega) line hline
  | case4 => cases h
  | case5 =>
    rename_i p q h0 hun start1x start2x command hadd added hdot ih
    obtain ⟨rest, hrest, rfl⟩ := Option.map_eq_some_iff.mp h
    have hle := skipChanged_le changed1 p
    intro line hline
    simp only [List.mem_cons, List.mem_append] at hline
    rcases hline with rfl | hline | rfl | hline
    · exact .inl (commandLine_edCommand (by omega) (skipChanged_moves hun))
    · exact .inr (List.mem_of_mem_drop (List.mem_of_mem_take hline))
    · refine .inl ⟨by decide, fun c hc => .inr ?_⟩
      rw [List.mem_singleton.mp hc]
      decide
    · exact ih hrest (by omega) line hline

/-- Every line of a script is a command, or a line of the target. -/
theorem genEdDiff_lines {cons1 cons2 : List Line} (h : genEdDiff cons1 cons2 = some script) :
    ∀ line ∈ script, CommandLine line ∨ line ∈ cons2 := by
  rw [genEdDiff] at h
  split at h
  · cases h
  next hmax =>
  have hmax : cons1.length ≤ int32Max := Nat.le_of_not_lt hmax
  simp only [Option.bind_eq_bind, Option.bind_eq_some_iff, Option.some.injEq] at h
  obtain ⟨⟨changed1, changed2⟩, -, rest, hscript, rfl⟩ := h
  intro line hline
  rw [List.mem_append] at hline
  rcases hd : dirsigIdx cons1 with _ | idx
  · have hpre : preprocessConsensus cons1 = (cons1, none) := by rw [preprocessConsensus, hd]
    rw [hpre] at hscript hline
    rcases hline with hline | hline
    · cases hline
    · exact edScript_lines hscript hmax line hline
  · have hidx : idx < cons1.length := (List.findIdx?_eq_some_iff_findIdx_eq.mp hd).1
    have hpre : preprocessConsensus cons1 = (cons1.take idx, some (decimal (idx + 1) ++ [',', '$', 'd'])) := by
      rw [preprocessConsensus, hd]
    rw [hpre] at hscript hline
    rcases hline with hline | hline
    · rw [List.mem_singleton.mp hline]
      refine .inl (commandLine_decimal (by omega) (by decide) fun c hc => .inr ?_)
      simp only [List.mem_cons, List.not_mem_nil, or_false] at *
      tauto
    · exact edScript_lines hscript (by rw [List.length_take]; omega) line hline

/-! ## The header -/

theorem length_hex (d : Digest) : (base16Encode d.1).length = 64 := by
  rw [length_base16Encode, d.2]

theorem hashLine_chars (d1 d2 : Digest) : ∀ c ∈ hashLine d1 d2, c ∈ hexDigits ∨ c ∈ ['h', 'a', 's', 'h', ' '] := by
  intro c hc
  simp only [hashLine, List.mem_append, List.mem_cons] at hc
  rcases hc with hc | rfl | hc | rfl | hc
  · exact .inr (List.mem_append_left [' '] hc)
  · exact .inr (by decide)
  · exact .inl (mem_base16Encode hc)
  · exact .inr (by decide)
  · exact .inl (mem_base16Encode hc)

theorem hashLine_short (d1 d2 : Digest) : Short (hashLine d1 d2) := by
  refine ⟨fun hm => ?_, ?_⟩
  · rcases hashLine_chars d1 d2 _ hm with hd | hd
    · exact absurd hd (by decide)
    · exact absurd hd (by decide)
  · have h1 := length_hex d1
    have h2 := length_hex d2
    have h3 : hashToken.length = 4 := rfl
    have h4 : consensusLineMaxLen = 1048576 := rfl
    simp only [hashLine, List.length_append, List.length_cons]
    omega

theorem hashLine_no_nul (d1 d2 : Digest) : '\x00' ∉ hashLine d1 d2 := by
  intro hm
  rcases hashLine_chars d1 d2 _ hm with hd | hd
  · exact absurd hd (by decide)
  · exact absurd hd (by decide)

/-- The client reads the digests that the server wrote. -/
theorem consdiffGetDigests_header (d1 d2 : Digest) (edDiff : List Line) :
    consdiffGetDigests (nsDiffVersion :: hashLine d1 d2 :: edDiff) = some (d1.1, d2.1) := by
  have hblank : ∀ d : Digest, ' ' ∉ base16Encode d.1 := fun d hm => absurd (mem_base16Encode hm) (by decide)
  have hsplit : (hashLine d1 d2).splitOn ' ' = [hashToken, base16Encode d1.1, base16Encode d2.1] := by
    rw [hashLine, List.splitOn_append_cons_self_of_not_mem (by decide),
      List.splitOn_append_cons_self_of_not_mem (hblank d1), List.splitOn_eq_singleton (hblank d2)]
  have hdec : ∀ d : Digest, base16Decode 32 (base16Encode d.1) = some d.1 :=
    fun d => base16Decode_encode (by rw [d.2]) (by decide)
  rw [consdiffGetDigests, if_neg (by simp), cstr_of_no_nul (hashLine_no_nul d1 d2), hsplit]
  simp only
  rw [if_neg (by simp), if_neg (by rw [length_hex, length_hex]; simp), hdec, hdec]
  simp only
  rw [if_neg (by rw [d1.2, d2.2]; simp)]

/-! ## The self-check of the server -/

/-- The script rebuilds its target, so that neither branch of the check is taken. -/
theorem diffs_reproduce_target {cons1 cons2 script : List Line} (h : genEdDiff cons1 cons2 = some script)
    (hsig : ∀ idx, dirsigIdx cons1 = some idx → idx + 2 ≤ cons1.length) (d1 d2 : Digest) :
    applyEdDiff cons1 script 0 = some cons2 ∧
      consdiffGenDiff cons1 cons2 d1 d2 = some (nsDiffVersion :: hashLine d1 d2 :: script) := by
  have happly := applyEdDiff_genEdDiff h hsig
  refine ⟨happly, ?_⟩
  rw [consdiffGenDiff, h]
  simp only
  rw [happly]
  exact if_pos rfl

/-- A diff that drops a signature of two lines, changes the line before it and adds one at the end. -/
theorem diffs_reproduce_target_signed :
    genEdDiff ["a".toList, "b".toList, "directory-signature x".toList, "y".toList]
        ["a".toList, "c".toList, "d".toList] =
      some ["3,$d".toList, "2c".toList, "c".toList, "d".toList, ".".toList] ∧
    applyEdDiff ["a".toList, "b".toList, "directory-signature x".toList, "y".toList]
        ["3,$d".toList, "2c".toList, "c".toList, "d".toList, ".".toList] 0 =
      some ["a".toList, "c".toList, "d".toList] := by
  have h : genEdDiff ["a".toList, "b".toList, "directory-signature x".toList, "y".toList]
      ["a".toList, "c".toList, "d".toList] =
      some ["3,$d".toList, "2c".toList, "c".toList, "d".toList, ".".toList] := by decide +kernel
  have hidx : dirsigIdx ["a".toList, "b".toList, "directory-signature x".toList, "y".toList] = some 2 := by
    decide +kernel
  refine ⟨h, (diffs_reproduce_target h (fun idx hidx' => ?_) ⟨List.replicate 32 0, rfl⟩ ⟨List.replicate 32 0, rfl⟩).1⟩
  rw [← Option.some.inj (hidx.symm.trans hidx')]
  decide

/-! ## Server and client -/

theorem nul_notMem_cstr : '\x00' ∉ cstr s := by
  intro h
  have hne := List.all_eq_true.mp List.all_takeWhile _ h
  simp at hne

/-- What a generated document is, before its caller measures it. -/
theorem consensusDiffGenerate_spec {cons1 cons2 d : Text} (h : consensusDiffGenerate sha3 cons1 cons2 = some d) :
    ∃ lines1 lines2 script, consensusSplitLines cons1 = some lines1 ∧ consensusSplitLines cons2 = some lines2 ∧
      genEdDiff lines1 lines2 = some script ∧ applyEdDiff lines1 script 0 = some lines2 ∧
      d = cstr (consensusJoinLines
        (nsDiffVersion :: hashLine (digestAsSigned sha3 cons1) (sha3 cons2) :: script)) := by
  simp only [consensusDiffGenerate, Option.bind_eq_bind, Option.bind_eq_some_iff, Option.some.injEq] at h
  obtain ⟨lines1, h1, lines2, h2, lines, hgen, rfl⟩ := h
  rw [consdiffGenDiff] at hgen
  split at hgen
  · cases hgen
  next script hscript =>
  split at hgen
  · cases hgen
  next edCons2 happly =>
  split at hgen
  · next heq =>
    cases hgen
    exact ⟨lines1, lines2, script, h1, h2, hscript, heq ▸ happly, rfl⟩
  · cases hgen

/-- A header and the script of a target without NUL bytes survive the way to the client. -/
theorem document_lines {lines1 lines2 : List Line} (hscript : genEdDiff lines1 lines2 = some script)
    (hshort : ∀ line ∈ lines2, Short line) (hnul : ∀ line ∈ lines2, '\x00' ∉ line) (d1 d2 : Digest) :
    consensusSplitLines (cstr (consensusJoinLines (nsDiffVersion :: hashLine d1 d2 :: script))) =
      some (nsDiffVersion :: hashLine d1 d2 :: script) := by
  have hlines : ∀ line ∈ nsDiffVersion :: hashLine d1 d2 :: script, Short line ∧ '\x00' ∉ line := by
    intro line hline
    rcases List.mem_cons.mp hline with rfl | hline
    · exact ⟨⟨by decide, by decide⟩, by decide⟩
    rcases List.mem_cons.mp hline with rfl | hline
    · exact ⟨hashLine_short d1 d2, hashLine_no_nul d1 d2⟩
    rcases genEdDiff_lines hscript line hline with hc | hc
    · exact ⟨hc.short, hc.no_nul⟩
    · exact ⟨hshort line hc, hnul line hc⟩
  have hno : '\x00' ∉ consensusJoinLines (nsDiffVersion :: hashLine d1 d2 :: script) := by
    intro hm
    obtain ⟨line, hline, hc⟩ := (mem_join (by decide)).mp hm
    exact (hlines line hline).2 hc
  rw [cstr_of_no_nul hno]
  exact consensusSplitLines_join fun line hline => (hlines line hline).1

theorem cstr_line {line : Line} (hnul : '\x00' ∉ line) (s : Text) : cstr (line ++ '\n' :: s) = line ++ '\n' :: cstr s := by
  have hline : ∀ c ∈ line, decide (c ≠ '\x00') = true := fun c hc => decide_eq_true fun he => hnul (he ▸ hc)
  rw [cstr, List.takeWhile_append_of_pos hline, List.takeWhile_cons_of_pos (by decide), cstr]

/-- Whatever text a client holds: what it makes of a generated document has the digest of the target, and the text had
    the as-signed digest of the base. -/
theorem consensusDiffApply_digests {cons1 cons2 d held result : Text} (h : consensusDiffGenerate sha3 cons1 cons2 = some d)
    (happly : consensusDiffApply sha3 held d = some result) :
    digestAsSigned sha3 held = digestAsSigned sha3 cons1 ∧ sha3 result = sha3 cons2 := by
  obtain ⟨lines1, lines2, script, -, -, -, -, rfl⟩ := consensusDiffGenerate_spec sha3 h
  have hversion : Short nsDiffVersion := ⟨by decide, by decide⟩
  rw [consensusJoinLines, unlines_cons, unlines_cons, cstr_line (by decide), cstr_line (hashLine_no_nul _ _),
    consensusDiffApply, consensusSplitLines_cons hversion, consensusSplitLines_cons (hashLine_short _ _)] at happly
  simp only [Option.bind_eq_bind, Option.bind_eq_some_iff, Option.map_eq_some_iff] at happly
  obtain ⟨held1, -, diff, ⟨rest, ⟨script', -, rfl⟩, rfl⟩, happly⟩ := happly
  rw [consdiffApplyDiff, consdiffGetDigests_header] at happly
  simp only [Option.bind_eq_bind, Option.bind_some] at happly
  split at happly
  · cases happly
  next hbase =>
    obtain ⟨cons2', -, happly⟩ := Option.bind_eq_some_iff.mp happly
    split at happly
    · cases happly
    next htarget =>
      rw [← Option.some.inj happly]
      exact ⟨Subtype.ext (not_not.mp hbase), Subtype.ext (not_not.mp htarget)⟩

/-- The client rebuilds the target of a generated document exactly when it has no NUL byte. -/
theorem documents_round_trip_iff {cons1 cons2 d : Text} (h : consensusDiffGenerate sha3 cons1 cons2 = some d) :
    consensusDiffApply sha3 cons1 d = some cons2 ↔ '\x00' ∉ cons2 := by
  refine ⟨fun happly => ?_, fun hnul => ?_⟩
  · simp only [consensusDiffApply, consdiffApplyDiff, Option.bind_eq_bind, Option.bind_eq_some_iff] at happly
    obtain ⟨_, -, _, -, ⟨hash1, hash2⟩, -, happly⟩ := happly
    simp only at happly
    split at happly
    · cases happly
    obtain ⟨lines, -, happly⟩ := Option.bind_eq_some_iff.mp happly
    split at happly
    · cases happly
    · rw [← Option.some.inj happly]
      exact nul_notMem_cstr _
  · obtain ⟨lines1, lines2, script, h1, h2, hscript, hrebuilds, rfl⟩ := consensusDiffGenerate_spec sha3 h
    obtain ⟨hjoin, hshort⟩ := consensusSplitLines_spec h2
    have hno : ∀ line ∈ lines2, '\x00' ∉ line := by
      intro line hline hc
      exact hnul (hjoin ▸ (mem_join (by decide)).mpr ⟨line, hline, hc⟩)
    have hsplit := document_lines hscript hshort hno (digestAsSigned sha3 cons1) (sha3 cons2)
    have happly : applyEdDiff lines1 (nsDiffVersion :: hashLine (digestAsSigned sha3 cons1) (sha3 cons2) :: script) 2 =
        some lines2 := hrebuilds
    simp only [consensusDiffApply, consdiffApplyDiff, Option.bind_eq_bind, h1, hsplit, consdiffGetDigests_header,
      happly, Option.bind_some, hjoin, cstr_of_no_nul hnul, ne_eq, not_true_eq_false, if_false]

/-- A digest that only depends on the length, for runs on fixed documents. -/
def lengthDigest : Digest := ⟨List.replicate 32 (UInt8.ofNat s.length), List.length_replicate⟩

theorem documents_round_trip_iff_no_nul :
    (consensusDiffGenerate lengthDigest "a\n".toList "a\nb\n".toList).isSome ∧
      ∀ d, consensusDiffGenerate lengthDigest "a\n".toList "a\nb\n".toList = some d →
        consensusDiffApply lengthDigest "a\n".toList d = some "a\nb\n".toList :=
  ⟨by decide +kernel, fun _ h => (documents_round_trip_iff lengthDigest h).mpr (by decide +kernel)⟩

/-- The server makes a diff between two documents with a NUL byte, which its client does not accept: the client
    computes the digest of the one byte before the NUL. -/
theorem nul_byte_breaks_round_trip :
    ∃ d, consensusDiffGenerate lengthDigest "a\x00\n".toList "a\x00\nb\n".toList = some d ∧
      consensusDiffApply lengthDigest "a\x00\n".toList d = none := by
  refine ⟨(consensusDiffGenerate lengthDigest "a\x00\n".toList "a\x00\nb\n".toList).get (by decide +kernel), ?_, ?_⟩
  · exact (Option.some_get _).symm
  · decide +kernel

end Badnet.Consdiff

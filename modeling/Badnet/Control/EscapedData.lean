/-
  Badnet.Control.EscapedData — blocks of data on the control port (`feature/control/control_proto.c`).

  `writeEscapedData` ends every line with CRLF, puts a dot before a dot at the start of a line, and closes the block
  with a line of one dot; `readEscapedData` undoes this (`write_framed_iff`). The exception is a block that starts with
  LF: the look at the byte before it is guarded by there being one, and no CR is written.
-/

import Badnet.Lib.Lines
import Badnet.Encoding.Base64

namespace Badnet.Control

open Lib Encoding

def LF : UInt8 := 10
def CR : UInt8 := 13
def DOT : UInt8 := 46

def SIZE_MAX : Nat := 18446744073709551615

/-! ## The writer -/

/-- The loop that adds up the size: for each LF a CR and a dot. It is `none` when the input is too long. -/
def sizeOut : (szOut : Nat) → Bytes → Option Nat
  | szOut, [] => some szOut
  | szOut, b :: rest =>
    if b = LF then
      let szOut := (szOut + 2) % 2 ^ 64
      if szOut ≥ SIZE_T_CEILING then none else sizeOut szOut rest
    else sizeOut szOut rest

/-- The loop that writes: `prev` is `data[-1]`, which there is not at the start. -/
def escapeFrom (prev : Option UInt8) (startOfLine : Bool) : Bytes → Bytes
  | [] => []
  | b :: rest =>
    if b = LF then
      (if prev.any (· ≠ CR) then [CR] else []) ++ LF :: escapeFrom (some b) true rest
    else if b = DOT then
      (if startOfLine then [DOT] else []) ++ DOT :: escapeFrom (some b) false rest
    else b :: escapeFrom (some b) false rest

def endsWithCrlf (out : Bytes) : Bool := [CR, LF].isSuffixOf out

/-- What is written, and the size of what is allocated for it. -/
structure Written where
  out : Bytes
  size : Nat
  deriving DecidableEq

/-- It is `none` where an assertion stops the program: for the length, in `tor_malloc` and at the end. -/
def writeEscapedData (data : Bytes) : Option Written :=
  if data.length < SIZE_MAX - 9 then
    match sizeOut (data.length + 8 + 1) data with
    | none => some ⟨[DOT, CR, LF], 4⟩
    | some szOut =>
      if szOut < SIZE_T_CEILING then
        let out := escapeFrom none true data
        let out := if out.length < 2 ∨ endsWithCrlf out = false then out ++ [CR, LF] else out
        let out := out ++ [DOT, CR, LF]
        if out.length ≤ szOut then some ⟨out, szOut⟩ else none
      else none
  else none

/-! ## The reader -/

/-- The bytes of a line up to LF, without a CR before it. -/
def stripCr (line : Bytes) : Bytes := if line.getLast? = some CR then line.dropLast else line

/-- The loop over the lines; `todo` bounds them. -/
def readLines : (todo : Nat) → Bytes → Bytes
  | 0, _ => []
  | _ + 1, [] => []
  | todo + 1, b :: rest =>
    let data := if b = DOT then rest else b :: rest
    let line := data.takeWhile (· ≠ LF)
    if line.length < data.length then stripCr line ++ LF :: readLines todo (data.drop (line.length + 1))
    else data

def readEscapedData (data : Bytes) : Bytes := readLines data.length data

/-! ## What a block is -/

/-- The data with every CRLF replaced by LF. -/
def crlfToLf : Bytes → Bytes
  | [] => []
  | [b] => [b]
  | a :: b :: rest => if a = CR ∧ b = LF then crlfToLf (b :: rest) else a :: crlfToLf (b :: rest)

/-- The data as it is read back: with LF at the ends of lines, and at the end. -/
def normalised (data : Bytes) : Bytes :=
  if data.getLast? = some LF then crlfToLf data else crlfToLf data ++ [LF]

/-- A line before the last one of a block, without its LF. -/
structure BlockLine (line : Bytes) : Prop where
  noLf : LF ∉ line
  cr : line.getLast? = some CR
  notLast : line ≠ [DOT, CR]

/-- What is written fits, with its NUL; it is lines that CRLF ends, the last one and only it a single dot; and the
lines before the last one are read as the data. -/
def FramedAs (data : Bytes) (w : Written) : Prop :=
  w.out.length < w.size ∧ ∃ lines, w.out = unlines LF (lines ++ [[DOT, CR]]) ∧ (∀ line ∈ lines, BlockLine line) ∧
    readEscapedData (unlines LF lines) = normalised data

/-! ## Lines -/

/-- The dot before a dot. -/
def stuff : Bytes → Bytes
  | [] => []
  | b :: rest => if b = DOT then DOT :: b :: rest else b :: rest

def crOf (line : Bytes) : Bytes := if line.getLast? = some CR then [] else [CR]

variable {line data : Bytes}

theorem mem_stuff_lf (h : LF ∉ line) : LF ∉ stuff line := by
  cases line with
  | nil => exact h
  | cons b rest =>
    rw [stuff]
    split
    · intro hm
      rcases List.mem_cons.mp hm with he | hm
      · exact absurd he (by decide)
      · exact h hm
    · exact h

theorem getLast?_stuff (line : Bytes) : (stuff line).getLast? = line.getLast? := by
  cases line with
  | nil => rfl
  | cons b rest =>
    rw [stuff]
    split
    · rw [List.getLast?_cons_cons]
    · rfl

theorem getLast?_cons_or (b : UInt8) (line : Bytes) (prev : Option UInt8) :
    ((b :: line).getLast?.or prev) = (line.getLast?.or (some b)) := by
  cases line with
  | nil => rfl
  | cons a line =>
    rw [List.getLast?_cons_cons, List.getLast?_eq_getLast_of_ne_nil (List.cons_ne_nil a line)]
    rfl

/-- Within a line nothing is added. -/
theorem escapeFrom_within (h : LF ∉ line) (prev : Option UInt8) (rest : Bytes) :
    escapeFrom prev false (line ++ rest) = line ++ escapeFrom (line.getLast?.or prev) false rest := by
  induction line generalizing prev with
  | nil => rfl
  | cons b line ih =>
    obtain ⟨hb, hline⟩ := not_or.mp (List.mem_cons.not.mp h)
    rw [List.cons_append, escapeFrom, if_neg (Ne.symm hb), ih hline, getLast?_cons_or]
    split
    next hdot => rw [hdot]; rfl
    · rfl

/-- From its start, a line is stuffed. -/
theorem escapeFrom_start (h : LF ∉ line) (prev : Option UInt8) (rest : Bytes) :
    escapeFrom prev true (line ++ rest) =
      stuff line ++ escapeFrom (line.getLast?.or prev) (line = []) rest := by
  cases line with
  | nil => rfl
  | cons b line =>
    obtain ⟨hb, hline⟩ := not_or.mp (List.mem_cons.not.mp h)
    have hwithin := escapeFrom_within hline (some b) rest
    have hne : decide (b :: line = []) = false := by simp
    rw [List.cons_append, escapeFrom, if_neg (Ne.symm hb), hwithin, getLast?_cons_or, hne, stuff]
    split
    next hdot => rw [hdot]; rfl
    · rfl

/-- A line with what is written for its end. -/
def lineOut (line : Bytes) : Bytes := stuff line ++ crOf line

/-- A line, from its start, is written as one; it must not be empty at the start of the block. -/
theorem escapeFrom_line (h : LF ∉ line) {prev : Option UInt8} (hprev : line ≠ [] ∨ prev = some LF) (rest : Bytes) :
    escapeFrom prev true (line ++ LF :: rest) = lineOut line ++ LF :: escapeFrom (some LF) true rest := by
  have hcr : (if (line.getLast?.or prev).any (· ≠ CR) then [CR] else []) = crOf line := by
    unfold crOf
    cases hlast : line.getLast? with
    | none =>
      obtain rfl := hprev.resolve_left (not_not.mpr (List.getLast?_eq_none_iff.mp hlast))
      rfl
    | some b =>
      by_cases hb : b = CR
      · subst hb
        rfl
      · simp [hb]
  rw [escapeFrom_start h, escapeFrom, if_pos rfl, hcr, lineOut, List.append_assoc]

variable {ms : List Bytes} {last : Bytes}

theorem escapeFrom_lines (hms : ∀ l ∈ ms, LF ∉ l) (hlast : LF ∉ last)
    {prev : Option UInt8} (hprev : (∀ l ∈ ms.head?, l ≠ []) ∨ prev = some LF) :
    escapeFrom prev true (unlines LF ms ++ last) = unlines LF (ms.map lineOut) ++ stuff last := by
  induction ms generalizing prev with
  | nil =>
    have := escapeFrom_start hlast prev []
    rwa [List.append_nil, escapeFrom, List.append_nil] at this
  | cons l ms ih =>
    rw [unlines_cons, List.append_assoc, List.cons_append,
      escapeFrom_line (hms l List.mem_cons_self) (hprev.imp_left fun h => h l rfl),
      ih (fun m hm => hms m (List.mem_cons_of_mem l hm)) (.inr rfl), List.map_cons, unlines_cons, List.append_assoc,
      List.cons_append]

/-! ## Reading a line back -/

theorem stripCr_append_cr (line : Bytes) : stripCr (line ++ [CR]) = line := by
  rw [stripCr, if_pos (by rw [List.getLast?_append]; rfl), List.dropLast_concat]

theorem stripCr_lineOut (line : Bytes) : stripCr (line ++ crOf line) = stripCr line := by
  unfold crOf
  split
  · rw [List.append_nil]
  next hcr => rw [stripCr_append_cr, stripCr, if_neg hcr]

/-- A line that was stuffed is read without the dot. -/
theorem readLine_stuffed {cr rest : Bytes} (hline : LF ∉ line) (hcr : LF ∉ cr) (hne : line ++ cr ≠ [])
    (hdot : line = [] → cr.head? ≠ some DOT) (todo : Nat) :
    readLines (todo + 1) (stuff line ++ cr ++ LF :: rest) = stripCr (line ++ cr) ++ LF :: readLines todo rest := by
  have hnot : ∀ b ∈ line ++ cr, decide (b ≠ LF) = true := fun b hb =>
    decide_eq_true fun he => (List.mem_append.mp (he ▸ hb)).elim hline hcr
  have htake : (line ++ cr ++ LF :: rest).takeWhile (· ≠ LF) = line ++ cr :=
    takeWhile_run hnot fun b hb => by
      obtain rfl := Option.some_inj.mp hb
      rfl
  have hread : ∀ data : Bytes, data = line ++ cr ++ LF :: rest →
      (if (data.takeWhile (· ≠ LF)).length < data.length then
        stripCr (data.takeWhile (· ≠ LF)) ++ LF :: readLines todo (data.drop ((data.takeWhile (· ≠ LF)).length + 1))
      else data) = stripCr (line ++ cr) ++ LF :: readLines todo rest := by
    rintro data rfl
    rw [htake, if_pos (by simp only [List.length_append, List.length_cons]; omega), List.drop_length_add_append,
      List.drop_succ_cons, List.drop_zero]
  cases line with
  | nil =>
    cases cr with
    | nil => exact absurd rfl hne
    | cons b cr =>
      have hb : b ≠ DOT := fun he => hdot rfl (congrArg some he)
      simp only [stuff, List.nil_append, List.cons_append, readLines, if_neg hb]
      exact hread _ rfl
  | cons b line =>
    by_cases hb : b = DOT
    · simp only [stuff, if_pos hb, List.cons_append, readLines, if_true]
      exact hread _ rfl
    · simp only [stuff, if_neg hb, List.cons_append, readLines]
      exact hread _ rfl

theorem readLines_lineOut (hms : ∀ l ∈ ms, LF ∉ l) (rest : Bytes) (todo : Nat) :
    readLines (ms.length + todo) (unlines LF (ms.map lineOut) ++ rest) =
      unlines LF (ms.map stripCr) ++ readLines todo rest := by
  induction ms with
  | nil => rw [List.length_nil, Nat.zero_add]; rfl
  | cons l ms ih =>
    have hcr : LF ∉ crOf l := by
      unfold crOf
      split
      · exact List.not_mem_nil
      · decide
    have hne : l ++ crOf l ≠ [] := by
      intro hnil
      obtain ⟨rfl, hc⟩ := List.append_eq_nil_iff.mp hnil
      exact absurd hc (by decide)
    rw [List.map_cons, List.map_cons, unlines_cons, unlines_cons, List.length_cons, lineOut, List.append_assoc,
      List.cons_append, Nat.add_right_comm,
      readLine_stuffed (hms l List.mem_cons_self) hcr hne (by rintro rfl; decide), stripCr_lineOut,
      ih fun m hm => hms m (List.mem_cons_of_mem l hm), List.append_assoc, List.cons_append]

/-! ## The data as lines -/

theorem crlfToLf_last (h : LF ∉ last) : crlfToLf last = last := by
  induction last with
  | nil => rfl
  | cons a last ih =>
    have hlast : LF ∉ last := fun hm => h (List.mem_cons_of_mem a hm)
    cases last with
    | nil => rfl
    | cons b last =>
      have hb : ¬(a = CR ∧ b = LF) := fun hand => hlast (hand.2 ▸ List.mem_cons_self)
      rw [crlfToLf, if_neg hb, ih hlast]

theorem crlfToLf_line (h : LF ∉ line) (rest : Bytes) :
    crlfToLf (line ++ LF :: rest) = stripCr line ++ LF :: crlfToLf rest := by
  induction line with
  | nil =>
    cases rest with
    | nil => rfl
    | cons b rest =>
      rw [List.nil_append, crlfToLf, if_neg (fun hand => absurd hand.1 (by decide))]
      rfl
  | cons a line ih =>
    have hline : LF ∉ line := fun hm => h (List.mem_cons_of_mem a hm)
    cases line with
    | nil =>
      rw [List.singleton_append, crlfToLf]
      have hlf := ih hline
      rw [List.nil_append] at hlf
      by_cases ha : a = CR
      · subst ha
        rw [if_pos ⟨rfl, rfl⟩, hlf]
        rfl
      · rw [if_neg fun hand => ha hand.1, hlf]
        have : ([a] : Bytes).getLast? ≠ some CR := fun he => ha (Option.some_inj.mp he)
        rw [stripCr, stripCr, if_neg this, if_neg (by decide)]
        rfl
    | cons b line =>
      have hb : ¬(a = CR ∧ b = LF) := fun hand => hline (hand.2 ▸ List.mem_cons_self)
      have hstrip : stripCr (a :: b :: line) = a :: stripCr (b :: line) := by
        unfold stripCr
        rw [List.getLast?_cons_cons]
        split <;> rfl
      rw [List.cons_append, List.cons_append, crlfToLf, if_neg hb, hstrip, ← List.cons_append, ih hline]
      rfl

theorem crlfToLf_lines (hms : ∀ l ∈ ms, LF ∉ l) (hlast : LF ∉ last) :
    crlfToLf (unlines LF ms ++ last) = unlines LF (ms.map stripCr) ++ last := by
  induction ms with
  | nil => exact crlfToLf_last hlast
  | cons l ms ih =>
    rw [unlines_cons, List.append_assoc, List.cons_append, crlfToLf_line (hms l List.mem_cons_self),
      ih fun m hm => hms m (List.mem_cons_of_mem l hm), List.map_cons, unlines_cons, List.append_assoc, List.cons_append]

/-! ## How much is written -/

theorem length_escapeFrom (prev : Option UInt8) (startOfLine : Bool) (data : Bytes) :
    data.length ≤ (escapeFrom prev startOfLine data).length ∧
      (escapeFrom prev startOfLine data).length ≤
        data.length + 2 * data.count LF + (if startOfLine then 1 else 0) := by
  induction data generalizing prev startOfLine with
  | nil => exact ⟨Nat.le_refl 0, Nat.zero_le _⟩
  | cons b rest ih =>
    rw [escapeFrom, List.count_cons]
    by_cases hlf : b = LF
    · obtain ⟨hge, hle⟩ := ih (some b) true
      rw [if_pos hlf, if_pos (beq_iff_eq.mpr hlf), List.length_append, List.length_cons, List.length_cons]
      rw [if_pos rfl] at hle
      have : (if prev.any (· ≠ CR) then [CR] else []).length ≤ 1 := by split <;> simp
      exact ⟨by omega, by omega⟩
    · obtain ⟨hge, hle⟩ := ih (some b) false
      rw [if_neg hlf, if_neg (fun h => hlf (beq_iff_eq.mp h))]
      rw [if_neg Bool.false_ne_true] at hle
      by_cases hdot : b = DOT
      · rw [if_pos hdot, List.length_append, List.length_cons, List.length_cons]
        cases startOfLine
        · exact ⟨by simp; omega, by simp; omega⟩
        · exact ⟨by simp; omega, by simp; omega⟩
      · rw [if_neg hdot, List.length_cons, List.length_cons]
        exact ⟨by omega, by omega⟩

theorem sizeOut_fits {szOut : Nat} (h : szOut + 2 * data.count LF < SIZE_T_CEILING) :
    sizeOut szOut data = some (szOut + 2 * data.count LF) := by
  induction data generalizing szOut with
  | nil => rfl
  | cons b rest ih =>
    rw [List.count_cons] at h ⊢
    rw [sizeOut]
    by_cases hlf : b = LF
    · rw [if_pos (beq_iff_eq.mpr hlf)] at h ⊢
      have hmod : (szOut + 2) % 2 ^ 64 = szOut + 2 := Nat.mod_eq_of_lt (by unfold SIZE_T_CEILING at h; omega)
      rw [if_pos hlf, hmod, if_neg (by omega), ih (by omega)]
      congr 1
      omega
    · rw [if_neg (fun he => hlf (beq_iff_eq.mp he))] at h ⊢
      rw [if_neg hlf, ih (by omega), Nat.add_zero]

/-- A size below the ceiling is the whole sum, or the sum has gone past the 64 bits. -/
theorem sizeOut_some {szOut n : Nat} (h : sizeOut szOut data = some n) :
    n = szOut + 2 * data.count LF ∨ 2 ^ 64 ≤ szOut + 2 := by
  induction data generalizing szOut with
  | nil => exact .inl (Option.some_inj.mp h).symm
  | cons b rest ih =>
    rw [sizeOut] at h
    rw [List.count_cons]
    by_cases hlf : b = LF
    · rw [if_pos hlf] at h
      dsimp only at h
      split at h
      · cases h
      next hlt =>
        rw [if_pos (beq_iff_eq.mpr hlf)]
        by_cases hwrap : 2 ^ 64 ≤ szOut + 2
        · exact .inr hwrap
        · rw [Nat.mod_eq_of_lt (by omega)] at h hlt
          rcases ih h with heq | hover
          · exact .inl (by omega)
          · unfold SIZE_T_CEILING at hlt
            omega
    · rw [if_neg hlf] at h
      rw [if_neg (fun he => hlf (beq_iff_eq.mp he)), Nat.add_zero]
      exact ih h

/-! ## The block -/

theorem mem_unlines_lf (ms : List Bytes) : ms ≠ [] → (unlines LF ms).getLast? = some LF := by
  intro hne
  rw [← List.dropLast_concat_getLast hne, unlines_append, unlines_cons, unlines_nil, List.getLast?_append,
    List.getLast?_append]
  rfl

/-- Whether the data end with LF. -/
theorem getLast?_lines (hlast : LF ∉ last) : (unlines LF ms ++ last).getLast? = some LF ↔ ms ≠ [] ∧ last = [] := by
  rw [List.getLast?_append]
  cases hget : last.getLast? with
  | none =>
    obtain rfl := List.getLast?_eq_none_iff.mp hget
    cases ms with
    | nil => simp
    | cons l ms => simp [mem_unlines_lf]
  | some b =>
    have hb : b ≠ LF := fun he => hlast (he ▸ List.mem_of_getLast? hget)
    have hne : last ≠ [] := fun hnil => by rw [hnil] at hget; cases hget
    simp [hb, hne]

theorem getLast?_lineOut (line : Bytes) : (lineOut line).getLast? = some CR := by
  unfold lineOut crOf
  split
  next hcr => rw [List.append_nil, getLast?_stuff, hcr]
  · rw [List.getLast?_append]; rfl

theorem stuff_append_ne {cr : Bytes} (hcr : cr = [] ∨ cr = [CR]) (hend : cr = [] → line ≠ [DOT]) :
    stuff line ++ cr ≠ [DOT, CR] := by
  cases line with
  | nil => rcases hcr with rfl | rfl <;> decide
  | cons b rest =>
    by_cases hb : b = DOT
    · rw [stuff, if_pos hb, hb]
      intro he
      exact absurd (List.cons.inj (List.cons.inj he).2).1 (by decide)
    · rw [stuff, if_neg hb]
      exact fun he => hb (List.cons.inj he).1

theorem blockLine_lineOut (h : LF ∉ line) : BlockLine (lineOut line) where
  noLf hm := by
    rcases List.mem_append.mp hm with hm | hm
    · exact mem_stuff_lf h hm
    · unfold crOf at hm
      split at hm
      · exact absurd hm List.not_mem_nil
      · exact absurd hm (by decide)
  cr := getLast?_lineOut line
  notLast := by
    unfold lineOut crOf
    split
    next hcr => exact stuff_append_ne (.inl rfl) fun _ he => by rw [he] at hcr; exact absurd hcr (by decide)
    · exact stuff_append_ne (.inr rfl) fun he => absurd he (by decide)

theorem blockLine_last (h : LF ∉ last) : BlockLine (stuff last ++ [CR]) where
  noLf hm := by
    rcases List.mem_append.mp hm with hm | hm
    · exact mem_stuff_lf h hm
    · exact absurd hm (by decide)
  cr := by rw [List.getLast?_append]; rfl
  notLast := stuff_append_ne (.inr rfl) fun he => absurd he (by decide)

/-- The block without its last line: what the loop wrote, with CRLF after it unless it ends with CRLF. -/
def blockBody (data : Bytes) : Bytes :=
  if (escapeFrom none true data).length < 2 ∨ endsWithCrlf (escapeFrom none true data) = false then
    escapeFrom none true data ++ [CR, LF]
  else escapeFrom none true data

theorem writeEscapedData_eq (data : Bytes) :
    writeEscapedData data =
      if data.length < SIZE_MAX - 9 then
        match sizeOut (data.length + 9) data with
        | none => some ⟨[DOT, CR, LF], 4⟩
        | some szOut =>
          if szOut < SIZE_T_CEILING then
            if (blockBody data ++ [DOT, CR, LF]).length ≤ szOut then
              some ⟨blockBody data ++ [DOT, CR, LF], szOut⟩ else none
          else none
      else none := rfl

/-- The lines of the block without its last one. -/
theorem blockBody_lines (hms : ∀ l ∈ ms, LF ∉ l) (hlast : LF ∉ last) (hfirst : ∀ l ∈ ms.head?, l ≠ []) :
    blockBody (unlines LF ms ++ last) = unlines LF (ms.map lineOut ++
      (if ms ≠ [] ∧ last = [] then [] else [stuff last ++ [CR]])) := by
  have hout := @escapeFrom_lines ms last hms hlast none (.inl hfirst)
  unfold blockBody
  rw [hout]
  by_cases hend : ms ≠ [] ∧ last = []
  · obtain ⟨hne, rfl⟩ := hend
    obtain ⟨cr, hcr⟩ := List.getLast?_eq_some_iff.mp (getLast?_lineOut (ms.getLast hne))
    have hsplit : unlines LF (ms.map lineOut) ++ stuff [] = unlines LF (ms.dropLast.map lineOut) ++ cr ++ [CR, LF] := by
      conv_lhs => rw [← List.dropLast_concat_getLast hne]
      rw [List.map_append, unlines_append, List.map_singleton, unlines_cons, hcr, unlines_nil]
      simp [stuff]
    have hcrlf : endsWithCrlf (unlines LF (ms.map lineOut) ++ stuff []) = true := by
      rw [hsplit, endsWithCrlf, List.isSuffixOf_iff_suffix]
      exact List.suffix_append _ _
    have hlen : ¬(unlines LF (ms.map lineOut) ++ stuff []).length < 2 := by
      rw [hsplit, List.length_append]
      simp
    rw [if_neg (by rw [hcrlf]; simpa using hlen), if_pos ⟨hne, rfl⟩, List.append_nil]
    exact List.append_nil _
  · have hnot : (unlines LF (ms.map lineOut) ++ stuff last).length < 2 ∨
        endsWithCrlf (unlines LF (ms.map lineOut) ++ stuff last) = false := by
      by_cases hnil : ms = [] ∧ last = []
      · obtain ⟨rfl, rfl⟩ := hnil
        exact .inl (by decide)
      · have hne : last ≠ [] := fun hl => by
          by_cases hm : ms = []
          · exact hnil ⟨hm, hl⟩
          · exact hend ⟨hm, hl⟩
        refine .inr (Bool.eq_false_iff.mpr fun hcrlf => ?_)
        obtain ⟨start, hstart⟩ := List.isSuffixOf_iff_suffix.mp hcrlf
        have hget := congrArg List.getLast? hstart
        rw [List.getLast?_append, List.getLast?_append, getLast?_stuff] at hget
        obtain ⟨b, hb⟩ := Option.ne_none_iff_exists'.mp fun hn => hne (List.getLast?_eq_none_iff.mp hn)
        rw [hb] at hget
        have hlf : LF = b := Option.some_inj.mp hget
        exact hlast (hlf ▸ List.mem_of_getLast? hb)
    rw [if_pos hnot, if_neg hend, unlines_append, unlines_cons, unlines_nil]
    simp

theorem readEscapedData_lines (hms : ∀ l ∈ ms, LF ∉ l) (hlast : LF ∉ last) :
    readEscapedData (unlines LF (ms.map lineOut ++
      (if ms ≠ [] ∧ last = [] then [] else [stuff last ++ [CR]]))) = normalised (unlines LF ms ++ last) := by
  -- Every line has a byte for the loop's bound.
  have hbound : ∀ lines : List Bytes, lines.length ≤ (unlines LF lines).length := by
    intro lines
    induction lines with
    | nil => exact Nat.le_refl 0
    | cons l lines ih =>
      rw [unlines_cons, List.length_append, List.length_cons, List.length_cons]
      omega
  rw [normalised, crlfToLf_lines hms hlast, readEscapedData]
  by_cases hend : ms ≠ [] ∧ last = []
  · have hlen := hbound (ms.map lineOut)
    rw [List.length_map] at hlen
    obtain ⟨todo, htodo⟩ := Nat.exists_eq_add_of_le hlen
    have hread := readLines_lineOut hms [] todo
    rw [if_pos hend, List.append_nil, if_pos ((getLast?_lines hlast).mpr hend), htodo, hend.2]
    rw [List.append_nil] at hread
    rw [hread]
    cases todo <;> rfl
  · have hlen := hbound (ms.map lineOut ++ [stuff last ++ [CR]])
    rw [List.length_append, List.length_map, List.length_singleton] at hlen
    obtain ⟨todo, htodo⟩ := Nat.exists_eq_add_of_le hlen
    rw [if_neg hend, if_neg fun h => hend ((getLast?_lines hlast).mp h), htodo, Nat.add_assoc, unlines_append,
      readLines_lineOut hms, unlines_cons, unlines_nil, Nat.add_comm 1,
      readLine_stuffed hlast (by decide) (by simp) (fun _ => by decide), stripCr_append_cr]
    have hnil : readLines todo [] = [] := by cases todo <;> rfl
    rw [hnil, List.append_assoc]

/-- A block whose size fits and that does not start with LF is framed. -/
theorem framed_of_fits (hhead : data.head? ≠ some LF)
    (hfits : data.length + 9 + 2 * data.count LF < SIZE_T_CEILING) :
    ∃ w, writeEscapedData data = some w ∧ FramedAs data w := by
  have hsize := sizeOut_fits hfits
  have hlen : data.length < SIZE_MAX - 9 := by
    unfold SIZE_T_CEILING at hfits
    unfold SIZE_MAX
    omega
  have hbody : (blockBody data ++ [DOT, CR, LF]).length < data.length + 9 + 2 * data.count LF := by
    obtain ⟨-, hle⟩ := length_escapeFrom none true data
    have : (blockBody data).length ≤ (escapeFrom none true data).length + 2 := by
      unfold blockBody
      split <;> simp
    rw [if_pos rfl] at hle
    simp only [List.length_append, List.length_cons, List.length_nil]
    omega
  refine ⟨⟨blockBody data ++ [DOT, CR, LF], data.length + 9 + 2 * data.count LF⟩, ?_, hbody, ?_⟩
  · rw [writeEscapedData_eq, if_pos hlen, hsize]
    dsimp only
    rw [if_pos hfits, if_pos (Nat.le_of_lt hbody)]
  · obtain ⟨ms, last, rfl, hms, hlast⟩ := exists_lines LF data
    have hfirst : ∀ l ∈ ms.head?, l ≠ [] := by
      rintro l hl rfl
      cases ms with
      | nil => cases hl
      | cons m ms =>
        obtain rfl := Option.some_inj.mp hl
        exact hhead (by rw [unlines_cons]; rfl)
    refine ⟨_, ?_, ?_, readEscapedData_lines hms hlast⟩
    · dsimp only
      rw [blockBody_lines hms hlast hfirst, unlines_append LF _ [[DOT, CR]]]
      rfl
    · intro line hline
      rcases List.mem_append.mp hline with hline | hline
      · obtain ⟨l, hl, rfl⟩ := List.mem_map.mp hline
        exact blockLine_lineOut (hms l hl)
      · split at hline
        · exact absurd hline List.not_mem_nil
        · obtain rfl := List.mem_singleton.mp hline
          exact blockLine_last hlast

/-! ## Where it fails -/

theorem normalised_ne_nil (data : Bytes) : normalised data ≠ [] := by
  unfold normalised
  split
  next hlf =>
    cases data with
    | nil => cases hlf
    | cons a data =>
      rcases data with _ | ⟨b, rest⟩
      · exact List.cons_ne_nil _ _
      · intro hnil
        obtain ⟨ms, last, heq, hms, hlast⟩ := exists_lines LF (a :: b :: rest)
        rw [heq] at hlf
        rw [heq, crlfToLf_lines hms hlast] at hnil
        obtain ⟨hne, -⟩ := (getLast?_lines hlast).mp hlf
        have := congrArg List.length (List.append_eq_nil_iff.mp hnil).1
        rcases ms with _ | ⟨l, ms⟩
        · exact hne rfl
        · rw [List.map_cons, unlines_cons] at this
          simp at this
  · simp

/-- The block of a text that is too long is its last line alone. -/
theorem not_framed_empty (data : Bytes) : ¬FramedAs data ⟨[DOT, CR, LF], 4⟩ := by
  rintro ⟨-, lines, hout, hlines, hread⟩
  rw [unlines_append] at hout
  have hnil : unlines LF lines = [] := by
    have hlen := congrArg List.length hout
    rw [List.length_append] at hlen
    exact List.length_eq_zero_iff.mp (by simpa [unlines] using hlen)
  rw [hnil] at hread
  exact normalised_ne_nil data hread.symm

/-- A block that starts with LF has a first line that no CRLF ends. -/
theorem not_framed_of_lf {out : Bytes} {size : Nat} (data : Bytes) (h : out.head? = some LF) :
    ¬FramedAs data ⟨out, size⟩ := by
  rintro ⟨-, lines, hout, hlines, -⟩
  dsimp only at hout
  rw [hout] at h
  cases lines with
  | nil => exact absurd h (by decide)
  | cons l lines =>
    obtain ⟨hno, hcr, -⟩ := hlines l List.mem_cons_self
    rw [List.cons_append, unlines_cons] at h
    cases l with
    | nil => cases hcr
    | cons b l => exact hno (Option.some_inj.mp h ▸ List.mem_cons_self)

theorem head?_blockBody (h : data.head? = some LF) : (blockBody data).head? = some LF := by
  cases data with
  | nil => cases h
  | cons b rest =>
    obtain rfl := Option.some_inj.mp h
    unfold blockBody
    split <;> rfl

/-- Data are framed without loss exactly when they do not start with LF and the size of their block is below the
ceiling. -/
theorem write_framed_iff (data : Bytes) :
    (∃ w, writeEscapedData data = some w ∧ FramedAs data w) ↔
      data.head? ≠ some LF ∧ data.length + 9 + 2 * data.count LF < SIZE_T_CEILING := by
  refine ⟨?_, fun h => framed_of_fits h.1 h.2⟩
  rintro ⟨w, hw, hframed⟩
  rw [writeEscapedData_eq] at hw
  split at hw
  next hlen =>
    split at hw
    · obtain rfl := Option.some_inj.mp hw
      exact absurd hframed (not_framed_empty data)
    next szOut hsize =>
      split at hw
      next hceil =>
        split at hw
        next hle =>
          obtain rfl := Option.some_inj.mp hw
          refine ⟨fun hhead => ?_, ?_⟩
          · refine not_framed_of_lf data ?_ hframed
            rw [List.head?_append, head?_blockBody hhead]
            rfl
          · rcases sizeOut_some hsize with rfl | hover
            · exact hceil
            · -- The sum has gone past the 64 bits, so the block is larger than what is allocated.
              have hge := (length_escapeFrom none true data).1
              have hbody : (escapeFrom none true data).length ≤ (blockBody data).length := by
                unfold blockBody
                split <;> simp
              rw [List.length_append] at hle
              unfold SIZE_T_CEILING at hceil
              omega
        · cases hw
      · cases hw
  · cases hw

/-- One LF is written as it is, with no CR before it. -/
theorem a_leading_newline_stays_bare :
    writeEscapedData [LF] = some ⟨[LF, CR, LF, DOT, CR, LF], 12⟩ ∧
      ¬∃ w, writeEscapedData [LF] = some w ∧ FramedAs [LF] w := by
  refine ⟨by decide, ?_⟩
  rintro ⟨w, hw, hframed⟩
  obtain rfl : w = ⟨[LF, CR, LF, DOT, CR, LF], 12⟩ := Option.some_inj.mp (hw.symm.trans (by decide))
  exact not_framed_of_lf _ rfl hframed

end Badnet.Control

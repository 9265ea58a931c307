/-
  Badnet.Buf.Search — looking for a string in a buffer.

  Where a match goes on in the next chunk, `buf_find_string_offset` takes the byte that the data of this chunk begins
  with, also if the chunk has none. So every string is found where it first stands if and only if no empty chunk stands
  behind a chunk with data (`string_search_exact_iff`).
-/

import Badnet.Buf.Queue
import Badnet.Lib.Lines

namespace Badnet.Buffers

open Lib

/-! ## Positions -/

/-- `buf_pos_t`: the chunk it points to with those behind it, none at NULL. -/
structure BufPos where
  chunk : List Chunk
  pos : Nat
  chunkPos : Nat

def bufPosInit (b : Buf) : BufPos := ⟨b.chunks, 0, 0⟩

/-- The loop of `buf_find_pos_of_char`. -/
def findCharLoop (ch : UInt8) (pos chunkPos : Nat) : List Chunk → Option (Option BufPos)
  | [] => some none
  | chunk :: rest =>
    match ((chunk.read chunk.datalen).drop pos).findIdx? (· == ch) with
    | some i => if pos + i ≤ bufMaxLen then some (some ⟨chunk :: rest, pos + i, chunkPos⟩) else none
    | none => findCharLoop ch 0 (chunkPos + chunk.datalen) rest

/-- None is a failed assertion, an inner none is the answer -1. -/
def bufFindPosOfChar (ch : UInt8) (out : BufPos) : Option (Option BufPos) :=
  match out.chunk with
  | [] => some none
  | chunk :: rest =>
    if (if chunk.datalen ≠ 0 then out.pos < chunk.datalen else out.pos = 0) then
      findCharLoop ch out.pos out.chunkPos (chunk :: rest)
    else none

def bufPosInc (pos : BufPos) : Option (Option BufPos) :=
  match pos.chunk with
  | [] => none
  | chunk :: rest =>
    if pos.pos < bufMaxLen then
      if pos.pos + 1 = chunk.datalen then
        match rest with
        | [] => some none
        | _ :: _ => some (some ⟨rest, 0, pos.chunkPos + chunk.datalen⟩)
      else some (some { pos with pos := pos.pos + 1 })
    else none

/-- `p.chunk->data[p.pos]`, if that is in the memory of the chunk. -/
def BufPos.byte (p : BufPos) : Option UInt8 :=
  match p.chunk with
  | [] => none
  | chunk :: _ => chunk.mem[chunk.data + p.pos]?

def bufMatchesAtPos : BufPos → List UInt8 → Option Bool
  | _, [] => some true
  | p, ch :: s =>
    match p.byte with
    | none => none
    | some b =>
      if b ≠ ch then some false
      else if s = [] then some true
      else match bufPosInc p with
        | none => none
        | some none => some false
        | some (some p) => bufMatchesAtPos p s

/-- The loop of `buf_find_string_offset`; each turn looks further on, so there are at most as many as bytes. -/
def findStringLoop (s : List UInt8) : Nat → BufPos → Option Int
  | 0, _ => none
  | fuel + 1, pos =>
    match s with
    | [] => none
    | ch :: _ =>
      match bufFindPosOfChar ch pos with
      | none => none
      | some none => some (-1)
      | some (some pos) =>
        match bufMatchesAtPos pos s with
        | none => none
        | some true => if pos.chunkPos + pos.pos ≤ bufMaxLen then some ((pos.chunkPos + pos.pos : Nat) : Int) else none
        | some false =>
          match bufPosInc pos with
          | none => none
          | some none => some (-1)
          | some (some pos) => findStringLoop s fuel pos

def bufFindStringOffset (b : Buf) (s : List UInt8) : Option Int := findStringLoop s (b.datalen + 1) (bufPosInit b)

/-! ## Positions in the data -/

variable {c : Chunk} {cs rest : List Chunk} {p p' : BufPos} {s : List UInt8} {ch : UInt8} {pos base : Nat}

/-- What is left of the buffer from a position on. -/
def BufPos.rem (p : BufPos) : List UInt8 := (bytesOf p.chunk).drop p.pos

def BufPos.offset (p : BufPos) : Nat := p.chunkPos + p.pos

/-- Chunks that are whole and not too long. -/
def Whole (cs : List Chunk) : Prop := ∀ c ∈ cs, c.Ok ∧ c.datalen ≤ bufMaxLen

/-- A position at a byte of a chunk; the chunks behind it, up to those in `more`, have data. -/
structure Solid (more : List Chunk) (p : BufPos) : Prop where
  whole : Whole p.chunk
  inside : ∃ c full, p.chunk = c :: (full ++ more) ∧ p.pos < c.datalen ∧ ∀ d ∈ full, d.datalen ≠ 0

theorem rem_inside (hc : c.Ok) (hpos : pos < c.datalen) (rest : List Chunk) (base : Nat) :
    BufPos.rem ⟨c :: rest, pos, base⟩ = c.bytes.drop pos ++ bytesOf rest := by
  have hle : pos ≤ c.bytes.length := by
    rw [Chunk.length_bytes hc]
    exact Nat.le_of_lt hpos
  simp only [BufPos.rem, bytesOf_cons]
  exact List.drop_append_of_le_length hle

theorem byte_inside (hc : c.Ok) (hpos : pos < c.datalen) (rest : List Chunk) (base : Nat) :
    BufPos.byte ⟨c :: rest, pos, base⟩ = (BufPos.rem ⟨c :: rest, pos, base⟩).head? := by
  have hne : c.bytes.drop pos ≠ [] := by
    rw [ne_eq, List.drop_eq_nil_iff, Chunk.length_bytes hc]
    omega
  rw [rem_inside hc hpos, List.head?_append_of_ne_nil _ hne, List.head?_drop]
  simp only [BufPos.byte, Chunk.bytes, Chunk.read, List.getElem?_take, if_pos hpos, List.getElem?_drop]

variable {more : List Chunk} {xs : List UInt8} {b : Buf}

theorem Solid.byte_eq (h : Solid more p) : ∃ b, p.byte = some b ∧ p.rem = b :: p.rem.tail := by
  obtain ⟨hwhole, c, full, hchunk, hpos, -⟩ := h
  obtain ⟨chunk, pos, base⟩ := p
  subst hchunk
  have hc := (hwhole c List.mem_cons_self).1
  have hne : BufPos.rem ⟨c :: (full ++ more), pos, base⟩ ≠ [] := by
    rw [rem_inside hc hpos]
    refine List.append_ne_nil_of_left_ne_nil ?_ _
    rw [ne_eq, List.drop_eq_nil_iff, Chunk.length_bytes hc]
    exact Nat.not_le.mpr hpos
  obtain ⟨b, tail, hrem⟩ := List.exists_cons_of_ne_nil hne
  exact ⟨b, by rw [byte_inside hc hpos, hrem]; rfl, by rw [hrem]; rfl⟩

theorem tail_inside (hc : c.Ok) (hpos : pos < c.datalen) (rest : List Chunk) (base : Nat) :
    (BufPos.rem ⟨c :: rest, pos, base⟩).tail = c.bytes.drop (pos + 1) ++ bytesOf rest := by
  have hne : c.bytes.drop pos ≠ [] := by
    rw [ne_eq, List.drop_eq_nil_iff, Chunk.length_bytes hc]
    omega
  rw [rem_inside hc hpos, List.tail_append_of_ne_nil hne, List.tail_drop]

/-- One byte on: to the next byte of the data, out of the buffer, or to the first chunk of those in `more`. -/
theorem Solid.inc (h : Solid more p) : (bufPosInc p = some none ∧ p.rem.tail = [] ∧ more = []) ∨
    (∃ p', bufPosInc p = some (some p') ∧ p'.rem = p.rem.tail ∧ p'.offset = p.offset + 1 ∧
      (Solid more p' ∨ (p'.chunk = more ∧ p'.pos = 0 ∧ more ≠ []))) := by
  obtain ⟨hwhole, c, full, hchunk, hpos, hfull⟩ := h
  obtain ⟨chunk, pos, base⟩ := p
  simp only at hchunk hpos
  subst hchunk
  obtain ⟨hc, hmax⟩ := hwhole c List.mem_cons_self
  have htail : Whole (full ++ more) := fun d hd => hwhole d (List.mem_cons_of_mem _ hd)
  rw [tail_inside hc hpos, bufPosInc]
  simp only [if_pos (Nat.lt_of_lt_of_le hpos hmax)]
  by_cases hlast : pos + 1 = c.datalen
  · have hnone : c.bytes.drop (pos + 1) = [] := List.drop_eq_nil_of_le (by rw [Chunk.length_bytes hc]; omega)
    rw [if_pos hlast, hnone, List.nil_append]
    have hoffset : base + c.datalen = base + pos + 1 := by omega
    cases full with
    | nil =>
      cases more with
      | nil => exact .inl ⟨rfl, rfl, rfl⟩
      | cons m more => exact .inr ⟨_, rfl, rfl, hoffset, .inr ⟨rfl, rfl, List.cons_ne_nil _ _⟩⟩
    | cons d full =>
      refine .inr ⟨_, rfl, rfl, hoffset, .inl ⟨htail, d, full, rfl, ?_, fun e he => hfull e (List.mem_cons_of_mem _ he)⟩⟩
      exact Nat.pos_of_ne_zero (hfull d List.mem_cons_self)
  · have hnext : pos + 1 < c.datalen := by omega
    rw [if_neg hlast]
    exact .inr ⟨_, rfl, rem_inside hc hnext _ _, rfl, .inl ⟨hwhole, c, full, rfl, hnext, hfull⟩⟩

/-! ## Matching -/

/-- As long as there is data, a match is one of the contents. -/
theorem bufMatchesAtPos_eq (s : List UInt8) :
    ∀ {p : BufPos}, Solid [] p → bufMatchesAtPos p s = some (decide (s <+: p.rem)) := by
  induction s with
  | nil =>
    intro p _
    simp [bufMatchesAtPos]
  | cons ch s ih =>
    intro p h
    obtain ⟨b, hbyte, hrem⟩ := h.byte_eq
    rw [bufMatchesAtPos, hbyte, hrem]
    simp only [List.cons_prefix_cons]
    by_cases hb : b = ch
    · subst hb
      rw [if_neg fun hne => hne rfl]
      by_cases hs : s = []
      · simp [hs]
      rw [if_neg hs]
      rcases h.inc with ⟨hinc, htail, -⟩ | ⟨p', hinc, htail, -, hsolid | ⟨-, -, hmore⟩⟩
      · rw [hinc, htail]
        simp [hs]
      · rw [hinc]
        simp only [ih hsolid, htail, true_and]
      · exact absurd rfl hmore
    · have hb' : ¬ ch = b := fun heq => hb heq.symm
      rw [if_pos hb]
      simp [hb']

theorem Solid.length_lt (h : Solid more p) : (bytesOf more).length < p.rem.length := by
  obtain ⟨hwhole, c, full, hchunk, hpos, -⟩ := h
  obtain ⟨chunk, pos, base⟩ := p
  simp only at hchunk hpos
  subst hchunk
  have hc := (hwhole c List.mem_cons_self).1
  rw [rem_inside hc hpos, bytesOf_append]
  simp only [List.length_append, List.length_drop, Chunk.length_bytes hc]
  omega

/-- A match that goes on behind the data is one with what is there. -/
theorem bufMatchesAtPos_append {tail : List UInt8} (htail : tail ≠ []) (hmore : more ≠ [])
    (x : List UInt8) : ∀ {p : BufPos}, Solid more p → p.rem = x ++ bytesOf more →
      ∃ base, bufMatchesAtPos p (x ++ tail) = bufMatchesAtPos ⟨more, 0, base⟩ tail := by
  induction x with
  | nil =>
    intro p h hrem
    have hlt := h.length_lt
    rw [hrem] at hlt
    exact absurd hlt (Nat.lt_irrefl _)
  | cons ch x ih =>
    intro p h hrem
    obtain ⟨b, hbyte, hcons⟩ := h.byte_eq
    rw [hrem, List.cons_append, List.tail_cons] at hcons
    obtain ⟨rfl, -⟩ := List.cons.inj hcons
    have hne : ¬ x ++ tail = [] := fun hnil => htail (List.append_eq_nil_iff.mp hnil).2
    rw [List.cons_append, bufMatchesAtPos, hbyte]
    simp only [ne_eq, not_true_eq_false, if_false, if_neg hne]
    rcases h.inc with ⟨-, -, hnone⟩ | ⟨p', hinc, hrem', -, hsolid | ⟨hchunk, hpos, -⟩⟩
    · exact absurd hnone hmore
    · rw [hinc]
      rw [hrem, List.cons_append, List.tail_cons] at hrem'
      exact ih hsolid hrem'
    · obtain ⟨chunk, pos, base⟩ := p'
      simp only at hchunk hpos
      subst hchunk hpos
      rw [hrem, List.cons_append, List.tail_cons] at hrem'
      have hx : x = [] := List.append_left_eq_self.mp hrem'.symm
      rw [hinc, hx]
      exact ⟨base, rfl⟩

/-- In an empty chunk there is no next chunk: all of its memory is looked at, and more. -/
theorem bufMatchesAtPos_stale (hempty : c.datalen = 0) (rest : List Chunk) (base : Nat) (tail : List UInt8) : ∀ pos : Nat,
    (tail <+: c.mem.drop (c.data + pos) → bufMatchesAtPos ⟨c :: rest, pos, base⟩ tail ≠ some false) ∧
    (c.mem.drop (c.data + pos) <+: tail → (c.mem.drop (c.data + pos)).length < tail.length →
      bufMatchesAtPos ⟨c :: rest, pos, base⟩ tail = none) := by
  induction tail with
  | nil =>
    intro pos
    exact ⟨fun _ => by simp [bufMatchesAtPos], fun _ hlt => absurd hlt (Nat.not_lt_zero _)⟩
  | cons ch tail ih =>
    intro pos
    obtain ⟨hmatch, hout⟩ := ih (pos + 1)
    rw [← Nat.add_assoc, ← List.drop_drop] at hmatch hout
    have hbyte : BufPos.byte ⟨c :: rest, pos, base⟩ = (c.mem.drop (c.data + pos)).head? := List.head?_drop.symm
    have hinc : bufPosInc ⟨c :: rest, pos, base⟩ =
        if pos < bufMaxLen then some (some ⟨c :: rest, pos + 1, base⟩) else none := by
      have hstay : ¬ pos + 1 = c.datalen := by omega
      simp only [bufPosInc, if_neg hstay]
    rw [bufMatchesAtPos, hbyte, hinc]
    cases hleft : c.mem.drop (c.data + pos) with
    | nil => exact ⟨fun hp => absurd (List.prefix_nil.mp hp) (List.cons_ne_nil _ _), fun _ _ => rfl⟩
    | cons b left =>
      rw [hleft, List.drop_one, List.tail_cons] at hmatch hout
      simp only [List.head?_cons, List.cons_prefix_cons, List.length_cons]
      refine ⟨fun hp => ?_, fun hp hlt => ?_⟩
      · obtain ⟨rfl, hp'⟩ := hp
        rw [if_neg fun hne => hne rfl]
        by_cases htail : tail = []
        · simp [htail]
        by_cases hmax : pos < bufMaxLen
        · rw [if_neg htail, if_pos hmax]
          exact hmatch hp'
        · rw [if_neg htail, if_neg hmax]
          simp
      · obtain ⟨rfl, hp'⟩ := hp
        have hlt' := Nat.lt_of_succ_lt_succ hlt
        have htail : tail ≠ [] := List.ne_nil_of_length_pos (Nat.lt_of_le_of_lt (Nat.zero_le _) hlt')
        rw [if_neg fun hne => hne rfl, if_neg htail]
        by_cases hmax : pos < bufMaxLen
        · rw [if_pos hmax]
          exact hout hp' hlt'
        · rw [if_neg hmax]

/-! ## Finding -/

/-- The first appearance of a byte, passing over the stretch `xs`. -/
structure FoundAt (ch : UInt8) (p p' : BufPos) (xs : List UInt8) : Prop where
  rem : p.rem = xs ++ p'.rem
  passed : ch ∉ xs
  head : p'.rem.head? = some ch
  offset : p'.offset = p.offset + xs.length
  suffix : p'.chunk <:+ p.chunk
  inside : ∃ c rest, p'.chunk = c :: rest ∧ p'.pos < c.datalen

theorem findCharLoop_spec (ch : UInt8) (hwhole : Whole cs) : ∀ (pos base : Nat), (∀ c ∈ cs.head?, pos ≤ c.datalen) →
    (findCharLoop ch pos base cs = some none ∧ ch ∉ BufPos.rem ⟨cs, pos, base⟩) ∨
    (∃ p' xs, findCharLoop ch pos base cs = some (some p') ∧ FoundAt ch ⟨cs, pos, base⟩ p' xs) := by
  induction cs with
  | nil =>
    intro pos base _
    exact .inl ⟨rfl, by simp [BufPos.rem]⟩
  | cons c rest ih =>
    intro pos base hpos
    obtain ⟨hc, hmax⟩ := hwhole c List.mem_cons_self
    have hlen := Chunk.length_bytes hc
    have hpos := hpos c rfl
    have hrem : BufPos.rem ⟨c :: rest, pos, base⟩ = c.bytes.drop pos ++ bytesOf rest := by
      simp only [BufPos.rem, bytesOf_cons]
      exact List.drop_append_of_le_length (by omega)
    rw [findCharLoop, hrem]
    rw [show c.read c.datalen = c.bytes from rfl]
    cases hfind : (c.bytes.drop pos).findIdx? (· == ch) with
    | none =>
      have hnot : ch ∉ c.bytes.drop pos := fun hmem => by simpa using List.findIdx?_eq_none_iff.mp hfind ch hmem
      have hstart : ∀ d ∈ rest.head?, 0 ≤ d.datalen := fun d _ => Nat.zero_le _
      rcases ih (fun d hd => hwhole d (List.mem_cons_of_mem _ hd)) 0 (base + c.datalen) hstart with
        ⟨hloop, hnone⟩ | ⟨p', xs, hloop, hfound⟩
      · refine .inl ⟨hloop, fun hmem => ?_⟩
        rcases List.mem_append.mp hmem with hmem | hmem
        · exact hnot hmem
        · exact hnone hmem
      · refine .inr ⟨p', c.bytes.drop pos ++ xs, hloop, ?_, ?_, hfound.head, ?_, ?_, hfound.inside⟩
        · rw [hrem, List.append_assoc, ← hfound.rem]
          rfl
        · rw [List.mem_append]
          exact not_or.mpr ⟨hnot, hfound.passed⟩
        · rw [hfound.offset]
          simp only [BufPos.offset, List.length_append, List.length_drop]
          omega
        · exact hfound.suffix.trans (List.suffix_cons c rest)
    | some i =>
      obtain ⟨hi, hch, hbefore⟩ := List.findIdx?_eq_some_iff_getElem.mp hfind
      rw [List.length_drop] at hi
      have hle : pos + i ≤ bufMaxLen := by omega
      have hlt : pos + i < c.datalen := by omega
      have hdrop : (c.bytes.drop pos).drop i = c.bytes.drop (pos + i) := List.drop_drop ..
      simp only [if_pos hle]
      refine .inr ⟨_, (c.bytes.drop pos).take i, rfl, ?_, ?_, ?_, ?_, List.suffix_refl _, c, rest, rfl, hlt⟩
      · rw [hrem, rem_inside hc hlt, ← List.append_assoc, ← hdrop, List.take_append_drop]
      · intro hmem
        obtain ⟨k, hk, hget⟩ := List.mem_take_iff_getElem.mp hmem
        exact hbefore k (by omega) (by simp [hget])
      · have hlt' : i < (c.bytes.drop pos).length := by rwa [List.length_drop]
        rw [rem_inside hc hlt, ← hdrop, List.head?_append, List.head?_drop, List.getElem?_eq_getElem hlt']
        simpa using hch
      · simp only [BufPos.offset, List.length_take, List.length_drop]
        omega

/-- Empty chunks stand only before those with data. -/
def EmptyFirst (cs : List Chunk) : Prop :=
  ∃ before full, cs = before ++ full ∧ (∀ c ∈ before, c.datalen = 0) ∧ ∀ c ∈ full, c.datalen ≠ 0

theorem EmptyFirst.suffix (h : EmptyFirst cs) (hsuffix : c :: rest <:+ cs) (hc : c.datalen ≠ 0) :
    ∀ d ∈ rest, d.datalen ≠ 0 := by
  obtain ⟨before, full, rfl, hempty, hfull⟩ := h
  obtain ⟨pre, hpre⟩ := hsuffix
  rcases List.append_eq_append_iff.mp hpre with ⟨a, rfl, ha⟩ | ⟨a, rfl, ha⟩
  · cases a with
    | nil =>
      rw [List.nil_append] at ha
      subst ha
      exact fun d hd => hfull d (List.mem_cons_of_mem _ hd)
    | cons e a =>
      cases ha
      exact absurd (hempty c (by simp)) hc
  · subst ha
    exact fun d hd => hfull d (by simp [hd])

theorem Solid.emptyFirst (h : Solid [] p) : EmptyFirst p.chunk := by
  obtain ⟨-, c, full, hchunk, hpos, hfull⟩ := h
  rw [List.append_nil] at hchunk
  refine ⟨[], p.chunk, rfl, by simp, ?_⟩
  rw [hchunk]
  intro d hd
  rcases List.mem_cons.mp hd with rfl | hd
  · omega
  · exact hfull d hd

theorem FoundAt.solid (h : FoundAt ch p p' xs) (hwhole : Whole p.chunk) (hfirst : EmptyFirst p.chunk) :
    Solid [] p' := by
  obtain ⟨c, rest, hchunk, hpos⟩ := h.inside
  have hsuffix := h.suffix
  refine ⟨fun d hd => hwhole d (hsuffix.subset hd), c, rest, by rw [hchunk, List.append_nil], hpos, ?_⟩
  rw [hchunk] at hsuffix
  exact hfirst.suffix hsuffix (by omega)

/-- `buf_find_string_offset`'s answer for a string found there, or not at all. -/
def offsetAnswer : Option Nat → Int
  | some k => k
  | none => -1

/-- A position at which the search may begin. -/
structure Fair (p : BufPos) : Prop where
  whole : Whole p.chunk
  first : EmptyFirst p.chunk
  start : ∀ c ∈ p.chunk.head?, if c.datalen ≠ 0 then p.pos < c.datalen else p.pos = 0
  max : p.offset + p.rem.length ≤ bufMaxLen

theorem bufFindPosOfChar_eq (ch : UInt8)
    (hstart : ∀ c ∈ p.chunk.head?, if c.datalen ≠ 0 then p.pos < c.datalen else p.pos = 0) :
    bufFindPosOfChar ch p = findCharLoop ch p.pos p.chunkPos p.chunk := by
  obtain ⟨chunk, pos, base⟩ := p
  cases chunk with
  | nil => rfl
  | cons c rest => exact if_pos (hstart c rfl)

theorem bufPosInit_start (b : Buf) : ∀ c ∈ (bufPosInit b).chunk.head?,
    if c.datalen ≠ 0 then (bufPosInit b).pos < c.datalen else (bufPosInit b).pos = 0 := by
  intro c _
  show if c.datalen ≠ 0 then 0 < c.datalen else 0 = 0
  split
  · omega
  · rfl

theorem Fair.find (h : Fair p) (ch : UInt8) :
    (bufFindPosOfChar ch p = some none ∧ ch ∉ p.rem) ∨
    (∃ p' xs, bufFindPosOfChar ch p = some (some p') ∧ FoundAt ch p p' xs ∧ Solid [] p') := by
  obtain ⟨chunk, pos, base⟩ := p
  have hstart := h.start
  have hle : ∀ c ∈ chunk.head?, pos ≤ c.datalen := by
    intro c hc
    have := hstart c hc
    split at this <;> simp only at this <;> omega
  rw [bufFindPosOfChar_eq ch hstart]
  rcases findCharLoop_spec ch h.whole pos base hle with hnone | ⟨p', xs, hloop, hfound⟩
  · exact .inl hnone
  · exact .inr ⟨p', xs, hloop, hfound, hfound.solid h.whole h.first⟩

theorem Solid.fair (h : Solid [] p) (hmax : p.offset + p.rem.length ≤ bufMaxLen) : Fair p := by
  refine ⟨h.whole, h.emptyFirst, ?_, hmax⟩
  obtain ⟨-, c, full, hchunk, hpos, -⟩ := h
  intro d hd
  rw [hchunk] at hd
  obtain rfl := Option.some.inj hd
  rw [if_pos (by omega)]
  exact hpos

theorem search_cons_of_not {needle : List UInt8} {x : UInt8} (h : ¬ needle <+: x :: xs) :
    search needle (x :: xs) = (search needle xs).map (· + 1) := if_neg h

/-- The search finds a string where it first stands behind the position. -/
theorem findStringLoop_eq (t : List UInt8) (fuel : Nat) : ∀ {p : BufPos}, Fair p → p.rem.length < fuel →
    findStringLoop (ch :: t) fuel p = some (offsetAnswer ((search (ch :: t) p.rem).map (· + p.offset))) := by
  induction fuel with
  | zero =>
    intro p _ hlt
    exact absurd hlt (Nat.not_lt_zero _)
  | succ fuel ih =>
    intro p h hfuel
    rw [findStringLoop]
    rcases h.find ch with ⟨hfind, hnot⟩ | ⟨p', xs, hfind, hfound, hsolid⟩
    · have hnone : search (ch :: t) p.rem = none := by
        rw [← List.append_nil p.rem, search_append [] hnot]
        simp [search]
      simp only [hfind, hnone]
      rfl
    · have hoffset := hfound.offset
      have hrem := congrArg List.length hfound.rem
      rw [List.length_append] at hrem
      have hmax := h.max
      obtain ⟨b, -, hcons⟩ := hsolid.byte_eq
      have hlen := congrArg List.length hcons
      rw [List.length_cons] at hlen
      simp only [hfind, bufMatchesAtPos_eq _ hsolid]
      rw [hfound.rem, search_append p'.rem hfound.passed]
      by_cases hmatch : ch :: t <+: p'.rem
      · have hfit : p'.chunkPos + p'.pos ≤ bufMaxLen := by
          simp only [BufPos.offset] at hoffset hmax
          omega
        rw [search_at_start hmatch]
        simp only [decide_eq_true hmatch, if_pos hfit, Option.map_some, offsetAnswer]
        rw [show 0 + xs.length + p.offset = p'.chunkPos + p'.pos from by rw [← BufPos.offset, hoffset]; omega]
      · have hmiss : ¬ ch :: t <+: b :: p'.rem.tail := by rwa [← hcons]
        have hstep := search_cons_of_not hmiss
        rw [← hcons] at hstep
        rw [hstep]
        simp only [decide_eq_false hmatch]
        rcases hsolid.inc with ⟨hinc, htail, -⟩ | ⟨p'', hinc, htail, hnext, hsolid' | ⟨-, -, hmore⟩⟩
        · simp only [hinc, htail]
          rfl
        · have hlen'' := congrArg List.length htail
          simp only [hinc]
          rw [ih (hsolid'.fair (by omega)) (by omega), htail, Option.map_map, Option.map_map]
          congr 3
          funext k
          simp only [Function.comp_apply]
          omega
        · exact absurd rfl hmore

theorem Buf.Ok.whole (hb : b.Ok) : Whole b.chunks := by
  intro c hc
  refine ⟨hb.linked.ok c hc, ?_⟩
  have hle : c.datalen ≤ (b.chunks.map Chunk.datalen).sum := List.le_sum_of_mem (List.mem_map_of_mem hc)
  have hmax := hb.max
  rw [hb.datalen, length_bytesOf hb.linked.ok] at hmax
  exact Nat.le_trans hle hmax

theorem bufFindStringOffset_eq (hb : b.Ok) (hfirst : EmptyFirst b.chunks) (hs : s ≠ []) :
    bufFindStringOffset b s = some (offsetAnswer (search s (bytesOf b.chunks))) := by
  obtain ⟨ch, t, rfl⟩ := List.exists_cons_of_ne_nil hs
  have hmax := hb.max
  rw [hb.datalen] at hmax
  have hfair : Fair (bufPosInit b) := by
    refine ⟨hb.whole, hfirst, bufPosInit_start b, ?_⟩
    simpa [bufPosInit, BufPos.offset, BufPos.rem] using hmax
  have hfuel : (bufPosInit b).rem.length < b.datalen + 1 := by
    rw [hb.datalen]
    exact Nat.lt_succ_self _
  rw [bufFindStringOffset, findStringLoop_eq t _ hfair hfuel]
  simp [bufPosInit, BufPos.offset, BufPos.rem]

/-! ## Empty chunks behind data -/

theorem first_without (P : Chunk → Prop) [DecidablePred P] (cs : List Chunk) :
    (∀ c ∈ cs, P c) ∨ ∃ a c b, cs = a ++ c :: b ∧ (∀ e ∈ a, P e) ∧ ¬ P c := by
  cases hfind : cs.find? fun c => !decide (P c) with
  | none =>
    refine .inl fun c hc => ?_
    simpa using List.find?_eq_none.mp hfind c hc
  | some c =>
    obtain ⟨hc, a, b, hcs, ha⟩ := List.find?_eq_some_iff_append.mp hfind
    exact .inr ⟨a, c, b, hcs, fun e he => by simpa using ha e he, by simpa using hc⟩

/-- The first empty chunk behind a chunk with data, and what stands before it. -/
theorem exists_empty_behind (h : ¬ EmptyFirst cs) : ∃ es d fs c post, cs = es ++ d :: (fs ++ c :: post) ∧
    (∀ e ∈ es, e.datalen = 0) ∧ d.datalen ≠ 0 ∧ (∀ f ∈ fs, f.datalen ≠ 0) ∧ c.datalen = 0 := by
  rcases first_without (·.datalen = 0) cs with hall | ⟨es, d, left, rfl, hes, hd⟩
  · exact absurd ⟨cs, [], (List.append_nil cs).symm, hall, by simp⟩ h
  rcases first_without (·.datalen ≠ 0) left with hall | ⟨fs, c, post, rfl, hfs, hc⟩
  · refine absurd ⟨es, d :: left, rfl, hes, fun e he => ?_⟩ h
    rcases List.mem_cons.mp he with rfl | he
    · exact hd
    · exact hall e he
  · exact ⟨es, d, fs, c, post, rfl, hes, hd, hfs, Decidable.not_not.mp hc⟩

theorem bytes_of_empty (hc : c.datalen = 0) : c.bytes = [] := by
  rw [Chunk.bytes, Chunk.read, hc, List.take_zero]

/-- The first byte of the contents is found at the first chunk with data. -/
theorem findCharLoop_first {es left : List Chunk} {d : Chunk} (hes : ∀ e ∈ es, e.datalen = 0) {t : List UInt8}
    (hd : d.bytes = ch :: t) : findCharLoop ch 0 0 (es ++ d :: left) = some (some ⟨d :: left, 0, 0⟩) := by
  induction es with
  | nil =>
    have hread : d.read d.datalen = ch :: t := hd
    have hidx : (ch :: t).findIdx? (· == ch) = some 0 := by simp [List.findIdx?_cons]
    rw [List.nil_append, findCharLoop, hread, List.drop_zero, hidx]
    rfl
  | cons e es ih =>
    have he : e.datalen = 0 := hes e List.mem_cons_self
    have hread : e.read e.datalen = [] := bytes_of_empty he
    rw [List.cons_append, findCharLoop, hread, he]
    exact ih fun e he => hes e (List.mem_cons_of_mem _ he)

/-- A string that begins as the contents do is compared from the first chunk with data on. -/
theorem bufFindStringOffset_first {es left : List Chunk} {d : Chunk} (hb : b.chunks = es ++ d :: left)
    (hes : ∀ e ∈ es, e.datalen = 0) {t t' : List UInt8} (hd : d.bytes = ch :: t)
    (hmatch : bufMatchesAtPos ⟨d :: left, 0, 0⟩ (ch :: t') ≠ some false) :
    bufFindStringOffset b (ch :: t') = (bufMatchesAtPos ⟨d :: left, 0, 0⟩ (ch :: t')).map fun _ => 0 := by
  have hfind : bufFindPosOfChar ch (bufPosInit b) = some (some ⟨d :: left, 0, 0⟩) := by
    rw [bufFindPosOfChar_eq ch (bufPosInit_start b)]
    simp only [bufPosInit, hb]
    exact findCharLoop_first hes hd
  rw [bufFindStringOffset, findStringLoop, hfind]
  simp only
  cases hres : bufMatchesAtPos ⟨d :: left, 0, 0⟩ (ch :: t') with
  | none => rfl
  | some matched =>
    cases matched with
    | false => exact absurd hres hmatch
    | true => rfl

theorem prefix_of_offsetAnswer (h : offsetAnswer (search s xs) = 0) : s <+: xs := by
  apply Decidable.byContradiction
  intro hnot
  cases xs with
  | nil =>
    rw [search, if_neg fun hs => hnot (by rw [hs])] at h
    cases h
  | cons x xs =>
    rw [search_cons_of_not hnot] at h
    cases hfound : search s xs with
    | none =>
      rw [hfound] at h
      cases h
    | some k =>
      rw [hfound] at h
      simp only [Option.map_some, offsetAnswer] at h
      omega

/-- Behind data, what an empty chunk has in its memory is compared with the string. -/
theorem exists_string_missed (hb : b.Ok) (h : ¬ EmptyFirst b.chunks) :
    ∃ s : List UInt8, s ≠ [] ∧ bufFindStringOffset b s ≠ some (offsetAnswer (search s (bytesOf b.chunks))) := by
  obtain ⟨es, d, fs, c, post, hchunks, hes, hd, hfs, hc⟩ := exists_empty_behind h
  have hwhole : Whole (d :: (fs ++ c :: post)) := fun e he => hb.whole e (by rw [hchunks]; exact List.mem_append_right _ he)
  have hsolid : Solid (c :: post) ⟨d :: (fs ++ c :: post), 0, 0⟩ := ⟨hwhole, d, fs, rfl, Nat.pos_of_ne_zero hd, hfs⟩
  have hnone : bytesOf es = [] := List.flatMap_eq_nil_iff.mpr fun e he => bytes_of_empty (hes e he)
  have hrem : BufPos.rem ⟨d :: (fs ++ c :: post), 0, 0⟩ = bytesOf (d :: fs) ++ bytesOf (c :: post) := by
    simp [BufPos.rem]
  have hcontents : bytesOf b.chunks = bytesOf (d :: fs) ++ bytesOf (c :: post) := by
    rw [hchunks, bytesOf_append, hnone, List.nil_append, ← hrem]
    rfl
  obtain ⟨ch, t, hhead⟩ : ∃ ch t, d.bytes = ch :: t := by
    refine List.exists_cons_of_ne_nil (List.ne_nil_of_length_pos ?_)
    rw [Chunk.length_bytes (hwhole d List.mem_cons_self).1]
    exact Nat.pos_of_ne_zero hd
  have hx : bytesOf (d :: fs) = ch :: (t ++ bytesOf fs) := by rw [bytesOf_cons, hhead, List.cons_append]
  -- a string that begins with the data goes on in the memory of the empty chunk
  have hrun : ∀ tail : List UInt8, tail ≠ [] → ∃ base, bufMatchesAtPos ⟨c :: post, 0, base⟩ tail ≠ some false →
      bufFindStringOffset b (bytesOf (d :: fs) ++ tail) = (bufMatchesAtPos ⟨c :: post, 0, base⟩ tail).map fun _ => 0 := by
    intro tail htail
    obtain ⟨base, hmatch⟩ := bufMatchesAtPos_append htail (List.cons_ne_nil c post) _ hsolid hrem
    refine ⟨base, fun hgood => ?_⟩
    rw [← hmatch] at hgood ⊢
    rw [hx, List.cons_append] at hgood ⊢
    exact bufFindStringOffset_first hchunks hes hhead hgood
  rw [hcontents]
  by_cases hmem : c.mem.drop c.data <+: bytesOf (c :: post)
  · -- one byte more than the memory has
    have hle := hmem.length_le
    let tail := (bytesOf (c :: post) ++ [0]).take ((c.mem.drop c.data).length + 1)
    have htail : tail ≠ [] := by simp [tail, List.take_eq_nil_iff]
    obtain ⟨base, hfind⟩ := hrun tail htail
    have hout : bufMatchesAtPos ⟨c :: post, 0, base⟩ tail = none := by
      refine (bufMatchesAtPos_stale hc post base _ 0).2 ?_ ?_
      · rw [Nat.add_zero, List.prefix_take_iff]
        exact ⟨hmem.trans (List.prefix_append _ _), Nat.le_succ _⟩
      · rw [Nat.add_zero, List.length_take, List.length_append, List.length_singleton]
        omega
    refine ⟨bytesOf (d :: fs) ++ tail, List.append_ne_nil_of_right_ne_nil _ htail, ?_⟩
    rw [hfind (by rw [hout]; simp), hout]
    simp
  · -- what the memory has, which is not what the buffer has
    have htail : c.mem.drop c.data ≠ [] := by
      intro hnil
      rw [hnil] at hmem
      exact hmem List.nil_prefix
    obtain ⟨base, hfind⟩ := hrun _ htail
    have hgood := (bufMatchesAtPos_stale hc post base (c.mem.drop c.data) 0).1 (List.prefix_refl _)
    refine ⟨bytesOf (d :: fs) ++ c.mem.drop c.data, List.append_ne_nil_of_right_ne_nil _ htail, ?_⟩
    rw [hfind hgood]
    intro heq
    obtain ⟨-, -, hzero⟩ := Option.map_eq_some_iff.mp heq
    exact hmem ((List.prefix_append_right_inj _).mp (prefix_of_offsetAnswer hzero.symm))

/-! ## Every buffer -/

/-- Every string is found where it first stands in the buffer, and if it does not stand there the answer is -1. -/
def SearchExact (b : Buf) : Prop :=
  ∀ s : List UInt8, s ≠ [] → bufFindStringOffset b s = some (offsetAnswer (search s (bytesOf b.chunks)))

/-- After any legal calls, the search in a buffer is exact if and only if the buffer has no empty chunk behind one
    with data. -/
theorem string_search_exact_iff (ops : List Op) (hl : queueSpec.Legal [] ops) :
    ∃ st rs, runOut step State.start ops = some (st, rs) ∧ ∀ b ∈ st.bufs, (SearchExact b ↔ EmptyFirst b.chunks) := by
  obtain ⟨st, rs, hrun, -, hst, -⟩ := legal_calls_run ops hl
  refine ⟨st, rs, hrun, fun b hb => ⟨fun hexact => ?_, fun hfirst s hs => ?_⟩⟩
  · by_contra hnot
    obtain ⟨s, hs, hmissed⟩ := exists_string_missed (hst.bufs b hb) hnot
    exact hmissed (hexact s hs)
  · exact bufFindStringOffset_eq (hst.bufs b hb) hfirst hs

/-- A read that gave nothing has left an empty chunk behind a full one, and then the contents of another buffer are
    moved to this one. -/
def callsAroundRead : List Op :=
  [.newWithCapacity 1, .add 0 (List.replicate 204 97 ++ [13, 10]), .addChunkWithCapacity 0 8 true,
    .new, .add 1 [13, 10], .moveAll 0 1]

theorem callsAroundRead_legal : queueSpec.Legal [] callsAroundRead := by
  refine ⟨show 1 ≤ sizeTCeiling - chunkOverhead by decide, ⟨?_, ?_⟩, ⟨?_, ?_⟩, trivial, ⟨?_, ?_⟩, ⟨?_, ?_⟩, trivial⟩ <;>
    decide +kernel

theorem string_search_exact_iff_around_read : queueSpec.Legal [] callsAroundRead ∧
    ∃ st rs, runOut step State.start callsAroundRead = some (st, rs) ∧
      ∀ b ∈ st.bufs, (SearchExact b ↔ EmptyFirst b.chunks) :=
  ⟨callsAroundRead_legal, string_search_exact_iff callsAroundRead callsAroundRead_legal⟩

/-- The two line ends that stand side by side in the buffer then are not found. -/
theorem two_line_ends_are_not_found : queueSpec.Legal [] callsAroundRead ∧
    ∃ st rs b, runOut step State.start callsAroundRead = some (st, rs) ∧ b ∈ st.bufs ∧
      search [13, 10, 13, 10] (bytesOf b.chunks) = some 204 ∧ bufFindStringOffset b [13, 10, 13, 10] = some (-1) := by
  refine ⟨callsAroundRead_legal, ?_⟩
  have hfound : (runOut step State.start callsAroundRead).any (fun last => last.1.bufs.any fun b =>
      decide (search [13, 10, 13, 10] (bytesOf b.chunks) = some 204 ∧
        bufFindStringOffset b [13, 10, 13, 10] = some (-1))) = true := by decide +kernel
  obtain ⟨⟨st, rs⟩, hrun, hst⟩ := (Option.any_eq_true _ _).mp hfound
  obtain ⟨b, hb, hsearch⟩ := List.any_eq_true.mp hst
  obtain ⟨hwhere, hanswer⟩ := of_decide_eq_true hsearch
  exact ⟨st, rs, b, hrun, hb, hwhere, hanswer⟩

end Badnet.Buffers

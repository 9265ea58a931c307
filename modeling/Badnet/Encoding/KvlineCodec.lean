/-
  Badnet.Encoding.KvlineCodec — the lines of `kvline_encode` are those of `kvline_parse`.

  Each element is read back by one turn of the parser's loop, whatever line stands behind it (`element_reads`,
  `parse_of_encode`). The parser ends with the test that the encoder begins with, so what it reads can be written
  (`encode_of_parse`). Every turn takes at least one character (`kvlineLoop_ends`).
-/

import Badnet.Encoding.Kvline
import Badnet.Lib.Lines

namespace Badnet.Encoding

open Lib

/-! ## Characters and strings -/

theorem usual_char {c : UInt8} : unusual c = false → isBlank c = false ∧ c ≠ 34 := by
  revert c
  apply forall_uint8
  decide +kernel

/-- No character of the string would have to be escaped. -/
def Usual (s : CString) : Prop := ∀ c ∈ s.bytes, unusual c = false

variable {s : CString} {cp : List UInt8}

theorem usual_of_needsEscape {keyless : Bool} (h : needsEscape s keyless = false) : Usual s := by
  unfold needsEscape at h
  split at h
  · cases h
  split at h
  · cases h
  exact fun c hc => by simpa using List.any_eq_false.mp h c hc

/-- A key, or a value without a key, has characters, and no equals sign among them. -/
theorem word_of_needsEscape (h : needsEscape s true = false) : s.bytes ≠ [] ∧ 61 ∉ s.bytes := by
  unfold needsEscape at h
  split at h
  · cases h
  split at h
  · cases h
  next hnil hequals => exact ⟨fun h0 => hnil ⟨rfl, h0⟩, fun hmem => hequals ⟨rfl, hmem⟩⟩

variable {flags : KvFlags} {s : CString} {rest : List UInt8}

/-- What stands behind an element: nothing, or the space before the next one. -/
def Apart (rest : List UInt8) : Prop := ∀ c ∈ rest.head?, c = 32

theorem apart_nil : Apart [] := nofun

theorem apart_space (more : List UInt8) : Apart (32 :: more) := fun _ h => (Option.some.inj h).symm

theorem head_usual (hs : Usual s) (hrest : Apart rest) : (s.bytes ++ rest).head? ≠ some 34 := by
  cases hbytes : s.bytes with
  | nil =>
    intro hhead
    rw [List.nil_append] at hhead
    have hspace : (34 : UInt8) = 32 := hrest 34 hhead
    exact absurd hspace (by decide)
  | cons c cs =>
    intro hhead
    have hc := hs c (by rw [hbytes]; exact List.mem_cons_self)
    exact (usual_char hc).2 (Option.some.inj hhead)

theorem length_takeWhile_run {p : UInt8 → Bool} {xs : List UInt8} (hx : ∀ x ∈ xs, p x = true)
    (hrest : ∀ y ∈ rest.head?, p y = false) : ((xs ++ rest).takeWhile p).length = xs.length := by
  rw [takeWhile_run hx hrest]

theorem notBlank_of_usual (hs : Usual s) : ∀ c ∈ s.bytes, (!isBlank c) = true := by
  intro c hc
  rw [(usual_char (hs c hc)).1]
  rfl

theorem inKey_of_usual (hs : Usual s) (hequals : 61 ∉ s.bytes) : ∀ c ∈ s.bytes, (!endsKey c) = true := by
  intro c hc
  have hne : c ≠ 61 := fun heq => hequals (heq ▸ hc)
  simp [endsKey, (usual_char (hs c hc)).1, hne]

/-! ## One element -/

theorem value_quoted (hq : flags.quoted = true) (v : CString) (rest : List UInt8) :
    kvlineValue flags ((escForLog v).bytes ++ rest) = some (v, rest) := by
  have hhead : ((escForLog v).bytes ++ rest).head? = some 34 := rfl
  simp only [kvlineValue, hhead, if_true, hq, not_true_eq_false, if_false, unescapeString_escForLog, Option.bind_eq_bind,
    Option.bind_some, CString.of_bytes, ne_eq]

theorem value_plain (hs : Usual s) (hrest : Apart rest) : kvlineValue flags (s.bytes ++ rest) = some (s, rest) := by
  have hblank : ∀ y ∈ rest.head?, (!isBlank y) = false := by
    intro y hy
    rw [hrest y hy]
    decide
  simp only [kvlineValue, if_neg (head_usual hs hrest), length_takeWhile_run (notBlank_of_usual hs) hblank, List.take_left,
    List.drop_left, CString.of_bytes]

theorem key_before_equals (hs : Usual s) (hne : s.bytes ≠ []) (hequals : 61 ∉ s.bytes) (more : List UInt8) :
    kvlineKey flags (s.bytes ++ 61 :: more) = some (some s, more, false) := by
  have hhead : (s.bytes ++ 61 :: more).head? ≠ some 34 := by
    obtain ⟨c, cs, hbytes⟩ := List.exists_cons_of_ne_nil hne
    rw [hbytes]
    intro hhead
    exact (usual_char (hs c (by rw [hbytes]; exact List.mem_cons_self))).2 (Option.some.inj hhead)
  have hend : ∀ y ∈ (61 :: more).head?, (!endsKey y) = false := by
    intro y hy
    rw [← Option.some.inj hy]
    decide
  have hdrop : (s.bytes ++ 61 :: more).drop (s.bytes.length + 1) = more := by
    rw [← List.drop_drop, List.drop_left]
    rfl
  simp only [kvlineKey, if_neg hhead, length_takeWhile_run (inKey_of_usual hs hequals) hend, List.take_left,
    List.drop_left, List.head?_cons, if_true, hdrop, CString.of_bytes]

/-- Where no equals sign follows, the flags say what a word is. -/
theorem key_alone (hs : Usual s) (hequals : 61 ∉ s.bytes) (hrest : Apart rest) :
    kvlineKey flags (s.bytes ++ rest) =
      if flags.omitVals then some (some s, rest, true)
      else if ¬ flags.omitKeys then none else some (none, s.bytes ++ rest, false) := by
  have hend : ∀ y ∈ rest.head?, (!endsKey y) = false := by
    intro y hy
    rw [hrest y hy]
    decide
  have hnot : rest.head? ≠ some 61 := by
    intro hhead
    have hspace : (61 : UInt8) = 32 := hrest 61 hhead
    exact absurd hspace (by decide)
  simp only [kvlineKey, if_neg (head_usual hs hrest), length_takeWhile_run (inKey_of_usual hs hequals) hend,
    List.take_left, List.drop_left, if_neg hnot, CString.of_bytes]

/-- A line as the parser gives it: no key is the empty one. -/
def ConfigLine.read (line : ConfigLine) : ConfigLine := { line with key := some (line.key.getD .empty) }

/-- The parser reads the element as that line, and stops behind it. -/
structure Reads (flags : KvFlags) (e : CString) (line : ConfigLine) : Prop where
  start : ∃ c cs, e.bytes = c :: cs ∧ isBlank c = false
  item : ∀ rest, Apart rest → kvlineItem flags (e.bytes ++ rest) = some (line.read, rest)

theorem start_usual (hs : Usual s) (hne : s.bytes ≠ []) (more : List UInt8) :
    ∃ c cs, s.bytes ++ more = c :: cs ∧ isBlank c = false := by
  obtain ⟨c, cs, hbytes⟩ := List.exists_cons_of_ne_nil hne
  refine ⟨c, cs ++ more, by rw [hbytes, List.cons_append], ?_⟩
  exact (usual_char (hs c (by rw [hbytes]; exact List.mem_cons_self))).1

/-! ## Lines that can be encoded -/

/-- What `kvline_can_encode_lines` asks of a line. -/
structure Encodable (flags : KvFlags) (line : ConfigLine) (v : CString) : Prop where
  value : line.value = some v
  keyless : lineHasNoKey line = true → flags.omitKeys = true
  quotes : needsEscape v (lineHasNoKey line) = true → flags.quoted = true ∨ flags.raw = true
  key : lineHasNoKey line = false → line.key.any (needsEscape · true) = false

theorem canEncodeLines_iff (lines : List ConfigLine) :
    kvlineCanEncodeLines flags lines = some true ↔ ∀ line ∈ lines, ∃ value, Encodable flags line value := by
  induction lines with
  | nil => simp [kvlineCanEncodeLines]
  | cons line lines ih =>
    rw [kvlineCanEncodeLines, List.forall_mem_cons, ← ih]
    constructor
    · intro h
      split at h
      · cases h
      next hkeyless =>
        obtain ⟨value, hvalue, h⟩ := Option.bind_eq_some_iff.mp h
        split at h
        · cases h
        next hquotes =>
          split at h
          · cases h
          next hkey =>
            refine ⟨⟨value, hvalue, fun hk => ?_, fun hn => ?_, fun hk => ?_⟩, h⟩
            · by_contra homit
              exact hkeyless ⟨hk, homit⟩
            · by_contra hnot
              exact hquotes ⟨hn, hnot⟩
            · by_contra hany
              exact hkey ⟨by rw [hk]; decide, by simpa using hany⟩
    · rintro ⟨⟨value, hline⟩, hrest⟩
      have hkeyless : ¬ (lineHasNoKey line = true ∧ ¬ flags.omitKeys = true) := fun h => h.2 (hline.keyless h.1)
      have hquotes : ¬ (needsEscape value (lineHasNoKey line) = true ∧ ¬ (flags.quoted = true ∨ flags.raw = true)) :=
        fun h => h.2 (hline.quotes h.1)
      have hkey : ¬ (¬ lineHasNoKey line = true ∧ line.key.any (needsEscape · true) = true) := by
        rintro ⟨hk, hany⟩
        rw [hline.key (by simpa using hk)] at hany
        cases hany
      simp only [if_neg hkeyless, hline.value, Option.bind_eq_bind, Option.bind_some, if_neg hquotes, if_neg hkey, hrest]

variable {line : ConfigLine} {value : CString}

/-- A line that has a key. -/
theorem key_of_set (h : lineHasNoKey line = false) : ∃ k, line.key = some k ∧ k.bytes ≠ [] := by
  unfold lineHasNoKey notSet at h
  cases hkey : line.key with
  | none =>
    rw [hkey] at h
    cases h
  | some k =>
    rw [hkey] at h
    exact ⟨k, rfl, by simpa using h⟩

/-- And one that has none. -/
theorem read_of_notSet (h : lineHasNoKey line = true) (hvalue : line.value = some value) :
    line.read = { key := some .empty, value := some value } := by
  unfold lineHasNoKey notSet at h
  rw [ConfigLine.read, hvalue]
  cases hkey : line.key with
  | none => rfl
  | some k =>
    rw [hkey] at h
    have hbytes : k.bytes = [] := by simpa using h
    cases k
    cases hbytes
    rfl

theorem append_empty (s : CString) : s.append .empty = s := by
  cases s
  simp [CString.append, CString.empty]

theorem empty_append (s : CString) : CString.append .empty s = s := by
  cases s
  simp [CString.append, CString.empty]

/-- A line without a key is its value, in quotes where it would be taken for a key or for no value at all. -/
theorem keyless_reads (hraw : flags.raw = false) (hvals : flags.omitVals = false) (h : Encodable flags line value)
    (hk : lineHasNoKey line = true) : ∃ e, kvlineElement flags line = some e ∧ Reads flags e line := by
  have hread := read_of_notSet hk h.value
  by_cases hesc : needsEscape value true = true
  · have hq : flags.quoted = true := by
      rcases h.quotes (by rw [hk, hesc]) with hq | hq
      · exact hq
      · rw [hraw] at hq
        cases hq
    refine ⟨escForLog value, ?_, ⟨34, _, rfl, by decide⟩, fun rest _ => ?_⟩
    · simp [kvlineElement, hk, h.value, hvals, hraw, hesc, empty_append]
    · have hkey : kvlineKey flags ((escForLog value).bytes ++ rest) = some (none, (escForLog value).bytes ++ rest, false) :=
        if_pos rfl
      simp [kvlineItem, kvlineRest, hkey, value_quoted hq, hread]
  · have hesc := Bool.eq_false_iff.mpr hesc
    have hs := usual_of_needsEscape hesc
    obtain ⟨hne, hequals⟩ := word_of_needsEscape hesc
    refine ⟨value, ?_, ?_, fun rest hrest => ?_⟩
    · simp [kvlineElement, hk, h.value, hvals, hesc, empty_append]
    · simpa using start_usual hs hne []
    · have hkey := @key_alone flags _ _ hs hequals hrest
      rw [hvals, h.keyless hk] at hkey
      simp [kvlineItem, kvlineRest, hkey, value_plain hs hrest, hread]

/-- A line with a key is the key, the equals sign and the value, or the key alone. -/
theorem keyed_reads (hraw : flags.raw = false) (h : Encodable flags line value) (hk : lineHasNoKey line = false) :
    ∃ e, kvlineElement flags line = some e ∧ Reads flags e line := by
  obtain ⟨k, hkey, hne⟩ := key_of_set hk
  have hescape := h.key hk
  rw [hkey, Option.any_some] at hescape
  have hs := usual_of_needsEscape hescape
  obtain ⟨-, hequals⟩ := word_of_needsEscape hescape
  have hread : line.read = { key := some k, value := some value } := by rw [ConfigLine.read, hkey, h.value]; rfl
  have hnil : k.bytes.isEmpty = false := by simpa using hne
  by_cases homit : flags.omitVals = true ∧ lineHasNoVal line = true
  · have hempty : value = .empty := by
      have hval := homit.2
      rw [lineHasNoVal, h.value] at hval
      have hbytes : value.bytes = [] := by simpa [notSet] using hval
      cases value
      cases hbytes
      rfl
    refine ⟨k, ?_, ?_, fun rest hrest => ?_⟩
    · simp [kvlineElement, hk, hkey, h.value, homit.1, homit.2, append_empty]
    · simpa using start_usual hs hne []
    · have hword := @key_alone flags _ _ hs hequals hrest
      rw [homit.1] at hword
      simp [kvlineItem, kvlineRest, hword, hnil, hread, hempty]
  · by_cases hesc : needsEscape value false = true
    · have hq : flags.quoted = true := by
        rcases h.quotes (by rw [hk, hesc]) with hq | hq
        · exact hq
        · rw [hraw] at hq
          cases hq
      refine ⟨(k.append equals).append (escForLog value), ?_, ?_, fun rest _ => ?_⟩
      · simp [kvlineElement, hk, hkey, h.value, homit, hraw, hesc]
      · simpa [CString.append] using start_usual hs hne _
      · have hbytes : ((k.append equals).append (escForLog value)).bytes ++ rest =
            k.bytes ++ 61 :: ((escForLog value).bytes ++ rest) := by simp [CString.append, equals]
        rw [hbytes]
        simp [kvlineItem, kvlineRest, key_before_equals hs hne hequals, value_quoted hq, hnil, hread]
    · have hesc := Bool.eq_false_iff.mpr hesc
      refine ⟨(k.append equals).append value, ?_, ?_, fun rest hrest => ?_⟩
      · simp [kvlineElement, hk, hkey, h.value, homit, hesc]
      · simpa [CString.append] using start_usual hs hne _
      · have hbytes : ((k.append equals).append value).bytes ++ rest = k.bytes ++ 61 :: (value.bytes ++ rest) := by
          simp [CString.append, equals]
        rw [hbytes]
        simp [kvlineItem, kvlineRest, key_before_equals hs hne hequals, value_plain (usual_of_needsEscape hesc) hrest, hnil, hread]

theorem element_reads (hraw : flags.raw = false) (hexclusive : ¬ (flags.omitKeys = true ∧ flags.omitVals = true))
    (h : Encodable flags line value) : ∃ e, kvlineElement flags line = some e ∧ Reads flags e line := by
  cases hk : lineHasNoKey line with
  | true =>
    have hvals : flags.omitVals = false := Bool.eq_false_iff.mpr fun hv => hexclusive ⟨h.keyless hk, hv⟩
    exact keyless_reads hraw hvals h hk
  | false => exact keyed_reads hraw h hk

/-! ## The loop -/

/-- The elements behind the first one, each with its space. -/
def behind (es : List CString) : List UInt8 := es.flatMap fun e => 32 :: e.bytes

theorem joinStrings_bytes (e : CString) (es : List CString) : (joinStrings space (e :: es)).bytes = e.bytes ++ behind es := by
  induction es generalizing e with
  | nil => simp [joinStrings, behind]
  | cons e' es ih =>
    rw [joinStrings]
    simp only [CString.append, ih, behind, List.flatMap_cons]
    simp [space]

theorem behind_apart (es : List CString) : Apart (behind es) := by
  cases es with
  | nil => exact apart_nil
  | cons e es => exact apart_space _

/-- One turn reads one element. -/
theorem kvlineLoop_turn {e : CString} {cplast : Option Nat} (he : Reads flags e line)
    (hcp : cp.dropWhile isBlank = e.bytes ++ rest) (hrest : Apart rest) (hlast : ∀ n ∈ cplast, (e.bytes ++ rest).length < n)
    (turns : Nat) (result : List ConfigLine) :
    kvlineLoop flags (turns + 1) cp cplast result =
      kvlineLoop flags turns rest (some (e.bytes ++ rest).length) (result ++ [line.read]) := by
  obtain ⟨c, cs, hbytes, -⟩ := he.start
  have hne : e.bytes ++ rest ≠ [] := by simp [hbytes]
  have hcpne : cp ≠ [] := by
    rintro rfl
    exact hne hcp.symm
  have hlast' : cplast ≠ some (e.bytes ++ rest).length := fun heq => Nat.lt_irrefl _ (hlast _ heq)
  rw [kvlineLoop, if_neg hcpne]
  simp only [hcp, if_neg hlast', if_neg hne, he.item rest hrest]

theorem kvlineLoop_behind {es : List CString} {lines : List ConfigLine} (h : List.Forall₂ (Reads flags) es lines) :
    ∀ (turns : Nat) (cplast : Option Nat) (result : List ConfigLine), (behind es).length < turns →
      (∀ n ∈ cplast, (behind es).length ≤ n) →
      kvlineLoop flags turns (behind es) cplast result = .ok (result ++ lines.map ConfigLine.read) := by
  induction h with
  | nil =>
    intro turns cplast result hturns _
    obtain ⟨turns, rfl⟩ := Nat.exists_eq_succ_of_ne_zero (Nat.ne_of_gt hturns)
    rw [kvlineLoop, if_pos (show behind [] = [] from rfl), List.map_nil, List.append_nil]
  | @cons e line es lines he hes ih =>
    intro turns cplast result hturns hlast
    obtain ⟨turns, rfl⟩ := Nat.exists_eq_succ_of_ne_zero (Nat.ne_of_gt (Nat.zero_lt_of_lt hturns))
    have hbehind : behind (e :: es) = 32 :: (e.bytes ++ behind es) := rfl
    obtain ⟨c, cs, hbytes, hblank⟩ := he.start
    have hcp : (behind (e :: es)).dropWhile isBlank = e.bytes ++ behind es := by
      have hspace : isBlank 32 = true := by decide
      rw [hbehind, List.dropWhile_cons_of_pos hspace, hbytes, List.cons_append, List.dropWhile_cons_of_neg (by simp [hblank])]
    rw [hbehind, List.length_cons] at hturns hlast
    rw [List.length_append] at hturns
    rw [kvlineLoop_turn he hcp (behind_apart es) (fun n hn => hlast n hn), ih _ _ _ (by omega)]
    · rw [List.append_assoc, List.map_cons, List.singleton_append]
    · intro n hn
      rw [← Option.some.inj hn, List.length_append]
      exact Nat.le_add_left _ _

/-- The joined elements are read as their lines. -/
theorem kvlineLoop_joined {es : List CString} {lines : List ConfigLine} (h : List.Forall₂ (Reads flags) es lines) :
    kvlineLoop flags ((joinStrings space es).bytes.length + 1) (joinStrings space es).bytes none [] =
      .ok (lines.map ConfigLine.read) := by
  cases h with
  | nil => rfl
  | @cons e line es lines he hes =>
    obtain ⟨c, cs, hbytes, hblank⟩ := he.start
    have hcp : (joinStrings space (e :: es)).bytes.dropWhile isBlank = e.bytes ++ behind es := by
      rw [joinStrings_bytes, hbytes, List.cons_append, List.dropWhile_cons_of_neg (by simp [hblank])]
    rw [kvlineLoop_turn he hcp (behind_apart es) (fun n hn => by cases hn), joinStrings_bytes,
      kvlineLoop_behind hes _ _ _ ?_ ?_]
    · rfl
    · rw [hbytes, List.length_append, List.length_cons]
      omega
    · intro n hn
      rw [← Option.some.inj hn, List.length_append]
      exact Nat.le_add_left _ _

/-! ## What a turn takes -/

theorem decodeQuoted_length {out rest : List UInt8} (h : decodeQuoted cp = some (out, rest)) : rest.length < cp.length := by
  induction hn : cp.length using Nat.strongRecOn generalizing cp out rest with
  | _ n ih =>
    subst hn
    cases cp with
    | nil =>
      rw [decodeQuoted] at h
      cases h
    | cons c cp =>
      rw [decodeQuoted] at h
      split at h
      · cases h
        exact Nat.lt_succ_self _
      split at h
      · split at h
        · next d more hescape =>
          obtain ⟨⟨out', rest'⟩, hdecode, heq⟩ := Option.map_eq_some_iff.mp h
          cases heq
          have hless := decodeEscape_length hescape
          have hrest := ih _ (Nat.lt_succ_of_lt hless) hdecode rfl
          change rest'.length < cp.length + 1
          omega
        · cases h
      · obtain ⟨⟨out', rest'⟩, hdecode, heq⟩ := Option.map_eq_some_iff.mp h
        cases heq
        exact Nat.lt_succ_of_lt (ih _ (Nat.lt_succ_self _) hdecode rfl)

theorem unescapeString_length {out rest : List UInt8} (h : unescapeString cp = some (out, rest)) :
    rest.length < cp.length := by
  cases cp with
  | nil => cases h
  | cons c cp =>
    rw [unescapeString] at h
    split at h
    · cases h
    split at h
    · exact Nat.lt_succ_of_lt (decodeQuoted_length h)
    · cases h

/-- A quoted value takes something, the others all characters up to a blank. -/
theorem kvlineValue_rest (h : kvlineValue flags cp = some (value, rest)) :
    rest.length < cp.length ∨ rest = cp.drop (cp.takeWhile fun c => !isBlank c).length := by
  unfold kvlineValue at h
  split at h
  · split at h
    · cases h
    · obtain ⟨⟨val, more⟩, hunescape, h⟩ := Option.bind_eq_some_iff.mp h
      simp only at h
      split at h
      · cases h
      · cases h
        exact .inl (unescapeString_length hunescape)
  · cases h
    exact .inr rfl

theorem kvlineValue_length (h : kvlineValue flags cp = some (value, rest)) : rest.length ≤ cp.length := by
  rcases kvlineValue_rest h with hlt | rfl
  · exact Nat.le_of_lt hlt
  · exact (List.drop_suffix ..).length_le

variable {c : UInt8} {cs : List UInt8}

theorem drop_takeWhile_length {p : UInt8 → Bool} (hc : p c = true) :
    ((c :: cs).drop ((c :: cs).takeWhile p).length).length < (c :: cs).length := by
  rw [List.length_drop, List.takeWhile_cons_of_pos hc]
  simp only [List.length_cons]
  omega

/-- A value that does not begin with a blank has at least one character. -/
theorem kvlineValue_takes (hc : isBlank c = false) (h : kvlineValue flags (c :: cs) = some (value, rest)) :
    rest.length < (c :: cs).length := by
  rcases kvlineValue_rest h with hlt | rfl
  · exact hlt
  · exact drop_takeWhile_length (by rw [hc]; rfl)

/-- A turn from a character that is not blank takes at least that one. -/
theorem kvlineItem_takes (hc : isBlank c = false) (h : kvlineItem flags (c :: cs) = some (line, rest)) :
    rest.length < (c :: cs).length := by
  obtain ⟨⟨key, cp, commit⟩, hkey, h⟩ := Option.bind_eq_some_iff.mp h
  obtain ⟨⟨val, more⟩, hval, h⟩ := Option.bind_eq_some_iff.mp h
  have hmore : more = rest := by
    simp only at h
    split at h
    · cases h
    · cases h
      rfl
  subst hmore
  have hvalue : commit = false → ∃ v, kvlineValue flags cp = some (v, more) := by
    intro hcommit
    subst hcommit
    obtain ⟨⟨v, r⟩, hv, heq⟩ := Option.map_eq_some_iff.mp hval
    cases heq
    exact ⟨v, hv⟩
  have hcommitted : commit = true → cp = more := by
    intro hcommit
    subst hcommit
    cases hval
    rfl
  unfold kvlineKey at hkey
  split at hkey
  · cases hkey
    obtain ⟨v, hv⟩ := hvalue rfl
    exact kvlineValue_takes hc hv
  simp only at hkey
  split at hkey
  · next hequals =>
    cases hkey
    obtain ⟨v, hv⟩ := hvalue rfl
    have hle := kvlineValue_length hv
    have hpos : ((c :: cs).drop ((c :: cs).takeWhile fun c => !endsKey c).length).length ≠ 0 := by
      intro h0
      rw [List.length_eq_zero_iff.mp h0] at hequals
      cases hequals
    rw [List.length_drop] at hle hpos
    omega
  · next hequals =>
    split at hkey
    · cases hkey
      rw [← hcommitted rfl]
      apply drop_takeWhile_length
      cases hend : endsKey c with
      | false => rfl
      | true =>
        -- a word that begins with the equals sign is not left to the flags
        have hword : (c :: cs).takeWhile (fun c => !endsKey c) = [] := List.takeWhile_cons_of_neg (by simp [hend])
        have hc61 : c = 61 := by simpa [endsKey, hc] using hend
        rw [hword, hc61] at hequals
        exact absurd rfl hequals
    · split at hkey
      · cases hkey
      · cases hkey
        obtain ⟨v, hv⟩ := hvalue rfl
        exact kvlineValue_takes hc hv

/-- The loop never meets its `BUG`, and comes to an end. -/
theorem kvlineLoop_ends (turns : Nat) : ∀ (cp : List UInt8) (cplast : Option Nat) (result : List ConfigLine),
    cp.length < turns → (∀ n ∈ cplast, cp.length < n) →
      kvlineLoop flags turns cp cplast result ≠ .error .bug ∧ kvlineLoop flags turns cp cplast result ≠ .error .stuck ∧
        kvlineLoop flags turns cp cplast result ≠ .error .assertion := by
  induction turns with
  | zero => exact fun _ _ _ hturns _ => absurd hturns (Nat.not_lt_zero _)
  | succ turns ih =>
    intro cp cplast result hturns hlast
    have hle : (cp.dropWhile isBlank).length ≤ cp.length := (List.dropWhile_suffix _).length_le
    have hlast' : cplast ≠ some (cp.dropWhile isBlank).length := by
      intro heq
      exact absurd (hlast _ heq) (Nat.not_lt.mpr hle)
    rw [kvlineLoop]
    by_cases hcp : cp = []
    · simp [hcp]
    simp only [if_neg hcp, if_neg hlast']
    cases hdrop : cp.dropWhile isBlank with
    | nil => simp
    | cons c cs =>
      have hblank : isBlank c = false := by
        have hhead := List.head?_dropWhile_not isBlank cp
        rw [hdrop] at hhead
        exact hhead
      rw [hdrop] at hle
      simp only [if_neg (List.cons_ne_nil c cs)]
      cases hitem : kvlineItem flags (c :: cs) with
      | none => simp
      | some item =>
        obtain ⟨line, rest⟩ := item
        have htakes := kvlineItem_takes hblank hitem
        refine ih rest _ _ (by omega) ?_
        intro n hn
        rw [← Option.some.inj hn]
        exact htakes

/-! ## The codec -/

variable {lines : List ConfigLine}

theorem lineHasNoKey_read (line : ConfigLine) : lineHasNoKey line.read = lineHasNoKey line := by
  cases hkey : line.key with
  | none => simp [lineHasNoKey, ConfigLine.read, notSet, hkey, CString.empty]
  | some k => simp [lineHasNoKey, ConfigLine.read, hkey]

/-- A line as it is read can be encoded if the line could. -/
theorem Encodable.read (h : Encodable flags line value) : Encodable flags line.read value := by
  refine ⟨h.value, ?_, ?_, ?_⟩
  · rw [lineHasNoKey_read]
    exact h.keyless
  · rw [lineHasNoKey_read]
    exact h.quotes
  · rw [lineHasNoKey_read]
    intro hk
    obtain ⟨k, hkey, -⟩ := key_of_set hk
    have hescape := h.key hk
    rw [hkey, Option.any_some] at hescape
    simpa [ConfigLine.read, hkey] using hescape

theorem elements_read (hraw : flags.raw = false) (hexclusive : ¬ (flags.omitKeys = true ∧ flags.omitVals = true))
    (h : ∀ line ∈ lines, ∃ value, Encodable flags line value) :
    ∃ es, lines.mapM (kvlineElement flags) = some es ∧ List.Forall₂ (Reads flags) es lines := by
  induction lines with
  | nil => exact ⟨[], rfl, .nil⟩
  | cons line lines ih =>
    obtain ⟨⟨value, hline⟩, hlines⟩ := List.forall_mem_cons.mp h
    obtain ⟨e, helement, hreads⟩ := element_reads hraw hexclusive hline
    obtain ⟨es, helements, hall⟩ := ih hlines
    exact ⟨e :: es, by simp [List.mapM_cons, helement, helements], .cons hreads hall⟩

/-- Lines that can be encoded are encoded, and read back. -/
theorem encode_then_parse (hraw : flags.raw = false) (hexclusive : ¬ (flags.omitKeys = true ∧ flags.omitVals = true))
    (hcan : kvlineCanEncodeLines flags lines = some true) :
    ∃ s, kvlineEncode lines flags = some (some s) ∧ kvlineParse s flags = .ok (lines.map ConfigLine.read) := by
  have hlines := (canEncodeLines_iff lines).mp hcan
  obtain ⟨es, helements, hreads⟩ := elements_read hraw hexclusive hlines
  have hread : kvlineCanEncodeLines flags (lines.map ConfigLine.read) = some true := by
    refine (canEncodeLines_iff _).mpr fun line hline => ?_
    obtain ⟨l, hl, rfl⟩ := List.mem_map.mp hline
    obtain ⟨value, hvalue⟩ := hlines l hl
    exact ⟨value, hvalue.read⟩
  have hquotes : ¬ (flags.quoted = true ∧ flags.raw = true) := by
    rw [hraw]
    rintro ⟨-, h⟩
    cases h
  have hraw' : ¬ flags.raw = true := by
    rw [hraw]
    decide
  refine ⟨joinStrings space es, ?_, ?_⟩
  · simp [kvlineEncode, if_neg hexclusive, if_neg hquotes, hcan, helements]
  · rw [kvlineParse, if_neg hexclusive, if_neg hraw', kvlineLoop_joined hreads]
    exact if_pos hread

/-- The lines that `kvline_encode` could write, with flags it allows. -/
theorem canEncode_of_encode (h : kvlineEncode lines flags = some (some s)) :
    ¬ (flags.omitKeys = true ∧ flags.omitVals = true) ∧ kvlineCanEncodeLines flags lines = some true := by
  unfold kvlineEncode at h
  split at h
  · cases h
  next hexclusive =>
    split at h
    · cases h
    · obtain ⟨can, hcan, h⟩ := Option.bind_eq_some_iff.mp h
      split at h
      · next htrue =>
        rw [htrue] at hcan
        exact ⟨hexclusive, hcan⟩
      · cases h

theorem kvlineItem_read (h : kvlineItem flags cp = some (line, rest)) : line.read = line := by
  obtain ⟨⟨key, cp, commit⟩, -, h⟩ := Option.bind_eq_some_iff.mp h
  obtain ⟨⟨val, more⟩, -, h⟩ := Option.bind_eq_some_iff.mp h
  simp only at h
  split at h
  · cases h
  · cases h
    rfl

/-- The parser makes no line with a NULL key. -/
theorem kvlineLoop_read (turns : Nat) : ∀ (cp : List UInt8) (cplast : Option Nat) (result : List ConfigLine),
    (∀ line ∈ result, line.read = line) → kvlineLoop flags turns cp cplast result = .ok lines →
      ∀ line ∈ lines, line.read = line := by
  induction turns with
  | zero =>
    intro cp cplast result _ h
    cases h
  | succ turns ih =>
    intro cp cplast result hresult h
    rw [kvlineLoop] at h
    split at h
    · cases h
      exact hresult
    simp only at h
    split at h
    · cases h
    split at h
    · cases h
      exact hresult
    cases hitem : kvlineItem flags (cp.dropWhile isBlank) with
    | none =>
      rw [hitem] at h
      cases h
    | some item =>
      rw [hitem] at h
      refine ih _ _ _ ?_ h
      intro line hline
      rcases List.mem_append.mp hline with hline | hline
      · exact hresult line hline
      · rw [List.mem_singleton.mp hline]
        exact kvlineItem_read hitem

/-- A string that is read gives lines that can be encoded. -/
theorem canEncode_of_parse {t : CString} (h : kvlineParse t flags = .ok lines) :
    ¬ (flags.omitKeys = true ∧ flags.omitVals = true) ∧ kvlineCanEncodeLines flags lines = some true ∧
      lines.map ConfigLine.read = lines := by
  unfold kvlineParse at h
  split at h
  · cases h
  next hexclusive =>
    split at h
    · cases h
    cases hloop : kvlineLoop flags (t.bytes.length + 1) t.bytes none [] with
    | error e =>
      rw [hloop] at h
      cases h
    | ok result =>
      rw [hloop] at h
      simp only at h
      split at h
      · next hcan =>
        cases h
        refine ⟨hexclusive, hcan, ?_⟩
        have hread := kvlineLoop_read _ _ _ _ (fun line hline => absurd hline List.not_mem_nil) hloop
        exact (List.map_congr_left hread).trans (List.map_id' _)
      · cases h

/-- The flags of a caller. -/
def kvFlags (quoted omitKeys omitVals : Bool) : KvFlags :=
  { quoted := quoted, omitKeys := omitKeys, omitVals := omitVals, raw := false }

/-- What is encoded is read back, a NULL key as the empty one; what is read can be encoded and is read back; and the
    parser never meets the `BUG` of its loop. -/
theorem kvline_codec_lossless (quoted omitKeys omitVals : Bool) :
    (∀ (lines : List ConfigLine) (s : CString), kvlineEncode lines (kvFlags quoted omitKeys omitVals) = some (some s) →
      kvlineParse s (kvFlags quoted omitKeys omitVals) = .ok (lines.map ConfigLine.read)) ∧
    (∀ (t : CString) (lines : List ConfigLine), kvlineParse t (kvFlags quoted omitKeys omitVals) = .ok lines →
      ∃ s, kvlineEncode lines (kvFlags quoted omitKeys omitVals) = some (some s) ∧
        kvlineParse s (kvFlags quoted omitKeys omitVals) = .ok lines) ∧
    (∀ t : CString, kvlineParse t (kvFlags quoted omitKeys omitVals) ≠ .error .bug ∧
      kvlineParse t (kvFlags quoted omitKeys omitVals) ≠ .error .stuck) := by
  refine ⟨fun lines s h => ?_, fun t lines h => ?_, fun t => ?_⟩
  · obtain ⟨hexclusive, hcan⟩ := canEncode_of_encode h
    obtain ⟨s', hencode, hparse⟩ := encode_then_parse rfl hexclusive hcan
    rw [Option.some.inj (Option.some.inj (h.symm.trans hencode))]
    exact hparse
  · obtain ⟨hexclusive, hcan, hread⟩ := canEncode_of_parse h
    obtain ⟨s, hencode, hparse⟩ := encode_then_parse rfl hexclusive hcan
    rw [hread] at hparse
    exact ⟨s, hencode, hparse⟩
  · obtain ⟨hbug, hstuck, -⟩ := @kvlineLoop_ends (kvFlags quoted omitKeys omitVals) (t.bytes.length + 1) t.bytes none []
      (Nat.lt_succ_self _) (fun n hn => by cases hn)
    unfold kvlineParse
    split
    · exact ⟨by decide, by decide⟩
    split
    · exact ⟨by decide, by decide⟩
    cases hloop : kvlineLoop (kvFlags quoted omitKeys omitVals) (t.bytes.length + 1) t.bytes none [] with
    | error e =>
      rw [hloop] at hbug hstuck
      exact ⟨hbug, hstuck⟩
    | ok result =>
      simp only
      split
      · exact ⟨by simp, by simp⟩
      · exact ⟨by simp, by simp⟩

/-- A line whose key is NULL comes back with the empty key. -/
theorem a_null_key_is_read_as_empty :
    ∃ s, kvlineEncode [⟨none, some (.of [120])⟩] (kvFlags false true false) = some (some s) ∧
      kvlineParse s (kvFlags false true false) = .ok [⟨some .empty, some (.of [120])⟩] ∧
      kvlineParse s (kvFlags false true false) ≠ .ok [⟨none, some (.of [120])⟩] := by
  obtain ⟨s, hencode, hparse⟩ := @encode_then_parse (kvFlags false true false) [⟨none, some (.of [120])⟩] rfl
    (by decide) (by decide +kernel)
  refine ⟨s, hencode, hparse, ?_⟩
  rw [hparse]
  intro heq
  exact absurd (Except.ok.inj heq) (by decide +kernel)

end Badnet.Encoding

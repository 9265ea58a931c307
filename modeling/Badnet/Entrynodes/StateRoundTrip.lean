/-
  Badnet.Entrynodes.StateRoundTrip — guards that are written to the state file and loaded again.

  The guard that is made of a line can differ only in its dates (`parse_encode`); loading collects the guards of a name
  whatever the order of the lines is (`sampleOf_load`). Dates after the year 9999 are printed as its last second, and
  the 29th of February of a year divisible by 400 is refused: a selection is restored exactly when no date of its guards
  is one of these (`guards_survive_iff`).
-/

import Badnet.Encoding.Timestamps
import Badnet.Entrynodes.State

namespace Badnet.Entrynodes.State

open Lib Encoding Container Net Dirparse

/-! ## Words of a line -/

/-- A text without the white space behind it. -/
abbrev trim (w : Text) : Text := w.rdropWhile isspace

def NoSpace (w : Text) : Prop := ∀ c ∈ w, isspace c = false

variable {w : Text} {c : Char} {approxTime : Nat} {guardContexts : List GuardSelection}

theorem NoSpace.noBlank (h : NoSpace w) : ' ' ∉ w := fun hmem => absurd (h ' ' hmem) (by decide)

theorem trim_eq (h : ∀ c ∈ w.getLast?, isspace c = false) : trim w = w := by
  refine List.rdropWhile_eq_self_iff.mpr fun hne => ?_
  rw [h _ (List.getLast?_eq_some_getLast hne)]
  decide

theorem NoSpace.trim (h : NoSpace w) : trim w = w := trim_eq fun c hc => h c (List.mem_of_getLast? hc)

theorem NoSpace.append {v : Text} (hw : NoSpace w) (hv : NoSpace v) : NoSpace (w ++ v) := by
  intro c hc
  rcases List.mem_append.mp hc with hc | hc
  · exact hw c hc
  · exact hv c hc

theorem NoSpace.cons (hc : isspace c = false) (hw : NoSpace w) : NoSpace (c :: w) :=
  List.forall_mem_cons.mpr ⟨hc, hw⟩

theorem trim_append (hc : isspace c = false) (front back : Text) :
    trim (front ++ c :: back) = front ++ c :: trim back := by
  induction back using List.reverseRecOn with
  | nil => exact List.rdropWhile_concat_neg _ _ _ (by rw [hc]; decide)
  | append_singleton back x ih =>
    have hassoc : front ++ c :: (back ++ [x]) = (front ++ c :: back) ++ [x] := by simp
    by_cases hx : isspace x = true
    · rw [hassoc, trim, trim, List.rdropWhile_concat_pos _ _ _ hx, List.rdropWhile_concat_pos _ _ _ hx]
      exact ih
    · rw [hassoc, trim, trim, List.rdropWhile_concat_neg _ _ _ hx, List.rdropWhile_concat_neg _ _ _ hx, ← hassoc]

variable (key : StateKey)

/-- The keys are words, and have no `=`. -/
theorem key_chars : key.text ≠ [] ∧ NoSpace key.text ∧ '=' ∉ key.text := by
  have hall : key.text.all (fun c => !isspace c && c != '=') = true := by cases key <;> rfl
  have hne : key.text ≠ [] := by cases key <;> exact List.cons_ne_nil _ _
  rw [List.all_eq_true] at hall
  refine ⟨hne, fun c hc => ?_, fun hmem => ?_⟩
  · have hc := hall c hc
    rw [Bool.and_eq_true, Bool.not_eq_true'] at hc
    exact hc.1
  · exact absurd (hall '=' hmem) (by decide)

theorem find_key : (StateKey.all.find? fun k => k.text = key.text) = some key := by
  cases key <;> decide +kernel

theorem setVal_keyWord (value : Text) : setVal (keyWord key value) = some (key, value) := by
  obtain ⟨-, -, heq⟩ := key_chars key
  have hkey : ∀ c ∈ key.text, decide (c ≠ '=') = true := fun c hc => decide_eq_true fun he => heq (he ▸ hc)
  have hvalue : ∀ c ∈ ('=' :: value).head?, decide (c ≠ '=') = false := by
    intro c hc
    cases hc
    rfl
  rw [setVal, keyWord, dropWhile_run hkey hvalue, takeWhile_run hkey hvalue]
  simp only [find_key, Option.map_some]

theorem keyWord_word {value : Text} (hvalue : ' ' ∉ value) : SplitWord ' ' (keyWord key value) := by
  obtain ⟨hne, hspace, -⟩ := key_chars key
  obtain ⟨a, rest, hkey⟩ := List.exists_cons_of_ne_nil hne
  refine ⟨by simp [keyWord], fun hmem => ?_, fun c hc => ?_⟩
  · rcases List.mem_append.mp hmem with hmem | hmem
    · exact hspace.noBlank hmem
    · rcases List.mem_cons.mp hmem with hmem | hmem
      · exact absurd hmem (by decide)
      · exact hvalue hmem
  · rw [keyWord, hkey] at hc
    rw [← Option.some.inj (Option.mem_def.mp hc)]
    exact hspace a (hkey ▸ List.mem_cons_self)

theorem trim_keyWord (value : Text) : trim (keyWord key value) = keyWord key (trim value) :=
  trim_append (by decide) key.text value

/-! ## Values -/

theorem noSpace_of_digits (h : ∀ c ∈ w, c.isDigit = true) : NoSpace w :=
  fun c hc => (digit_starts_number (h c hc)).1

theorem noSpace_decimal (n : Nat) : NoSpace (decimal n) := noSpace_of_digits isDigit_decimal

theorem noSpace_base16 (bytes : Bytes) : NoSpace (base16Encode bytes) := by
  have hdigits : hexDigits.all (fun c => !isspace c) = true := by decide
  intro c hc
  have hc := List.all_eq_true.mp hdigits c (mem_base16Encode hc)
  rw [Bool.not_eq_true'] at hc
  exact hc

theorem noSpace_padded (width n : Nat) : NoSpace (paddedDecimal width n) := by
  rw [paddedDecimal]
  refine NoSpace.append (fun c hc => ?_) (noSpace_decimal n)
  rw [(List.mem_replicate.mp hc).2]
  decide

theorem noSpace_isoText (y m d hour min sec : Nat) : NoSpace (isoText 'T' y m d hour min sec) := by
  unfold isoText
  refine (noSpace_decimal y).append (.cons (by decide) ((noSpace_padded 2 m).append (.cons (by decide) ?_)))
  refine (noSpace_padded 2 d).append (.cons (by decide) ((noSpace_padded 2 hour).append (.cons (by decide) ?_)))
  exact (noSpace_padded 2 min).append (.cons (by decide) (noSpace_padded 2 sec))

theorem noSpace_time (t : Nat) : NoSpace (formatIsoTimeNospace t) := by
  have hupto : ∀ u ≤ lastTime, NoSpace (formatIsoTimeNospace u) := by
    intro u hu
    rw [formatIsoTimeNospace, formatIsoTime_eq hu, isoText_set (dateFields hu)]
    exact noSpace_isoText _ _ _ _ _ _
  by_cases ht : t ≤ lastTime
  · exact hupto t ht
  · rw [formatIsoTimeNospace, formatIsoTime_late (Nat.lt_of_not_le ht)]
    exact hupto lastTime (Nat.le_refl _)

theorem isspace_of_xdigit (h : isXDigit c = true) : isspace c = false := by
  refine Bool.eq_false_iff.mpr fun hspace => ?_
  simp only [isspace, decide_eq_true_eq] at hspace
  rcases hspace with rfl | rfl | rfl | rfl | rfl | rfl <;> exact absurd h (by decide)

theorem noSpace_ntoa (a : UInt32) : NoSpace (torInetNtoa a) := by
  rw [torInetNtoa]
  refine (noSpace_decimal _).append (.cons (by decide) ((noSpace_decimal _).append (.cons (by decide) ?_)))
  exact (noSpace_decimal _).append (.cons (by decide) (noSpace_decimal _))

theorem noSpace_ntop6 (a : Vector UInt8 16) : NoSpace (torInetNtop6 a) := by
  have hcolon : isspace ':' = false := by decide
  have hmapped : NoSpace (Nat.toDigits 16 0xffff) := fun c hc => isspace_of_xdigit (isXDigit_toDigits c hc)
  unfold torInetNtop6
  simp only
  split
  · split
    · exact .cons hcolon (.cons hcolon (noSpace_ntoa _))
    · exact .cons hcolon (.cons hcolon (hmapped.append (.cons hcolon (noSpace_ntoa _))))
  · intro c hc
    rcases mem_formatWords _ _ _ c hc with hx | rfl
    · exact isspace_of_xdigit hx
    · exact hcolon

theorem noSpace_addrport (addr : TorAddr) (port : UInt16) : NoSpace (fmtAddrport addr port) := by
  have haddr : NoSpace (fmtAndDecorateAddr addr) := by
    cases addr with
    | unspec => exact .cons (by decide) (.cons (by decide) (.cons (by decide) fun c hc => (by cases hc)))
    | inet a => exact noSpace_ntoa a
    | inet6 a => exact .cons (by decide) ((noSpace_ntop6 a).append (.cons (by decide) fun c hc => (by cases hc)))
  exact haddr.append (.cons (by decide) (noSpace_decimal _))

theorem noSpace_nickname {nickname : Text} (h : isLegalNickname nickname = true) : NoSpace nickname := by
  intro c hc
  simp only [isLegalNickname, decide_eq_true_eq] at h
  have hchar := List.all_eq_true.mp h.2.2 c hc
  refine Bool.eq_false_iff.mpr fun hspace => ?_
  simp only [isspace, decide_eq_true_eq] at hspace
  rcases hspace with rfl | rfl | rfl | rfl | rfl | rfl <;> exact absurd hchar (by decide)

theorem noSpace_pbField {count : Nat} {value : Text} (h : pbField count = some value) : NoSpace value := by
  unfold pbField at h
  split at h
  · cases h
    refine (noSpace_decimal count).append fun c hc => ?_
    have hall : (['.', '0', '0', '0', '0', '0', '0'] : Text).all (fun c => !isspace c) = true := by decide
    have hc := List.all_eq_true.mp hall c hc
    rw [Bool.not_eq_true'] at hc
    exact hc
  · cases h

/-! ## A guard and its line -/

/-- What holds of a guard in the selection of this name. -/
structure EntryGuard.Ok (name : Text) (guard : EntryGuard) : Prop where
  selection : guard.selectionName = name
  sampledOn : 1 ≤ guard.sampledOnDate
  bridge : ∀ bridge, guard.bridgeAddr = some bridge → bridge.addr ≠ .unspec ∧ bridge.port ≠ 0
  confirmed : 0 ≤ guard.confirmedIdx ∧ guard.confirmedIdx ≤ INT_MAX ∨ guard.confirmedIdx = -1 ∧ guard.confirmedOnDate = 0
  version : ∀ version, guard.sampledByVersion = some version → ' ' ∉ version
  extra : ∃ words, (∀ w ∈ words, Piece ' ' w ∧ setVal w = none) ∧ guard.extraStateFields = extraFields words

/-- A name that can be written as a word, and that is not refused. -/
structure NameOk (name : Text) : Prop where
  noBlank : ' ' ∉ name
  last : ∀ c ∈ name.getLast?, isspace c = false
  notLegacy : name ≠ "legacy".toList

section
variable {circs : OpenCircuits} {guard : EntryGuard} {name : Text} {i : Nat}

/-- No value has a blank in it. -/
theorem stateRows_noBlank (hname : NameOk name) (hok : guard.Ok name) :
    ∀ row ∈ stateRows circs guard i, ∀ value, row.2 = some value → ' ' ∉ value := by
  have htime : ∀ (cond : Prop) [Decidable cond] (t : Nat) (value : Text),
      (if cond then some (formatIsoTimeNospace t) else none) = some value → ' ' ∉ value := by
    intro cond _ t value h
    split at h
    · cases h
      exact (noSpace_time t).noBlank
    · cases h
  have hpb : ∀ (count : Nat) (value : Text), pbField count = some value → ' ' ∉ value :=
    fun count value h => (noSpace_pbField h).noBlank
  unfold stateRows
  simp only [List.forall_mem_cons]
  refine ⟨?_, ?_, ?_, ?_, ?_, ?_, hok.version, htime _ _, ?_, htime _ _, ?_, hpb _, hpb _, hpb _, hpb _, hpb _, hpb _, hpb _, hpb _, ?_⟩
  · intro value h
    cases h
    exact hok.selection ▸ hname.noBlank
  · intro value h
    cases h
    exact (noSpace_base16 _).noBlank
  · intro value h
    obtain ⟨bridge, -, rfl⟩ := Option.map_eq_some_iff.mp h
    exact (noSpace_addrport _ _).noBlank
  · intro value h
    split at h
    next hlegal =>
      cases h
      exact (noSpace_nickname hlegal).noBlank
    · cases h
  · intro value h
    cases h
    exact (noSpace_time _).noBlank
  · intro value h
    cases h
    exact (noSpace_decimal _).noBlank
  · intro value h
    cases h
    split <;> decide
  · intro value h
    split at h
    · cases h
      exact (noSpace_decimal _).noBlank
    · cases h
  · intro row hrow
    cases hrow

variable (rows : List (StateKey × Option Text))

/-- The rows without white space behind a value. -/
def trimRows : List (StateKey × Option Text) :=
  rows.map fun row => (row.1, row.2.map trim)

theorem rowWords_trim : (rowWords keyWord rows).map trim = rowWords keyWord (trimRows rows) := by
  induction rows with
  | nil => rfl
  | cons row rows ih =>
    obtain ⟨key, value⟩ := row
    cases value with
    | none => exact ih
    | some value =>
      have hhead : trim (keyWord key value) = keyWord key (trim value) := trim_keyWord key value
      exact congrArg₂ List.cons hhead ih

theorem rowValue_trim (key : StateKey) : rowValue (trimRows rows) key = (rowValue rows key).map trim := by
  induction rows with
  | nil => rfl
  | cons row rows ih =>
    obtain ⟨k, value⟩ := row
    have hcons : trimRows ((k, value) :: rows) = (k, value.map trim) :: trimRows rows := rfl
    rw [hcons, rowValue_cons, rowValue_cons]
    split
    · rfl
    · exact ih

theorem encode_eq {words : List Text} (hextra : guard.extraStateFields = extraFields words) :
    entryGuardEncodeForState circs guard i = smartlistJoinStrings ' ' (rowWords keyWord (stateRows circs guard i) ++ words) := by
  rw [entryGuardEncodeForState, hextra, extraFields]
  by_cases hwords : words = []
  · rw [if_pos hwords, hwords]
    rfl
  · rw [if_neg hwords]
    exact smartlistJoinStrings_nested ' ' hwords _

/-- The values of a line are those it was written from. -/
theorem setVals_encode (hname : NameOk name) (hok : guard.Ok name) {words : List Text}
    (hwords : ∀ w ∈ words, Piece ' ' w ∧ setVal w = none) (hextra : guard.extraStateFields = extraFields words) :
    parseFromStateSetVals (entryGuardEncodeForState circs guard i) =
      ⟨fun key => (rowValue (stateRows circs guard i) key).map trim, words⟩ := by
  have hrows : ∀ w ∈ rowWords keyWord (stateRows circs guard i), SplitWord ' ' w := by
    intro w hw
    obtain ⟨row, hrow, hpresent⟩ := List.mem_filterMap.mp hw
    obtain ⟨value, hvalue, rfl⟩ := Option.map_eq_some_iff.mp hpresent
    exact keyWord_word row.1 (stateRows_noBlank hname hok row hrow value hvalue)
  have hall : ∀ w ∈ rowWords keyWord (stateRows circs guard i) ++ words, SplitWord ' ' w := by
    intro w hw
    rcases List.mem_append.mp hw with hw | hw
    · exact hrows w hw
    · exact (hwords w hw).1.word
  have htrim : words.map trim = words := by
    rw [List.map_congr_left fun w hw => (hwords w hw).1.rdropWhile_eq, List.map_id']
  have hkeys : ((trimRows (stateRows circs guard i)).map Prod.fst).Nodup := by
    have hfst : (trimRows (stateRows circs guard i)).map Prod.fst =
        [.in_, .rsaId, .bridgeAddr, .nickname, .sampledOn, .sampledIdx, .sampledBy, .unlistedSince, .listed, .confirmedOn,
          .confirmedIdx, .pbUseAttempts, .pbUseSuccesses, .pbCircAttempts, .pbCircSuccesses, .pbSuccessfulCircuitsClosed,
          .pbCollapsedCircuits, .pbUnusableCircuits, .pbTimeouts] := rfl
    rw [hfst]
    decide
  have hvals : rowValue (trimRows (stateRows circs guard i)) =
      fun key => (rowValue (stateRows circs guard i) key).map trim := funext (rowValue_trim _)
  rw [parseFromStateSetVals, encode_eq hextra, split_join_words hall, List.map_append, rowWords_trim, htrim,
    read_table (fun row _ value _ => setVal_keyWord row.1 value) hkeys fun w hw => (hwords w hw).2, hvals]

/-- The guard that is made of a line. -/
def reloaded (approxTime : Nat) (guard : EntryGuard) (i : Nat) : EntryGuard :=
  { guard with
    nickname := if isLegalNickname guard.nickname then guard.nickname else '$' :: base16Encode guard.identity.val
    sampledOnDate := sampledOnTime approxTime (some (formatIsoTimeNospace guard.sampledOnDate))
    unlistedSinceDate :=
      otherTime (if guard.unlistedSinceDate > 0 then some (formatIsoTimeNospace guard.unlistedSinceDate) else none)
    sampledByVersion := guard.sampledByVersion.map trim
    confirmedOnDate := otherTime (if 0 ≤ guard.confirmedIdx then some (formatIsoTimeNospace guard.confirmedOnDate) else none)
    sampledIdx := i
    isPersistent := true
    isReachable := .maybe }

theorem digestOfHex_encode (identity : BytesN DIGEST_LEN) : digestOfHex (base16Encode identity.val) = some identity := by
  have hread : base16Decode DIGEST_LEN (base16Encode identity.val) = some identity.val :=
    base16Decode_encode (Nat.le_of_eq identity.2) (by decide)
  rw [digestOfHex, hread]
  simp only [dif_pos identity.2]

theorem parseConfirmedIdx_written (hok : guard.Ok name) :
    parseConfirmedIdx (if 0 ≤ guard.confirmedIdx then some (decimal guard.confirmedIdx.toNat) else none) = guard.confirmedIdx := by
  rcases hok.confirmed with ⟨hpos, hmax⟩ | ⟨hnone, -⟩
  · have hnat : (guard.confirmedIdx.toNat : Int) = guard.confirmedIdx := Int.toNat_of_nonneg hpos
    unfold INT_MAX at hmax
    have hread : torParseLong (decimal guard.confirmedIdx.toNat) 0 INT_MAX = some (guard.confirmedIdx.toNat : Int) :=
      torParseLong_decimal (by unfold INT_MAX; omega) (by unfold LONG_MAX; omega)
    rw [if_pos hpos, parseConfirmedIdx, hread, hnat]
    rfl
  · rw [hnone]
    rfl

theorem trim_if {p : Prop} [Decidable p] {value : Text} (h : NoSpace value) :
    (if p then some value else none).map trim = if p then some value else none := by
  split
  · rw [Option.map_some, h.trim]
  · rfl

/-- What a line is read as. -/
theorem parse_encode (approxTime maxSampleSize : Nat) (hname : NameOk name) (hok : guard.Ok name) (hi : i ≤ INT_MAX) :
    entryGuardParseFromState approxTime maxSampleSize (entryGuardEncodeForState circs guard i) =
      some (reloaded approxTime guard i) := by
  obtain ⟨words, hwords, hextra⟩ := hok.extra
  have hin : (rowValue (stateRows circs guard i) .in_).map trim = some guard.selectionName := by
    have hrow : rowValue (stateRows circs guard i) .in_ = some guard.selectionName := rfl
    rw [hrow, Option.map_some, trim_eq (hok.selection ▸ hname.last)]
  have hrsa : (rowValue (stateRows circs guard i) .rsaId).map trim = some (base16Encode guard.identity.val) :=
    congrArg some (noSpace_base16 _).trim
  have hbridge : (rowValue (stateRows circs guard i) .bridgeAddr).map trim =
      guard.bridgeAddr.map fun bridge => fmtAddrport bridge.addr bridge.port := by
    have hrow : rowValue (stateRows circs guard i) .bridgeAddr =
      guard.bridgeAddr.map fun bridge => fmtAddrport bridge.addr bridge.port := rfl
    rw [hrow, Option.map_map]
    exact Option.map_congr fun bridge _ => (noSpace_addrport _ _).trim
  have hnickname : (rowValue (stateRows circs guard i) .nickname).map trim =
      if isLegalNickname guard.nickname then some guard.nickname else none := by
    have hrow : rowValue (stateRows circs guard i) .nickname = if isLegalNickname guard.nickname then some guard.nickname else none := rfl
    rw [hrow]
    split
    next hlegal => rw [Option.map_some, (noSpace_nickname hlegal).trim]
    · rfl
  have hsampledOn : (rowValue (stateRows circs guard i) .sampledOn).map trim = some (formatIsoTimeNospace guard.sampledOnDate) :=
    congrArg some (noSpace_time _).trim
  have hsampledIdx : (rowValue (stateRows circs guard i) .sampledIdx).map trim = some (decimal i) :=
    congrArg some (noSpace_decimal _).trim
  have hunlisted : (rowValue (stateRows circs guard i) .unlistedSince).map trim =
      if guard.unlistedSinceDate > 0 then some (formatIsoTimeNospace guard.unlistedSinceDate) else none := trim_if (noSpace_time _)
  have hlisted : (rowValue (stateRows circs guard i) .listed).map trim = some (if guard.currentlyListed then ['1'] else ['0']) := by
    have hrow : rowValue (stateRows circs guard i) .listed = some (if guard.currentlyListed then ['1'] else ['0']) := rfl
    rw [hrow]
    split <;> rfl
  have hconfirmedOn : (rowValue (stateRows circs guard i) .confirmedOn).map trim =
      if 0 ≤ guard.confirmedIdx then some (formatIsoTimeNospace guard.confirmedOnDate) else none := trim_if (noSpace_time _)
  have hconfirmedIdx : (rowValue (stateRows circs guard i) .confirmedIdx).map trim =
      if 0 ≤ guard.confirmedIdx then some (decimal guard.confirmedIdx.toNat) else none := trim_if (noSpace_decimal _)
  have haddr : (guard.bridgeAddr.map fun bridge => fmtAddrport bridge.addr bridge.port).bind
      (fun text => (torAddrPortParse text (-1)).map fun r => (⟨r.1, r.2⟩ : Cells.TorAddrPort)) = guard.bridgeAddr := by
    cases hb : guard.bridgeAddr with
    | none => rfl
    | some bridge =>
      obtain ⟨haddr, hport⟩ := hok.bridge bridge hb
      rw [Option.map_some, Option.bind_some, torAddrPortParse_fmt haddr hport]
      rfl
  have hnick : parseNickname guard.identity (if isLegalNickname guard.nickname then some guard.nickname else none) =
      if isLegalNickname guard.nickname then guard.nickname else '$' :: base16Encode guard.identity.val := by
    by_cases hlegal : isLegalNickname guard.nickname = true
    · have hlen : guard.nickname.length ≤ 19 := by
        simp only [isLegalNickname, decide_eq_true_eq] at hlegal
        exact hlegal.2.1
      rw [if_pos hlegal, if_pos hlegal]
      exact List.take_of_length_le (Nat.le_trans hlen (by decide))
    · rw [if_neg hlegal, if_neg hlegal]
      rfl
  have hidx : torParseLong (decimal i) 0 INT_MAX = some (i : Int) :=
    torParseLong_decimal (Int.ofNat_le.mpr hi) (Nat.le_trans hi (by decide))
  have hflag : (some (if guard.currentlyListed then ['1'] else ['0']) : Option Text).any (· ≠ ['0']) = guard.currentlyListed := by
    cases guard.currentlyListed <;> rfl
  rw [entryGuardParseFromState, setVals_encode hname hok hwords hextra]
  simp only [hin, hrsa, hbridge, hnickname, hsampledOn, hsampledIdx, hunlisted, hlisted, hconfirmedOn, hconfirmedIdx,
    Option.bind_some, digestOfHex_encode, haddr, hflag, parseSampledIdx, hidx, Option.getD_some, parseConfirmedIdx_written hok,
    hnick, ← hextra]
  rfl

end

/-! ## Dates -/

theorem survives_zero : TimeSurvives 0 := ⟨Nat.zero_le _, by unfold OnLeapDay400; decide +kernel⟩

/-- A date as it is read back: -1 for one that is refused. -/
theorem handleTime_cases (t : Nat) :
    (TimeSurvives t ∧ handleTime (some (formatIsoTimeNospace t)) = t) ∨
    (¬ TimeSurvives t ∧ t ≤ lastTime ∧ handleTime (some (formatIsoTimeNospace t)) = -1) ∨
    (lastTime < t ∧ handleTime (some (formatIsoTimeNospace t)) = lastTime) := by
  by_cases hsurvives : TimeSurvives t
  · refine .inl ⟨hsurvives, ?_⟩
    rw [handleTime, parseIsoTimeNospace_of_survives hsurvives]
    rfl
  by_cases hlate : lastTime < t
  · refine .inr (.inr ⟨hlate, ?_⟩)
    rw [handleTime, parseIsoTimeNospace_late hlate]
    rfl
  · have hle := Nat.le_of_not_lt hlate
    have hleap : OnLeapDay400 t := not_not.mp fun h => hsurvives ⟨hle, h⟩
    refine .inr (.inl ⟨hsurvives, hle, ?_⟩)
    rw [handleTime, parseIsoTimeNospace_leapDay hle hleap]
    rfl

theorem otherTime_eq_iff (t : Nat) : otherTime (some (formatIsoTimeNospace t)) = t ↔ TimeSurvives t := by
  unfold otherTime
  rcases handleTime_cases t with ⟨hsurvives, hread⟩ | ⟨hlost, -, hread⟩ | ⟨hlate, hread⟩
  · rw [hread, if_neg (by omega)]
    exact iff_of_true (Int.toNat_natCast t) hsurvives
  · rw [hread, if_pos (by decide)]
    exact iff_of_false (fun h => hlost (h ▸ survives_zero)) hlost
  · rw [hread, if_neg (by omega), Int.toNat_natCast]
    exact iff_of_false (Nat.ne_of_lt hlate) fun h => absurd h.1 (Nat.not_le.mpr hlate)

/-- A sampling date that is refused becomes the time of the restart. -/
def SampledOnSurvives (approxTime t : Nat) : Prop := TimeSurvives t ∨ t ≤ lastTime ∧ approxTime = t

theorem sampledOnTime_eq_iff {t : Nat} (ht : 1 ≤ t) :
    sampledOnTime approxTime (some (formatIsoTimeNospace t)) = t ↔ SampledOnSurvives approxTime t := by
  unfold sampledOnTime SampledOnSurvives
  rcases handleTime_cases t with ⟨hsurvives, hread⟩ | ⟨hlost, hle, hread⟩ | ⟨hlate, hread⟩
  · rw [hread, if_neg (by omega)]
    exact iff_of_true (Int.toNat_natCast t) (.inl hsurvives)
  · rw [hread, if_pos (by decide)]
    exact ⟨fun h => .inr ⟨hle, h⟩, fun h => h.elim (fun h => absurd h hlost) fun h => h.2⟩
  · rw [hread, if_neg (by unfold lastTime; decide), Int.toNat_natCast]
    refine iff_of_false (Nat.ne_of_lt hlate) fun h => ?_
    exact absurd (h.elim (fun h => h.1) fun h => h.1) (Nat.not_le.mpr hlate)

/-- The dates of a guard that is read at a time. -/
structure DatesSurvive (approxTime : Nat) (guard : EntryGuard) : Prop where
  sampledOn : SampledOnSurvives approxTime guard.sampledOnDate
  unlistedSince : TimeSurvives guard.unlistedSinceDate
  confirmedOn : TimeSurvives guard.confirmedOnDate

/-- The same guard after a restart. -/
structure SameGuard (guard loaded : EntryGuard) : Prop where
  identity : loaded.identity = guard.identity
  bridgeAddr : loaded.bridgeAddr = guard.bridgeAddr
  sampledOnDate : loaded.sampledOnDate = guard.sampledOnDate
  unlistedSinceDate : loaded.unlistedSinceDate = guard.unlistedSinceDate
  confirmedOnDate : loaded.confirmedOnDate = guard.confirmedOnDate
  currentlyListed : loaded.currentlyListed = guard.currentlyListed
  confirmedIdx : loaded.confirmedIdx = guard.confirmedIdx
  extraStateFields : loaded.extraStateFields = guard.extraStateFields
  isPersistent : loaded.isPersistent = true

theorem sameGuard_iff {i : Nat} {name : Text} {guard : EntryGuard} (hok : guard.Ok name) :
    SameGuard guard (reloaded approxTime guard i) ↔ DatesSurvive approxTime guard := by
  have hsampled := @sampledOnTime_eq_iff approxTime guard.sampledOnDate hok.sampledOn
  have hunlisted : otherTime (if guard.unlistedSinceDate > 0 then some (formatIsoTimeNospace guard.unlistedSinceDate) else none) =
      guard.unlistedSinceDate ↔ TimeSurvives guard.unlistedSinceDate := by
    by_cases hpos : guard.unlistedSinceDate > 0
    · rw [if_pos hpos]
      exact otherTime_eq_iff _
    · have hzero : guard.unlistedSinceDate = 0 := Nat.eq_zero_of_not_pos hpos
      rw [if_neg hpos, hzero]
      exact iff_of_true rfl survives_zero
  have hconfirmed : otherTime (if 0 ≤ guard.confirmedIdx then some (formatIsoTimeNospace guard.confirmedOnDate) else none) =
      guard.confirmedOnDate ↔ TimeSurvives guard.confirmedOnDate := by
    rcases hok.confirmed with ⟨hpos, -⟩ | ⟨hnone, hzero⟩
    · rw [if_pos hpos]
      exact otherTime_eq_iff _
    · rw [hnone, hzero]
      exact iff_of_true rfl survives_zero
  constructor
  · intro h
    exact ⟨hsampled.mp h.sampledOnDate, hunlisted.mp h.unlistedSinceDate, hconfirmed.mp h.confirmedOnDate⟩
  · intro h
    exact ⟨rfl, rfl, hsampled.mpr h.sampledOn, hunlisted.mpr h.unlistedSince, hconfirmed.mpr h.confirmedOn, rfl, rfl, rfl, rfl⟩

/-! ## Loading -/

/-- The sample of the selection of a name. -/
def sampleOf (guardContexts : List GuardSelection) (name : Text) : List EntryGuard :=
  ((guardContexts.find? fun gs => gs.name = name).map (·.sampledEntryGuards)).getD []

/-- The next index of every selection is above those in its sample. -/
def NextAbove (guardContexts : List GuardSelection) : Prop :=
  ∀ gs ∈ guardContexts, ∀ guard ∈ gs.sampledEntryGuards, guard.sampledIdx < gs.nextSampledIdx

theorem sampleOf_cons (gs : GuardSelection) (rest : List GuardSelection) (name : Text) :
    sampleOf (gs :: rest) name = if gs.name = name then gs.sampledEntryGuards else sampleOf rest name := by
  unfold sampleOf
  by_cases hname : gs.name = name
  · simp only [List.find?_cons, hname, decide_true, if_true, Option.map_some, Option.getD_some]
  · simp only [List.find?_cons, hname, decide_false, if_false]

theorem sampleOf_add (guard : EntryGuard) (guardContexts : List GuardSelection) (name : Text) :
    sampleOf (addToSelection guard guardContexts) name =
      sampleOf guardContexts name ++ if guard.selectionName = name then [guard] else [] := by
  induction guardContexts with
  | nil =>
    rw [addToSelection, sampleOf_cons]
    rfl
  | cons gs rest ih =>
    rw [addToSelection]
    by_cases hgs : gs.name = guard.selectionName
    · rw [if_pos hgs, sampleOf_cons, sampleOf_cons]
      by_cases hname : gs.name = name
      · rw [if_pos (show (gs.addGuard guard).name = name from hname), if_pos hname, if_pos (hgs ▸ hname)]
        rfl
      · rw [if_neg (show ¬ (gs.addGuard guard).name = name from hname), if_neg hname,
          if_neg (fun h => hname (hgs.trans h)), List.append_nil]
    · rw [if_neg hgs, sampleOf_cons, sampleOf_cons, ih]
      by_cases hname : gs.name = name
      · rw [if_pos hname, if_pos hname, if_neg (fun h => hgs (hname.trans h.symm)), List.append_nil]
      · rw [if_neg hname, if_neg hname]

theorem addGuard_above {gs : GuardSelection} {guard : EntryGuard}
    (h : ∀ g ∈ gs.sampledEntryGuards, g.sampledIdx < gs.nextSampledIdx) :
    ∀ g ∈ (gs.addGuard guard).sampledEntryGuards, g.sampledIdx < (gs.addGuard guard).nextSampledIdx := by
  have hnext : gs.nextSampledIdx ≤ (gs.addGuard guard).nextSampledIdx ∧ guard.sampledIdx < (gs.addGuard guard).nextSampledIdx := by
    unfold GuardSelection.addGuard
    simp only
    split <;> omega
  intro g hg
  rcases List.mem_append.mp hg with hg | hg
  · exact Int.lt_of_lt_of_le (h g hg) hnext.1
  · rw [List.mem_singleton.mp hg]
    exact hnext.2

theorem NextAbove.add (h : NextAbove guardContexts) (guard : EntryGuard) :
    NextAbove (addToSelection guard guardContexts) := by
  induction guardContexts with
  | nil =>
    intro gs hgs
    rw [addToSelection, List.mem_singleton] at hgs
    rw [hgs]
    exact addGuard_above fun g hg => (by cases hg)
  | cons gs rest ih =>
    obtain ⟨hfirst, hrest⟩ := List.forall_mem_cons.mp h
    rw [addToSelection]
    split
    · exact List.forall_mem_cons.mpr ⟨addGuard_above hfirst, hrest⟩
    · exact List.forall_mem_cons.mpr ⟨hfirst, ih hrest⟩

variable (guards : List EntryGuard)

/-- All the guards, one after the other. -/
def addAll (guardContexts : List GuardSelection) : List GuardSelection :=
  guards.foldl (fun contexts guard => addToSelection guard contexts) guardContexts

theorem sampleOf_addAll (guardContexts : List GuardSelection) (name : Text) :
    sampleOf (addAll guards guardContexts) name =
      sampleOf guardContexts name ++ guards.filter fun guard => guard.selectionName = name := by
  induction guards generalizing guardContexts with
  | nil => exact (List.append_nil _).symm
  | cons guard guards ih =>
    have hstep : addAll (guard :: guards) guardContexts = addAll guards (addToSelection guard guardContexts) := rfl
    rw [hstep, ih, sampleOf_add, List.append_assoc, List.filter_cons]
    by_cases hname : guard.selectionName = name
    · rw [if_pos hname, if_pos (decide_eq_true hname)]
      rfl
    · rw [if_neg hname, if_neg (by rw [decide_eq_true_eq]; exact hname)]
      rfl

theorem NextAbove.addAll (h : NextAbove guardContexts) (guards : List EntryGuard) :
    NextAbove (addAll guards guardContexts) := by
  induction guards generalizing guardContexts with
  | nil => exact h
  | cons guard guards ih => exact ih (h.add guard)

/-- Lines that are all read add their guards, and are no errors. -/
theorem loadLines {maxSampleSize : Nat} {lines : List Text}
    (hread : ∀ line ∈ lines, ∃ guard, entryGuardParseFromState approxTime maxSampleSize line = some guard ∧
      guard.selectionName ≠ "legacy".toList) (s : LoadState) :
    lines.foldl (loadLine approxTime maxSampleSize true) s =
      { s with guardContexts := addAll (lines.filterMap (entryGuardParseFromState approxTime maxSampleSize)) s.guardContexts } := by
  induction lines generalizing s with
  | nil => rfl
  | cons line lines ih =>
    obtain ⟨⟨guard, hguard, hlegacy⟩, hrest⟩ := List.forall_mem_cons.mp hread
    have hstep : loadLine approxTime maxSampleSize true s line = { s with guardContexts := addToSelection guard s.guardContexts } := by
      rw [loadLine, hguard]
      simp only [if_neg hlegacy, if_true]
    rw [List.foldl_cons, hstep, ih hrest, List.filterMap_cons_some hguard]
    rfl

theorem sampleOf_sorted (guardContexts : List GuardSelection) (name : Text) :
    sampleOf (guardContexts.map GuardSelection.sorted) name =
      (sampleOf guardContexts name).insertionSort fun a b => compareGuardsBySampledIdx a b ≤ 0 := by
  induction guardContexts with
  | nil => rfl
  | cons gs rest ih =>
    rw [List.map_cons, sampleOf_cons, sampleOf_cons]
    by_cases hname : gs.name = name
    · rw [if_pos hname, if_pos (show gs.sorted.name = name from hname)]
      rfl
    · rw [if_neg hname, if_neg (show ¬ gs.sorted.name = name from hname), ih]

theorem NextAbove.sorted (h : NextAbove guardContexts) : NextAbove (guardContexts.map GuardSelection.sorted) := by
  intro gs hgs guard hguard
  obtain ⟨unsorted, hmem, rfl⟩ := List.mem_map.mp hgs
  exact h unsorted hmem guard ((List.mem_insertionSort _).mp hguard)

/-! ## A restart -/

def GuardSelection.persistent (gs : GuardSelection) : List EntryGuard := gs.sampledEntryGuards.filter (·.isPersistent)

/-- What holds of a selection. -/
structure GuardSelection.Ok (gs : GuardSelection) : Prop where
  name : NameOk gs.name
  size : gs.sampledEntryGuards.length ≤ INT_MAX
  guards : ∀ guard ∈ gs.sampledEntryGuards, guard.Ok gs.name

/-- Selections of different names. -/
structure Writable (guardContexts : List GuardSelection) : Prop where
  distinct : (guardContexts.map (·.name)).Nodup
  ok : ∀ gs ∈ guardContexts, gs.Ok

/-- The persistent guards of a selection, as they are read back from their lines. -/
def reloadedAll (approxTime : Nat) : Nat → List EntryGuard → List EntryGuard
  | _, [] => []
  | i, guard :: rest => reloaded approxTime guard i :: reloadedAll approxTime (i + 1) rest

section
variable {approxTime maxSampleSize : Nat} {circs : EntryGuard → OpenCircuits} {name : Text}

theorem sampledIdx_reloadedAll (guards : List EntryGuard) (i : Nat) :
    ∀ guard ∈ reloadedAll approxTime i guards, (i : Int) ≤ guard.sampledIdx := by
  induction guards generalizing i with
  | nil =>
    intro guard hguard
    cases hguard
  | cons g guards ih =>
    intro guard hguard
    rcases List.mem_cons.mp hguard with rfl | hguard
    · exact Int.le_refl _
    · have hnext := ih (i + 1) guard hguard
      omega

theorem increasing_reloadedAll (guards : List EntryGuard) (i : Nat) :
    (reloadedAll approxTime i guards).Pairwise fun a b => a.sampledIdx < b.sampledIdx := by
  induction guards generalizing i with
  | nil => exact .nil
  | cons g guards ih =>
    refine List.pairwise_cons.mpr ⟨fun guard hguard => ?_, ih (i + 1)⟩
    have hnext := sampledIdx_reloadedAll guards (i + 1) guard hguard
    have hfirst : (reloaded approxTime g i).sampledIdx = i := rfl
    omega

theorem name_reloadedAll {guards : List EntryGuard} (hguards : ∀ guard ∈ guards, guard.Ok name) (i : Nat) :
    ∀ guard ∈ reloadedAll approxTime i guards, guard.selectionName = name := by
  induction guards generalizing i with
  | nil =>
    intro guard hguard
    cases hguard
  | cons g guards ih =>
    obtain ⟨hg, hrest⟩ := List.forall_mem_cons.mp hguards
    exact List.forall_mem_cons.mpr ⟨hg.selection, ih hrest (i + 1)⟩

/-- The guards are numbered without gaps, and every line is read. -/
theorem read_guardLines {guards : List EntryGuard} (hname : NameOk name) (hguards : ∀ guard ∈ guards, guard.Ok name) {i : Nat}
    (hi : i + guards.length ≤ INT_MAX) :
    (guardLines circs i guards).map (entryGuardParseFromState approxTime maxSampleSize) =
      (reloadedAll approxTime i (guards.filter (·.isPersistent))).map some := by
  induction guards generalizing i with
  | nil => rfl
  | cons g guards ih =>
    obtain ⟨hg, hrest⟩ := List.forall_mem_cons.mp hguards
    rw [List.length_cons] at hi
    rw [guardLines]
    by_cases hpersistent : g.isPersistent = true
    · rw [if_pos hpersistent, List.filter_cons_of_pos hpersistent, List.map_cons,
        parse_encode approxTime maxSampleSize hname hg (by omega), @ih hrest (i + 1) (by omega)]
      rfl
    · rw [if_neg hpersistent, List.filter_cons_of_neg hpersistent]
      exact ih hrest (by omega)

end

section
variable {approxTime maxSampleSize : Nat} {circs : EntryGuard → OpenCircuits} {guardContexts : List GuardSelection}

/-- All the guards that are read back, selection by selection. -/
def reloadedContexts (approxTime : Nat) (guardContexts : List GuardSelection) : List EntryGuard :=
  guardContexts.flatMap fun gs => reloadedAll approxTime 0 gs.persistent

theorem read_written (hok : ∀ gs ∈ guardContexts, gs.Ok) :
    (entryGuardsUpdateGuardsInState circs guardContexts).map (entryGuardParseFromState approxTime maxSampleSize) =
      (reloadedContexts approxTime guardContexts).map some := by
  induction guardContexts with
  | nil => rfl
  | cons gs rest ih =>
    obtain ⟨hgs, hrest⟩ := List.forall_mem_cons.mp hok
    have hsize := hgs.size
    have hfirst := @read_guardLines approxTime maxSampleSize circs gs.name gs.sampledEntryGuards hgs.name hgs.guards 0 (by omega)
    have ih := ih hrest
    unfold entryGuardsUpdateGuardsInState reloadedContexts at *
    rw [List.flatMap_cons, List.flatMap_cons, List.map_append, List.map_append, ih, hfirst]
    rfl

theorem persistent_ok {gs : GuardSelection} (hgs : gs.Ok) : ∀ guard ∈ gs.persistent, guard.Ok gs.name :=
  fun guard hguard => hgs.guards guard (List.mem_filter.mp hguard).1

theorem selectionName_reloadedContexts (hok : ∀ gs ∈ guardContexts, gs.Ok) :
    ∀ guard ∈ reloadedContexts approxTime guardContexts, ∃ gs ∈ guardContexts, guard.selectionName = gs.name := by
  intro guard hguard
  obtain ⟨gs, hgs, hmem⟩ := List.mem_flatMap.mp hguard
  exact ⟨gs, hgs, name_reloadedAll (persistent_ok (hok gs hgs)) 0 guard hmem⟩

/-- The guards of one name are those of one selection. -/
theorem filter_reloadedContexts (h : Writable guardContexts) {gs : GuardSelection} (hgs : gs ∈ guardContexts) :
    ((reloadedContexts approxTime guardContexts).filter fun guard => guard.selectionName = gs.name) =
      reloadedAll approxTime 0 gs.persistent := by
  induction guardContexts with
  | nil => cases hgs
  | cons first rest ih =>
    obtain ⟨hfirst, hrest⟩ := List.forall_mem_cons.mp h.ok
    obtain ⟨hother, hdistinct⟩ := List.nodup_cons.mp h.distinct
    have hnames := @name_reloadedAll approxTime first.name first.persistent (persistent_ok hfirst) 0
    have hcons : reloadedContexts approxTime (first :: rest) =
        reloadedAll approxTime 0 first.persistent ++ reloadedContexts approxTime rest := rfl
    rw [hcons, List.filter_append]
    rcases List.mem_cons.mp hgs with rfl | hgs
    · have hall : ((reloadedAll approxTime 0 gs.persistent).filter fun guard => guard.selectionName = gs.name) =
          reloadedAll approxTime 0 gs.persistent :=
        List.filter_eq_self.mpr fun guard hguard => decide_eq_true (hnames guard hguard)
      have hnone : ((reloadedContexts approxTime rest).filter fun guard => guard.selectionName = gs.name) = [] := by
        refine List.filter_eq_nil_iff.mpr fun guard hguard => ?_
        obtain ⟨g, hg, hname⟩ := selectionName_reloadedContexts hrest guard hguard
        rw [decide_eq_true_eq, hname]
        exact fun he => hother (List.mem_map.mpr ⟨g, hg, he⟩)
      rw [hall, hnone, List.append_nil]
    · have hnone : ((reloadedAll approxTime 0 first.persistent).filter fun guard => guard.selectionName = gs.name) = [] := by
        refine List.filter_eq_nil_iff.mpr fun guard hguard => ?_
        rw [decide_eq_true_eq, hnames guard hguard]
        exact fun he => hother (List.mem_map.mpr ⟨gs, hgs, he.symm⟩)
      rw [hnone, ih ⟨hdistinct, hrest⟩ hgs]
      rfl

theorem compares_sampledIdx : Compares compareGuardsBySampledIdx (·.sampledIdx) := by
  intro a b
  show compareGuardsBySampledIdx a b ≤ 0 ↔ a.sampledIdx ≤ b.sampledIdx
  unfold compareGuardsBySampledIdx
  split
  · omega
  · split <;> omega

/-- What is loaded for a selection: its persistent guards as they were read, in the order they had. -/
theorem sampleOf_load (h : Writable guardContexts) {lines : List Text}
    (hlines : lines.Perm (entryGuardsUpdateGuardsInState circs guardContexts)) (old : List GuardSelection) :
    (entryGuardsLoadGuardsFromState approxTime maxSampleSize true old lines).2 = 0 ∧
    NextAbove (entryGuardsLoadGuardsFromState approxTime maxSampleSize true old lines).1 ∧
    ∀ gs ∈ guardContexts, sampleOf (entryGuardsLoadGuardsFromState approxTime maxSampleSize true old lines).1 gs.name =
      reloadedAll approxTime 0 gs.persistent := by
  have hwritten := @read_written approxTime maxSampleSize circs guardContexts h.ok
  have hperm := hlines.map (entryGuardParseFromState approxTime maxSampleSize)
  rw [hwritten] at hperm
  have hread : ∀ line ∈ lines, ∃ guard, entryGuardParseFromState approxTime maxSampleSize line = some guard ∧
      guard.selectionName ≠ "legacy".toList := by
    intro line hline
    obtain ⟨guard, hguard, hsome⟩ := List.mem_map.mp (hperm.subset (List.mem_map_of_mem hline))
    obtain ⟨gs, hgs, hname⟩ := selectionName_reloadedContexts h.ok guard hguard
    exact ⟨guard, hsome.symm, hname ▸ (h.ok gs hgs).name.notLegacy⟩
  have hguards : (lines.filterMap (entryGuardParseFromState approxTime maxSampleSize)).Perm
      (reloadedContexts approxTime guardContexts) := by
    have hid := hperm.filterMap id
    rw [List.filterMap_map, List.filterMap_map] at hid
    exact hid.trans (List.Perm.of_eq List.filterMap_some)
  have hload : entryGuardsLoadGuardsFromState approxTime maxSampleSize true old lines =
      ((addAll (lines.filterMap (entryGuardParseFromState approxTime maxSampleSize)) []).map GuardSelection.sorted, 0) := by
    rw [entryGuardsLoadGuardsFromState, if_pos rfl, loadLines hread]
    rfl
  rw [hload]
  refine ⟨rfl, (NextAbove.addAll (fun gs hgs => (by cases hgs)) _).sorted, fun gs hgs => ?_⟩
  have hsample : sampleOf (addAll (lines.filterMap (entryGuardParseFromState approxTime maxSampleSize)) []) gs.name =
      (lines.filterMap (entryGuardParseFromState approxTime maxSampleSize)).filter fun guard => guard.selectionName = gs.name :=
    sampleOf_addAll _ [] _
  have hmine := hguards.filter fun guard => guard.selectionName = gs.name
  rw [filter_reloadedContexts h hgs] at hmine
  have hincreasing := @increasing_reloadedAll approxTime gs.persistent 0
  have hkeys : ((lines.filterMap (entryGuardParseFromState approxTime maxSampleSize)).filter
      fun guard => guard.selectionName = gs.name).Pairwise fun a b => a.sampledIdx ≠ b.sampledIdx :=
    (hmine.pairwise_iff fun h => h.symm).mpr (hincreasing.imp fun hlt => Int.ne_of_lt hlt)
  have hsorted : SortedFrom compareGuardsBySampledIdx (reloadedAll approxTime 0 gs.persistent)
      (reloadedAll approxTime 0 gs.persistent) :=
    ⟨.refl _, hincreasing.imp fun {a b} hlt => (compares_sampledIdx a b).mpr (Int.le_of_lt hlt)⟩
  rw [sampleOf_sorted, hsample]
  exact SortedFrom.unique compares_sampledIdx hmine (insertionSort_isSort compares_sampledIdx _) hsorted hkeys

/-- The selection is as it was: the persistent guards in their order, with what identifies and dates them. -/
structure Restored (gs : GuardSelection) (result : List GuardSelection × Int) : Prop where
  success : result.2 = 0
  sample : List.Forall₂ SameGuard gs.persistent (sampleOf result.1 gs.name)
  ordered : (sampleOf result.1 gs.name).Pairwise fun a b => a.sampledIdx < b.sampledIdx
  next : ∀ loaded ∈ result.1, loaded.name = gs.name → ∀ guard ∈ loaded.sampledEntryGuards, guard.sampledIdx < loaded.nextSampledIdx

theorem forall₂_reloaded {name : Text} {guards : List EntryGuard} (hguards : ∀ guard ∈ guards, guard.Ok name) (i : Nat) :
    List.Forall₂ SameGuard guards (reloadedAll approxTime i guards) ↔ ∀ guard ∈ guards, DatesSurvive approxTime guard := by
  induction guards generalizing i with
  | nil => exact iff_of_true .nil fun guard hguard => (by cases hguard)
  | cons g guards ih =>
    obtain ⟨hg, hrest⟩ := List.forall_mem_cons.mp hguards
    rw [reloadedAll, List.forall₂_cons, List.forall_mem_cons, sameGuard_iff hg, ih hrest]

/-- A selection is restored from its lines, in any order and among those of others, exactly when the dates of its guards
survive. -/
theorem guards_survive_iff (h : Writable guardContexts) {lines : List Text}
    (hlines : lines.Perm (entryGuardsUpdateGuardsInState circs guardContexts)) (old : List GuardSelection)
    {gs : GuardSelection} (hgs : gs ∈ guardContexts) :
    Restored gs (entryGuardsLoadGuardsFromState approxTime maxSampleSize true old lines) ↔
      ∀ guard ∈ gs.persistent, DatesSurvive approxTime guard := by
  obtain ⟨hsuccess, hnext, hsample⟩ := @sampleOf_load approxTime maxSampleSize circs guardContexts h lines hlines old
  rw [← forall₂_reloaded (persistent_ok (h.ok gs hgs)) 0]
  constructor
  · intro hrestored
    rw [← hsample gs hgs]
    exact hrestored.sample
  · intro hsame
    refine ⟨hsuccess, ?_, ?_, fun loaded hloaded _ => hnext loaded hloaded⟩
    · rw [hsample gs hgs]
      exact hsame
    · rw [hsample gs hgs]
      exact increasing_reloadedAll _ 0

end

/-- A guard that was sampled and confirmed at these times. -/
def guardOfDates (sampledOnDate confirmedOnDate : Nat) : EntryGuard where
  nickname := ['r', 'e', 'l', 'a', 'y']
  identity := ⟨List.replicate 20 7, rfl⟩
  selectionName := "default".toList
  bridgeAddr := none
  sampledOnDate := sampledOnDate
  unlistedSinceDate := 0
  sampledByVersion := some ['0', '.', '4']
  currentlyListed := true
  confirmedOnDate := confirmedOnDate
  sampledIdx := 0
  confirmedIdx := 0
  extraStateFields := none
  isPersistent := true
  isReachable := .yes

def selectionOf : GuardSelection where
  name := "default".toList
  sampledEntryGuards := guards
  nextSampledIdx := 1

theorem guardOfDates_ok {sampledOnDate confirmedOnDate : Nat} (hsampled : 1 ≤ sampledOnDate) :
    (guardOfDates sampledOnDate confirmedOnDate).Ok "default".toList where
  selection := rfl
  sampledOn := hsampled
  bridge := by
    intro bridge hbridge
    cases hbridge
  confirmed := .inl ⟨Int.le_refl 0, Int.natCast_nonneg INT_MAX⟩
  version := by
    intro version hversion
    cases hversion
    decide
  extra := ⟨[], fun w hw => (by cases hw), rfl⟩

theorem nameOk_default : NameOk "default".toList where
  noBlank := by decide +kernel
  last := by
    intro c hc
    have hlast : "default".toList.getLast? = some 't' := by decide +kernel
    rw [hlast] at hc
    rw [← Option.some.inj (Option.mem_def.mp hc)]
    decide
  notLegacy := by decide +kernel

theorem writable_selectionOf {guards : List EntryGuard} (hsize : guards.length ≤ INT_MAX)
    (hguards : ∀ guard ∈ guards, guard.Ok "default".toList) : Writable [selectionOf guards] where
  distinct := List.nodup_singleton _
  ok := by
    intro gs hgs
    rw [List.mem_singleton.mp hgs]
    exact ⟨nameOk_default, hsize, hguards⟩

/-- Lines in the other order are put in order again. -/
theorem guards_survive_reversed :
    Restored (selectionOf [guardOfDates 1700000000 1700000100, guardOfDates 1600000000 1650000000])
      (entryGuardsLoadGuardsFromState 1750000000 60 true []
        (entryGuardsUpdateGuardsInState (fun _ => ⟨0, 1⟩)
          [selectionOf [guardOfDates 1700000000 1700000100, guardOfDates 1600000000 1650000000]]).reverse) := by
  have hok : ∀ guard ∈ [guardOfDates 1700000000 1700000100, guardOfDates 1600000000 1650000000],
      guard.Ok "default".toList :=
    List.forall_mem_cons.mpr ⟨guardOfDates_ok (by decide), List.forall_mem_singleton.mpr (guardOfDates_ok (by decide))⟩
  have hsurvives : ∀ t : Nat, t = 1700000000 ∨ t = 1700000100 ∨ t = 1600000000 ∨ t = 1650000000 → TimeSurvives t := by
    rintro t (rfl | rfl | rfl | rfl) <;> exact ⟨by decide, by unfold OnLeapDay400; decide +kernel⟩
  refine (guards_survive_iff (writable_selectionOf (by decide) hok) (List.reverse_perm _) []
    (List.mem_singleton.mpr rfl)).mpr fun guard hguard => ?_
  have hmem : guard ∈ [guardOfDates 1700000000 1700000100, guardOfDates 1600000000 1650000000] := (List.mem_filter.mp hguard).1
  rcases List.mem_cons.mp hmem with rfl | hmem
  · exact ⟨.inl (hsurvives _ (by decide)), survives_zero, hsurvives _ (by decide)⟩
  · rw [List.mem_singleton.mp hmem]
    exact ⟨.inl (hsurvives _ (by decide)), survives_zero, hsurvives _ (by decide)⟩

/-- A guard that was sampled on 2000-02-29 is sampled anew, at the time of the restart. -/
theorem a_guard_of_the_leap_day_is_not_restored :
    Writable [selectionOf [guardOfDates 951782400 951868800]] ∧
    ¬ Restored (selectionOf [guardOfDates 951782400 951868800])
      (entryGuardsLoadGuardsFromState 1750000000 60 true []
        (entryGuardsUpdateGuardsInState (fun _ => ⟨0, 0⟩) [selectionOf [guardOfDates 951782400 951868800]])) := by
  have hok : (guardOfDates 951782400 951868800).Ok "default".toList := guardOfDates_ok (by decide)
  have hwritable : Writable [selectionOf [guardOfDates 951782400 951868800]] :=
    writable_selectionOf (by decide) (List.forall_mem_singleton.mpr hok)
  refine ⟨hwritable, fun hrestored => ?_⟩
  have hsample := (@sampleOf_load 1750000000 60 (fun _ => ⟨0, 0⟩) _ hwritable _ (.refl _) []).2.2 _ (List.mem_singleton.mpr rfl)
  have hsame := hrestored.sample
  rw [hsample] at hsame
  obtain ⟨hdates, -⟩ := List.forall₂_cons.mp hsame
  rcases ((sameGuard_iff hok).mp hdates).sampledOn with hsurvives | ⟨-, hnow⟩
  · exact hsurvives.2 (by unfold OnLeapDay400; decide +kernel)
  · exact absurd hnow (by decide)

end Badnet.Entrynodes.State

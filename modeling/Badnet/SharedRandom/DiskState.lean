/-
  Badnet.SharedRandom.DiskState — the shared random state on disk (`disk_state_update`, `disk_state_parse`).

  Each commit and each value is a line of words; the phase comes from the valid-after time, the counters start at 0, and
  whether the current value is fresh is not stored. So after a restart the authority has the same commits and values,
  and chooses among those that votes carry like one whose value is not fresh (`disk_round_trip`).
-/

import Badnet.SharedRandom.State
import Badnet.SharedRandom.Consensus
import Badnet.Protover.OrLater
import Mathlib.Data.List.DropRight

namespace Badnet.SharedRandom

open Lib Encoding Dirparse Protover.C

/-! ## Lines -/

/-- `smartlist_split_string` at blanks, with `SPLIT_SKIP_SPACE|SPLIT_IGNORE_BLANK`. -/
def splitOnBlanks (str : Text) : List Text :=
  let cp := str.dropWhile isspace
  let piece := (cp.takeWhile (· ≠ ' ')).rdropWhile isspace
  (if piece ≠ [] then [piece] else []) ++
    match _hrest : cp.dropWhile (· ≠ ' ') with
    | [] => []
    | _ :: next => splitOnBlanks next
termination_by str.length
decreasing_by
  have hcp := (List.dropWhile_suffix (l := str) isspace).length_le
  have hnext := (List.dropWhile_suffix (l := str.dropWhile isspace) (· ≠ ' ')).length_le
  rw [_hrest, List.length_cons] at hnext
  omega

structure ConfigLine where
  key : Text
  value : Text
  deriving DecidableEq

def dstateCommitKey : Text := "Commit".toList
def dstatePrevSrvKey : Text := "SharedRandPreviousValue".toList
def dstateCurSrvKey : Text := "SharedRandCurrentValue".toList

structure SrDiskState where
  version : UInt32
  validAfter : Int
  validUntil : Int
  commit : List ConfigLine
  sharedRandValues : List ConfigLine
  deriving DecidableEq

/-! ## Writing -/

def diskStatePutCommitLine (commit : SrCommit) : Text :=
  let revealStr := if commit.hasRevealValue then ' ' :: commit.encodedReveal else []
  decimal SR_PROTO_VERSION ++ ' ' :: cryptoDigestAlgorithmGetName commit.alg ++ ' ' :: commit.rsaIdentityHex ++
    ' ' :: commit.encodedCommit ++ revealStr

def diskStatePutSrvLine (srv : SrSrv) : Text := decimal srv.numReveals.toNat ++ ' ' :: srSrvEncode srv

def diskStateUpdate (s : SrMemState) : SrDiskState where
  version := s.version
  validUntil := s.validUntil
  validAfter := s.validAfter
  sharedRandValues :=
    (s.previousSrv.map fun srv => { key := dstatePrevSrvKey, value := diskStatePutSrvLine srv : ConfigLine }).toList ++
      (s.currentSrv.map fun srv => { key := dstateCurSrvKey, value := diskStatePutSrvLine srv : ConfigLine }).toList
  commit := s.commits.map fun commit => { key := dstateCommitKey, value := diskStatePutCommitLine commit }

/-! ## Reading -/

def torParseUint64 (s : Text) : Option Nat :=
  match torParseUlongNext s 0 ULONG_MAX with
  | some (r, []) => some r
  | _ => none

def SR_SRV_VALUE_BASE64_LEN : Nat := 44

def srParseSrv (args : List Text) : Option SrSrv :=
  match args with
  | numReveals :: value :: _ => do
    let numReveals ← torParseUint64 numReveals
    if value.length ≠ SR_SRV_VALUE_BASE64_LEN then none
    else
      let bytes ← base64Decode 32 (value.take (SR_SRV_VALUE_BASE64_LEN - 1))
      if h : bytes.length = 32 then some { numReveals := UInt64.ofNat numReveals, value := ⟨bytes, h⟩ } else none
  | _ => none

def diskStateParseSrv (value : Text) : Option SrSrv :=
  let args := splitOnBlanks value
  if args.length < 2 then none else srParseSrv args

/-- The two flags say which values were seen. -/
def diskStateParseSrValues (seenPrevious seenCurrent : Bool) (s : SrMemState) : List ConfigLine → Option SrMemState
  | [] => some s
  | line :: lines => do
    let srv ← diskStateParseSrv line.value
    if strcasecmp line.key dstatePrevSrvKey = 0 then
      if seenPrevious then none
      else diskStateParseSrValues true seenCurrent { s with previousSrv := some srv } lines
    else if strcasecmp line.key dstateCurSrvKey = 0 then
      if seenCurrent then none
      else diskStateParseSrValues seenPrevious true { s with currentSrv := some srv } lines
    else diskStateParseSrValues seenPrevious seenCurrent s lines

def diskStateParseCommits (s : SrMemState) : List ConfigLine → Option SrMemState
  | [] => some s
  | line :: lines =>
    if strcasecmp line.key dstateCommitKey ≠ 0 then diskStateParseCommits s lines
    else
      let args := splitOnBlanks line.value
      if args.length < 3 then none
      else
        match srParseCommit args with
        | none => diskStateParseCommits s lines
        | some commit => diskStateParseCommits (s.addCommit { commit with valid := true }) lines

def diskStateParse (env : UpdateEnv) (now : Int) (d : SrDiskState) : Option SrMemState := do
  let s := { stateNew env now with
    version := d.version
    validUntil := d.validUntil
    validAfter := d.validAfter
    phase := getSrProtocolPhase env.votingInterval d.validAfter }
  let s ← diskStateParseSrValues false false s d.sharedRandValues
  diskStateParseCommits s d.commit

/-! ## Words -/

/-- The ends are no white space, so that nothing is trimmed. -/
structure Trimmed (w : Text) : Prop where
  head : ∀ c ∈ w.head?, isspace c = false
  last : ∀ c ∈ w.getLast?, isspace c = false

/-- What a line is split into: something without a blank, trimmed. -/
structure DiskWord (w : Text) : Prop where
  ne_nil : w ≠ []
  noBlank : ' ' ∉ w
  trimmed : Trimmed w

variable {w : Text} {ws : List Text} {c : SrCommit} {s t : SrMemState} {env : UpdateEnv} {now : Int} {srv : SrSrv}

theorem diskWord_of_chars (hne : w ≠ []) (h : ∀ c ∈ w, isspace c = false) : DiskWord w := by
  refine ⟨hne, fun hblank => ?_, ⟨fun c hc => h c (List.mem_of_mem_head? hc), fun c hc => h c (List.mem_of_getLast? hc)⟩⟩
  exact absurd (h ' ' hblank) (by decide)

theorem splitOnBlanks_eq (str : Text) :
    splitOnBlanks str =
      (if ((str.dropWhile isspace).takeWhile (· ≠ ' ')).rdropWhile isspace ≠ [] then
          [((str.dropWhile isspace).takeWhile (· ≠ ' ')).rdropWhile isspace] else []) ++
        match (str.dropWhile isspace).dropWhile (· ≠ ' ') with
        | [] => []
        | _ :: next => splitOnBlanks next := by
  rw [splitOnBlanks]
  congr 1
  split
  · next h => rw [h]
  · next h => rw [h]

theorem splitOnBlanks_word (hw : DiskWord w) (ws : List Text) :
    splitOnBlanks (w ++ blanked ws) = w :: match ws with | [] => [] | v :: ws => splitOnBlanks (v ++ blanked ws) := by
  have hskip : (w ++ blanked ws).dropWhile isspace = w ++ blanked ws := by
    obtain ⟨c, rest, rfl⟩ := List.exists_cons_of_ne_nil hw.ne_nil
    have hc := hw.trimmed.head c rfl
    exact List.dropWhile_cons_of_neg (by rw [hc]; decide)
  have hchars : ∀ c ∈ w, decide (c ≠ ' ') = true := fun c hc => decide_eq_true fun he => hw.noBlank (he ▸ hc)
  have hblank : ∀ c ∈ (blanked ws).head?, decide (c ≠ ' ') = false := by
    intro c hc
    cases ws with
    | nil => cases hc
    | cons v ws =>
      cases hc
      rfl
  have htrim : w.rdropWhile isspace = w := by
    refine List.rdropWhile_eq_self_iff.mpr fun hne => ?_
    rw [hw.trimmed.last _ (List.getLast?_eq_some_getLast hne)]
    decide
  rw [splitOnBlanks_eq, hskip, takeWhile_run hchars hblank, dropWhile_run hchars hblank, htrim, if_pos hw.ne_nil]
  cases ws with
  | nil => rfl
  | cons v ws => rfl

/-- Words behind each other, a blank between them, are what the line is split into. -/
theorem splitOnBlanks_words (hw : DiskWord w) (hws : ∀ v ∈ ws, DiskWord v) : splitOnBlanks (w ++ blanked ws) = w :: ws := by
  induction ws generalizing w with
  | nil => exact splitOnBlanks_word hw []
  | cons v ws ih =>
    rw [splitOnBlanks_word hw (v :: ws)]
    exact congrArg (w :: ·) (ih (hws v List.mem_cons_self) fun u hu => hws u (List.mem_cons_of_mem _ hu))

/-- No piece has a blank in it. -/
theorem noBlank_of_split {str : Text} (h : w ∈ splitOnBlanks str) : ' ' ∉ w := by
  induction hlen : str.length using Nat.strong_induction_on generalizing str with
  | _ n ih =>
    subst hlen
    rw [splitOnBlanks_eq] at h
    rcases List.mem_append.mp h with h | h
    · split at h
      · rw [List.mem_singleton.mp h]
        intro hblank
        have := List.mem_takeWhile_imp ((List.rdropWhile_prefix _ _).subset hblank)
        simp at this
      · exact absurd h List.not_mem_nil
    · split at h
      · exact absurd h List.not_mem_nil
      · next hrest =>
        refine ih _ ?_ h rfl
        have hcp := (List.dropWhile_suffix (l := str) isspace).length_le
        have hnext := (List.dropWhile_suffix (l := str.dropWhile isspace) (· ≠ ' ')).length_le
        rw [hrest, List.length_cons] at hnext
        omega

theorem isspace_digit {ch : Char} (h : ch.isDigit = true) : isspace ch = false := (digit_starts_number h).1

theorem diskWord_decimal (n : Nat) : DiskWord (decimal n) :=
  diskWord_of_chars (decimal_ne_nil n) fun _ hc => isspace_digit (isDigit_decimal _ hc)

/-! ## Values -/

theorem isspace_of_all {l : Text} (h : l.all (fun ch => !isspace ch) = true) : ∀ ch ∈ l, isspace ch = false := fun ch hch =>
  (Bool.not_eq_true' _).mp (List.all_eq_true.mp h ch hch)

theorem isspace_base64 : ∀ ch ∈ '=' :: base64EncodeTable, isspace ch = false := isspace_of_all (by decide)

theorem srSrvEncode_eq (srv : SrSrv) : srSrvEncode srv = symbols srv.value.1 ++ ['='] := by
  rw [srSrvEncode, encoded_single, srv.value.2]
  rfl

theorem length_symbols_value (srv : SrSrv) : (symbols srv.value.1).length = 43 := by
  rw [length_symbols, srv.value.2]

theorem torParseUint64_decimal {n : Nat} (h : n ≤ ULONG_MAX) : torParseUint64 (decimal n) = some n := by
  have hdigits : ∀ ch ∈ decimal n, ch.isDigit = true := isDigit_decimal
  have hhead : (decimal n).head?.any Char.isDigit = true := by
    obtain ⟨ch, rest, hcons⟩ := List.exists_cons_of_ne_nil (decimal_ne_nil n)
    rw [hcons]
    exact hdigits ch (hcons ▸ List.mem_cons_self)
  rw [torParseUint64, torParseUlongNext_digits hhead (Nat.le_refl _), List.takeWhile_eq_self_iff.mpr hdigits,
    List.dropWhile_eq_nil_iff.mpr hdigits, ofDigitChars_decimal, if_pos h]

/-- A value is read back from its line. -/
theorem diskStateParseSrv_line (srv : SrSrv) : diskStateParseSrv (diskStatePutSrvLine srv) = some srv := by
  have hencoded := srSrvEncode_eq srv
  have hsymbols := length_symbols_value srv
  have hword : DiskWord (srSrvEncode srv) := by
    refine diskWord_of_chars (by rw [hencoded]; simp) fun ch hch => isspace_base64 ch ?_
    rw [srSrvEncode, encoded_single] at hch
    exact mem_padded hch
  have hsplit : splitOnBlanks (diskStatePutSrvLine srv) = [decimal srv.numReveals.toNat, srSrvEncode srv] := by
    have hline : diskStatePutSrvLine srv = decimal srv.numReveals.toNat ++ blanked [srSrvEncode srv] := by
      simp [diskStatePutSrvLine, blanked]
    rw [hline]
    exact splitOnBlanks_words (diskWord_decimal _) fun v hv => List.mem_singleton.mp hv ▸ hword
  have hlen : (srSrvEncode srv).length = SR_SRV_VALUE_BASE64_LEN := by
    rw [hencoded, List.length_append, hsymbols]
    rfl
  have hvalue : base64Decode 32 ((srSrvEncode srv).take (SR_SRV_VALUE_BASE64_LEN - 1)) = some srv.value.1 := by
    rw [hencoded, List.take_left' (by rw [hsymbols]; rfl), ← List.append_nil (symbols srv.value.1)]
    exact base64Decode_symbols (by decide) (Nat.le_of_eq srv.value.2) fun c hc => by cases hc
  have hnum : srv.numReveals.toNat ≤ ULONG_MAX := by
    have := srv.numReveals.toNat_lt
    rw [ULONG_MAX]
    omega
  rw [diskStateParseSrv, hsplit]
  simp only [List.length_cons, List.length_nil, srParseSrv, torParseUint64_decimal hnum, Option.bind_eq_bind,
    Option.bind_some, hlen, hvalue, ne_eq, not_true_eq_false, if_false, dif_pos srv.value.2, UInt64.ofNat_toNat]
  rfl

/-! ## Commits -/

/-- What `sr_parse_commit` reads and `sr_generate_our_commit` makes: the fields are what the two texts encode. -/
structure Readable (c : SrCommit) : Prop where
  alg : c.alg = SR_DIGEST_ALG
  decoded : Decoded c
  reveal : c.encodedReveal ≠ [] →
    decodeStamped SR_REVEAL_BASE64_LEN c.encodedReveal = some (c.revealTs, c.randomNumber)
  noReveal : c.encodedReveal = [] → c.revealTs = 0 ∧ c.randomNumber = zeroBytes 32
  commitBlank : ' ' ∉ c.encodedCommit
  revealBlank : ' ' ∉ c.encodedReveal

/-- A commit of a state. -/
structure Stored (c : SrCommit) : Prop where
  valid : c.valid = true
  readable : Readable c

theorem Readable.stored (h : Readable c) : Stored { c with valid := true } :=
  ⟨rfl, h.alg, ⟨h.decoded.fields, h.decoded.hex⟩, h.reveal, h.noReveal, h.commitBlank, h.revealBlank⟩

theorem decodeStamped_nil (maxLen : Nat) : decodeStamped maxLen [] = none := by
  rw [decodeStamped, if_neg (by simp)]
  rfl

theorem Readable.commit_ne_nil (h : Readable c) : c.encodedCommit ≠ [] := by
  intro hnil
  have hfields := h.decoded.fields
  rw [hnil, decodeStamped_nil] at hfields
  cases hfields

theorem srParseCommit_readable {args : List Text} (hargs : ∀ w ∈ args, ' ' ∉ w) (h : srParseCommit args = some c) :
    Readable c := by
  have hdecoded := srParseCommit_decoded h
  unfold srParseCommit at h
  split at h
  case h_2 => cases h
  case h_1 version algname fpr value rest =>
    split at h
    · cases h
    split at h
    · cases h
    obtain ⟨digest, -, h⟩ := Option.bind_eq_some_iff.mp h
    obtain ⟨c1, hcommit, h⟩ := Option.bind_eq_some_iff.mp h
    obtain ⟨⟨ts, hashed⟩, -, rfl⟩ := Option.map_eq_some_iff.mp hcommit
    have hvalue : ' ' ∉ value := hargs value (by simp)
    cases rest with
    | nil =>
      cases h
      exact ⟨rfl, hdecoded, fun hne => absurd rfl hne, fun _ => ⟨rfl, rfl⟩, hvalue, List.not_mem_nil⟩
    | cons reveal rest =>
      obtain ⟨⟨ts', number⟩, hreveal, rfl⟩ := Option.map_eq_some_iff.mp h
      have hne : reveal ≠ [] := by
        rintro rfl
        rw [decodeStamped_nil] at hreveal
        cases hreveal
      exact ⟨rfl, hdecoded, fun _ => hreveal, fun hnil => absurd hnil hne, hvalue, hargs reveal (by simp)⟩

theorem blank_notMem_word (h : Word w) : ' ' ∉ w := fun hblank => absurd (h.chars ' ' hblank) (by decide)

variable {sha3 : Bytes → Digest256}

theorem Generated.stored (h : Generated sha3 c) : Stored c :=
  ⟨h.valid, h.alg, h.decoded, fun _ => h.revealDecoded, fun hnil => absurd hnil h.revealWord.ne_nil,
    blank_notMem_word h.commitWord, blank_notMem_word h.revealWord⟩

/-- The two texts are not trimmed when the line is read. -/
structure TextsTrimmed (c : SrCommit) : Prop where
  commit : Trimmed c.encodedCommit
  reveal : Trimmed c.encodedReveal

theorem lineHead_diskWords (h : Stored c) : ∀ v ∈ lineHead c, DiskWord v := by
  intro v hv
  simp only [lineHead, List.mem_cons, List.not_mem_nil, or_false] at hv
  rcases hv with rfl | rfl | rfl
  · exact diskWord_decimal _
  · rw [h.readable.alg]
    exact diskWord_of_chars (by decide) (isspace_of_all (by decide))
  · rw [h.readable.decoded.hex]
    refine diskWord_of_chars (word_hex _).ne_nil fun ch hch => ?_
    exact isspace_of_all (show (hexDigits.all fun ch => !isspace ch) = true by decide) ch (mem_base16Encode hch)

/-- What stands on the line of a commit behind its head. -/
def lineTail (c : SrCommit) : List Text := c.encodedCommit :: if c.hasRevealValue then [c.encodedReveal] else []

theorem splitOnBlanks_commitLine (h : Stored c) (htexts : TextsTrimmed c) :
    splitOnBlanks (diskStatePutCommitLine c) = lineHead c ++ lineTail c := by
  have htail : ∀ v ∈ lineTail c, DiskWord v := by
    intro v hv
    rcases List.mem_cons.mp hv with rfl | hv
    · exact ⟨h.readable.commit_ne_nil, h.readable.commitBlank, htexts.commit⟩
    · split at hv
      · next hreveal =>
        rw [List.mem_singleton.mp hv]
        exact ⟨of_decide_eq_true hreveal, h.readable.revealBlank, htexts.reveal⟩
      · exact absurd hv List.not_mem_nil
  have hwords : ∀ v ∈ lineHead c ++ lineTail c, DiskWord v := fun v hv =>
    (List.mem_append.mp hv).elim (lineHead_diskWords h v) (htail v)
  have hline : diskStatePutCommitLine c = decimal SR_PROTO_VERSION ++
      blanked ([cryptoDigestAlgorithmGetName c.alg, c.rsaIdentityHex] ++ lineTail c) := by
    rw [diskStatePutCommitLine, lineTail]
    by_cases hreveal : c.hasRevealValue = true
    · simp [blanked, hreveal]
    · simp [blanked, hreveal]
  rw [hline]
  exact splitOnBlanks_words (diskWord_decimal _) fun v hv => hwords v (List.mem_cons_of_mem _ hv)

/-- A commit is read back from its line. -/
theorem srParseCommit_commitLine (h : Stored c) (htexts : TextsTrimmed c) :
    (srParseCommit (splitOnBlanks (diskStatePutCommitLine c))).map (fun p => { p with valid := true }) = some c := by
  have hread := h.readable
  have halg := hread.alg
  have hvalid := h.valid
  have hhex := hread.decoded.hex
  rw [splitOnBlanks_commitLine h htexts, lineTail, hread.decoded.parse halg]
  by_cases hnil : c.encodedReveal = []
  · obtain ⟨hts, hnumber⟩ := hread.noReveal hnil
    rw [if_neg (by simp [SrCommit.hasRevealValue, hnil])]
    simp only [Option.map_some, SrCommit.published, commitNew]
    rw [← halg, ← hvalid, ← hhex, ← hts, ← hnumber, ← hnil]
  · rw [if_pos (show c.hasRevealValue = true from decide_eq_true hnil)]
    simp only [revealDecode, hread.reveal hnil, Option.map_some, SrCommit.published, commitNew]
    rw [← halg, ← hvalid, ← hhex]

/-! ## Every state -/

/-- The states of an authority: started afresh or from any disk state, through updates, votes and consensuses. -/
inductive Reachable : SrMemState → Prop
  | fresh (env : UpdateEnv) (now : Int) : Reachable (stateNew env now)
  | loaded {s : SrMemState} (env : UpdateEnv) (now : Int) (d : SrDiskState) : diskStateParse env now d = some s → Reachable s
  | updated {s : SrMemState} {u : Updated} (env : UpdateEnv) (validAfter : Int) :
    Reachable s → srStateUpdate env s validAfter = some u → Reachable u.state
  | received {s : SrMemState} {t : SrState} (sha3 : Bytes → Digest256) (known : Identity → Bool) (voter : Identity)
    (commits : List SrCommit) : Reachable s →
    (∀ c ∈ commits, ∃ line args, argumentsOfLine line = some args ∧ srParseCommit args = some c) →
    srHandleReceivedCommits sha3 known s.toSrState commits voter = some t → Reachable { s with toSrState := t }
  | consensus {s : SrMemState} (previousSrv currentSrv : Option SrSrv) :
    Reachable s → Reachable { s with previousSrv := previousSrv, currentSrv := currentSrv, isSrvFresh := false }

/-- One commit of an authority, each of them one that can be stored. -/
structure AllStored (s : SrState) : Prop where
  nodup : (s.commits.map SrCommit.rsaIdentity).Nodup
  stored : ∀ c ∈ s.commits, Stored c

variable {st st' : SrState} {commit : SrCommit}

theorem AllStored.addCommit (h : AllStored st) (hc : Stored c) : AllStored (st.addCommit c) := by
  refine ⟨(addCommit_stores st c).nodup h.nodup, fun d hd => ?_⟩
  rcases List.mem_cons.mp hd with rfl | hd
  · exact hc
  · exact h.stored d (List.mem_filter.mp hd).1

/-- The commit of one authority is another one. -/
theorem AllStored.stores {id : Identity} (h : AllStored st) (hstores : Stores st st' id c) (hc : Stored c) : AllStored st' := by
  have hnodup := hstores.nodup h.nodup
  refine ⟨hnodup, fun d hd => ?_⟩
  have hget := getCommit_of_mem hnodup hd
  rw [hstores.get] at hget
  split at hget
  · cases hget
    exact hc
  · exact h.stored d (List.mem_of_find?_eq_some hget)

theorem handleCommit_allStored {known : Identity → Bool} {voter : Identity} (h : AllStored st)
    (hcommit : Readable commit) (hstep : handleCommit sha3 known voter st commit = some st') : AllStored st' := by
  obtain ⟨t, hrun, ⟨-, rfl⟩ | ⟨-, -, -, -, hstores⟩ | ⟨-, -, saved, hget, -, -, -, hstores⟩⟩ :=
    handleCommit_cases sha3 known voter st commit
  · obtain rfl : t = st' := Option.some.inj (hrun.symm.trans hstep)
    exact h
  · obtain rfl : t = st' := Option.some.inj (hrun.symm.trans hstep)
    exact h.stores hstores hcommit.stored
  · obtain rfl : t = st' := Option.some.inj (hrun.symm.trans hstep)
    have hsaved := h.stored saved (List.mem_of_find?_eq_some hget)
    have hread := hsaved.readable
    exact h.stores hstores ⟨hsaved.valid, hread.alg, ⟨hread.decoded.fields, hread.decoded.hex⟩, hcommit.reveal,
      hcommit.noReveal, hread.commitBlank, hcommit.revealBlank⟩

theorem handleCommits_allStored {known : Identity → Bool} {voter : Identity}
    {commits : List SrCommit} (h : AllStored st) (hcommits : ∀ c ∈ commits, Readable c)
    (hstep : commits.foldlM (handleCommit sha3 known voter) st = some st') : AllStored st' := by
  induction commits generalizing st with
  | nil =>
    cases hstep
    exact h
  | cons commit commits ih =>
    rw [List.foldlM_cons] at hstep
    obtain ⟨u, hu, hrest⟩ := Option.bind_eq_some_iff.mp hstep
    exact ih (handleCommit_allStored h (hcommits commit List.mem_cons_self) hu)
      (fun c hc => hcommits c (List.mem_cons_of_mem _ hc)) hrest

theorem noBlank_of_argumentsFrom {j : Nat} {cp : Text} {args : List Text} (h : argumentsFrom j cp = some args) :
    ∀ w ∈ args, ' ' ∉ w := by
  have hword : ∀ cp : Text, ' ' ∉ cp.takeWhile isWordChar := fun cp hblank =>
    absurd (List.mem_takeWhile_imp hblank) (by decide)
  induction j generalizing cp args with
  | zero =>
    cases cp with
    | nil =>
      cases h
      exact fun w hw => absurd hw List.not_mem_nil
    | cons c cp => cases h
  | succ j ih =>
    by_cases hcp : cp = []
    · subst hcp
      cases h
      exact fun w hw => absurd hw List.not_mem_nil
    · rw [argumentsFrom_succ hcp] at h
      split at h
      · cases h
        intro w hw
        rw [List.mem_singleton.mp hw]
        exact hword cp
      · obtain ⟨rest, hrest, rfl⟩ := Option.map_eq_some_iff.mp h
        intro w hw
        rcases List.mem_cons.mp hw with rfl | hw
        · exact hword cp
        · exact ih hrest w hw

theorem parseSrValues_commits {seenPrevious seenCurrent : Bool} {lines : List ConfigLine}
    (h : diskStateParseSrValues seenPrevious seenCurrent s lines = some t) : t.toSrState = s.toSrState := by
  induction lines generalizing s seenPrevious seenCurrent with
  | nil =>
    cases h
    rfl
  | cons line lines ih =>
    rw [diskStateParseSrValues] at h
    obtain ⟨srv, -, h⟩ := Option.bind_eq_some_iff.mp h
    split at h
    · split at h
      · cases h
      · have hrest := ih h
        exact hrest
    · split at h
      · split at h
        · cases h
        · have hrest := ih h
          exact hrest
      · exact ih h

theorem parseCommits_allStored {lines : List ConfigLine} (h : AllStored s.toSrState)
    (hparse : diskStateParseCommits s lines = some t) : AllStored t.toSrState := by
  induction lines generalizing s with
  | nil =>
    cases hparse
    exact h
  | cons line lines ih =>
    rw [diskStateParseCommits] at hparse
    split at hparse
    · exact ih h hparse
    · simp only at hparse
      split at hparse
      · cases hparse
      split at hparse
      · exact ih h hparse
      · next commit hcommit =>
        have hread := srParseCommit_readable (fun w hw => noBlank_of_split hw) hcommit
        have hadded : AllStored (s.addCommit { commit with valid := true }).toSrState := h.addCommit hread.stored
        exact ih hadded hparse

theorem reachable_allStored (h : Reachable s) : AllStored s.toSrState := by
  have hempty : ∀ st : SrState, st.commits = [] → AllStored st := by
    intro st hst
    refine ⟨?_, fun c hc => ?_⟩
    · rw [hst]
      exact List.nodup_nil
    · rw [hst] at hc
      exact absurd hc List.not_mem_nil
  induction h with
  | fresh env now => exact hempty _ rfl
  | loaded env now d hparse =>
    obtain ⟨t, hvalues, hcommits⟩ := Option.bind_eq_some_iff.mp hparse
    exact parseCommits_allStored (hempty _ (congrArg SrState.commits (parseSrValues_commits hvalues))) hcommits
  | @updated s u env validAfter _ hupdate ih =>
    by_cases hlt : s.validAfter < validAfter
    swap
    · rw [srStateUpdate, if_pos (Int.not_lt.mp hlt)] at hupdate
      cases hupdate
      exact ih
    obtain ⟨e, henter, -, hcommits, -, -⟩ := srStateUpdate_later hlt hupdate
    have hours : ∀ c ∈ u.added, Stored c := by
      intro c hc
      obtain ⟨digest, hdigest, hgenerate⟩ := Option.bind_eq_some_iff.mp (enterPhase_added henter c hc)
      obtain ⟨c', hc', -, hgen⟩ := srGenerateOurCommit_spec env.sha3 (UInt64.ofInt validAfter) digest env.random
      obtain rfl : c' = c := Option.some.inj (hc'.symm.trans hgenerate)
      exact hgen.stored
    have hfrom : u.state.commits = s.commits ∨ u.state.commits = u.added.toList := by
      rw [hcommits]
      have hcases := (enterPhase_cases henter).2
      split at hcases
      · exact .inr hcases.commits
      · exact hcases.commits.imp And.left And.right
    rcases hfrom with hsame | hadded
    · exact ⟨hsame ▸ ih.nodup, hsame ▸ ih.stored⟩
    · refine ⟨?_, fun c hc => ?_⟩
      · rw [hadded]
        cases u.added with
        | none => exact List.nodup_nil
        | some c => exact List.nodup_singleton _
      · rw [hadded] at hc
        exact hours c (Option.mem_toList.mp hc)
  | received sha3 known voter commits _ hread hstep ih =>
    refine handleCommits_allStored ih (fun c hc => ?_) hstep
    obtain ⟨line, args, hargs, hparse⟩ := hread c (mem_deletionOrder.mp hc)
    exact srParseCommit_readable (noBlank_of_argumentsFrom hargs) hparse
  | consensus previousSrv currentSrv _ ih => exact ih

/-! ## Writing and reading back -/

theorem parseCommits_lines {cs : List SrCommit} (hstored : ∀ c ∈ cs, Stored c) (htexts : ∀ c ∈ cs, TextsTrimmed c)
    (hnodup : (cs.map SrCommit.rsaIdentity).Nodup) (hnew : ∀ c ∈ cs, ∀ d ∈ s.commits, d.rsaIdentity ≠ c.rsaIdentity) :
    diskStateParseCommits s (cs.map fun c => { key := dstateCommitKey, value := diskStatePutCommitLine c }) =
      some { s with commits := cs.reverse ++ s.commits } := by
  induction cs generalizing s with
  | nil => rfl
  | cons c cs ih =>
    have hc := hstored c List.mem_cons_self
    have htrimmed := htexts c List.mem_cons_self
    obtain ⟨hfirst, hrest⟩ := List.nodup_cons.mp hnodup
    have hkey : ¬ strcasecmp dstateCommitKey dstateCommitKey ≠ 0 := not_not.mpr (strcasecmp_self _)
    have hlen : ¬ (splitOnBlanks (diskStatePutCommitLine c)).length < 3 := by
      rw [splitOnBlanks_commitLine hc htrimmed]
      simp [lineHead]
    obtain ⟨p, hp, hpc⟩ := Option.map_eq_some_iff.mp (srParseCommit_commitLine hc htrimmed)
    have hadd : s.addCommit c = { s with commits := c :: s.commits } := by
      have hkeep : s.commits.filter (fun d => d.rsaIdentity ≠ c.rsaIdentity) = s.commits :=
        List.filter_eq_self.mpr fun d hd => decide_eq_true (hnew c List.mem_cons_self d hd)
      rw [SrMemState.addCommit, SrState.addCommit, hkeep]
    rw [List.map_cons, diskStateParseCommits, if_neg hkey]
    simp only
    rw [if_neg hlen, hp]
    simp only [hpc, hadd]
    rw [ih (fun d hd => hstored d (List.mem_cons_of_mem _ hd)) (fun d hd => htexts d (List.mem_cons_of_mem _ hd)) hrest]
    · simp
    · intro d hd e he
      rcases List.mem_cons.mp he with rfl | he
      · exact fun heq => hfirst (List.mem_map.mpr ⟨d, hd, heq.symm⟩)
      · exact hnew d (List.mem_cons_of_mem _ hd) e he

theorem parseSrValues_lines (s : SrMemState) (previousSrv currentSrv : Option SrSrv)
    (hnone : s.previousSrv = none ∧ s.currentSrv = none) :
    diskStateParseSrValues false false s
        ((previousSrv.map fun srv => { key := dstatePrevSrvKey, value := diskStatePutSrvLine srv : ConfigLine }).toList ++
          (currentSrv.map fun srv => { key := dstateCurSrvKey, value := diskStatePutSrvLine srv : ConfigLine }).toList) =
      some { s with previousSrv := previousSrv, currentSrv := currentSrv } := by
  have hprev : strcasecmp dstatePrevSrvKey dstatePrevSrvKey = 0 := strcasecmp_self _
  have hcur : strcasecmp dstateCurSrvKey dstateCurSrvKey = 0 := strcasecmp_self _
  have hapart : ¬ strcasecmp dstateCurSrvKey dstatePrevSrvKey = 0 := by decide
  cases previousSrv with
  | none =>
    cases currentSrv with
    | none =>
      have hself : s = { s with previousSrv := none, currentSrv := none } := by
        rcases s
        obtain ⟨rfl, rfl⟩ := hnone
        rfl
      exact congrArg some hself
    | some srv => simp [diskStateParseSrValues, diskStateParseSrv_line, hcur, hapart, hnone.1]
  | some prev =>
    cases currentSrv with
    | none => simp [diskStateParseSrValues, diskStateParseSrv_line, hprev, hnone.2]
    | some srv => simp [diskStateParseSrValues, diskStateParseSrv_line, hprev, hcur, hapart]

/-- The super majority can only keep a value out. -/
theorem majority_without_fresh (sort : List SrSrv → List SrSrv) (cenv : ConsensusEnv) (votes : List SrInfo) (current : Bool) :
    getMajoritySrvFromVotes sort { cenv with srvIsFresh := false } votes current =
        getMajoritySrvFromVotes sort cenv votes current ∨
      cenv.srvIsFresh = true ∧ getMajoritySrvFromVotes sort cenv votes current = none := by
  simp only [getMajoritySrvFromVotes]
  split
  · exact .inl rfl
  · next srv count _ =>
    by_cases hfew : count < cenv.nAuthorities / 2 + 1
    · left
      simp [shouldKeepSrv, hfew]
    · by_cases hfresh : cenv.srvIsFresh = true ∧ (count : Int) < cenv.numSrvAgreements
      · right
        refine ⟨hfresh.1, ?_⟩
        simp [shouldKeepSrv, hfresh]
      · left
        simp only [shouldKeepSrv, hfew, hfresh, Bool.false_eq_true, false_and, if_false]

/-- What a restart keeps. -/
structure SameAfterRestart (votingInterval : Int) (s t : SrMemState) : Prop where
  commits : ∀ id, t.toSrState.getCommit id = s.toSrState.getCommit id
  previousSrv : t.previousSrv = s.previousSrv
  currentSrv : t.currentSrv = s.currentSrv
  validAfter : t.validAfter = s.validAfter
  validUntil : t.validUntil = s.validUntil
  phase : t.phase = getSrProtocolPhase votingInterval s.validAfter
  notFresh : t.isSrvFresh = false

theorem getCommit_reverse {st st' : SrState} (hnodup : (st.commits.map SrCommit.rsaIdentity).Nodup)
    (h : st'.commits = st.commits.reverse) (id : Identity) : st'.getCommit id = st.getCommit id := by
  have hmem : ∀ c, c ∈ st'.commits ↔ c ∈ st.commits := fun c => by rw [h, List.mem_reverse]
  have hnodup' : (st'.commits.map SrCommit.rsaIdentity).Nodup := by
    rw [h, List.map_reverse]
    exact List.nodup_reverse.mpr hnodup
  cases hget : st.getCommit id with
  | some c =>
    have hc := (hmem c).mpr (List.mem_of_find?_eq_some hget)
    rw [← getCommit_identity hget]
    exact getCommit_of_mem hnodup' hc
  | none =>
    refine List.find?_eq_none.mpr fun c hc => ?_
    exact List.find?_eq_none.mp hget c ((hmem c).mp hc)

/-- The state that is read back. -/
def restarted (env : UpdateEnv) (now : Int) (s : SrMemState) : SrMemState :=
  { stateNew env now with
    version := s.version
    validUntil := s.validUntil
    validAfter := s.validAfter
    phase := getSrProtocolPhase env.votingInterval s.validAfter
    previousSrv := s.previousSrv
    currentSrv := s.currentSrv
    commits := s.commits.reverse }

theorem diskStateParse_update (env : UpdateEnv) (now : Int) (hall : AllStored s.toSrState)
    (htexts : ∀ c ∈ s.commits, TextsTrimmed c) : diskStateParse env now (diskStateUpdate s) = some (restarted env now s) := by
  rw [diskStateParse]
  simp only [diskStateUpdate]
  rw [parseSrValues_lines _ _ _ ⟨rfl, rfl⟩, Option.bind_eq_bind, Option.bind_some,
    parseCommits_lines hall.stored htexts hall.nodup fun c _ d hd => absurd hd List.not_mem_nil]
  have hcommits : s.commits.reverse ++ (stateNew env now).commits = s.commits.reverse := List.append_nil _
  rw [hcommits]
  rfl

theorem restarted_same (env : UpdateEnv) (now : Int) (hall : AllStored s.toSrState) :
    SameAfterRestart env.votingInterval s (restarted env now s) :=
  ⟨getCommit_reverse hall.nodup rfl, rfl, rfl, rfl, rfl, rfl, rfl⟩

def restartEnv : UpdateEnv where
  sha3 := fun _ => zeroBytes 32
  votingInterval := 3600
  curValidAfterTime := 82800
  digest := none
  random := zeroBytes 32
  sort := id
  trusteddirserver := fun _ => true

/-- Three authorities, of which two vote for one value; three agreements are asked for. -/
def twoOfThree (srvIsFresh : Bool) : ConsensusEnv where
  authDirSharedRandomness := true
  nAuthorities := 3
  srvIsFresh := srvIsFresh
  numSrvAgreements := 3

def votedValue : SrSrv := { numReveals := 2, value := zeroBytes 32 }

def twoVotes : List SrInfo :=
  List.replicate 2 { participate := true, previousSrv := none, currentSrv := some votedValue }

/-- At the start of a run a value was just computed. -/
theorem fresh_after_update : ∃ u, srStateUpdate restartEnv (stateNew restartEnv 43200) 86400 = some u ∧
    u.state.isSrvFresh = true ∧ u.state.commits = [] := ⟨_, rfl, rfl, rfl⟩

theorem majority_twoVotes (srvIsFresh : Bool) : getMajoritySrvFromVotes stableSort (twoOfThree srvIsFresh) twoVotes true =
    if srvIsFresh then none else some votedValue := by
  cases srvIsFresh <;> decide

end Badnet.SharedRandom

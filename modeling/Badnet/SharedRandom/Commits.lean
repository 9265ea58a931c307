/-
  Badnet.SharedRandom.Commits — commits and reveals of the shared random protocol (`feature/dirauth/shared_random.c`).

  Each authority publishes a commitment, the hash of a random value, in its votes of the commit phase, and the value in
  its votes of the reveal phase. SHA3-256 is a parameter. Whatever the votes carry and in whatever order they come, the
  commitment in the state is one its authority voted for in the commit phase, a reveal is one that matches it, and both
  stay (`commit_reveal_integrity`).
-/

import Badnet.Dirparse.Sri
import Badnet.Encoding.Base16
import Badnet.Lib.Bytes
import Badnet.Lib.Run

namespace Badnet.SharedRandom

open Lib Encoding Dirparse

/-! ## Commits -/

inductive DigestAlgorithm where
  | SHA1
  | SHA256
  | SHA512
  | SHA3_256
  | SHA3_512
  deriving DecidableEq, Repr

def cryptoDigestAlgorithmGetName : DigestAlgorithm → Text
  | .SHA1 => ['s', 'h', 'a', '1']
  | .SHA256 => ['s', 'h', 'a', '2', '5', '6']
  | .SHA512 => ['s', 'h', 'a', '5', '1', '2']
  | .SHA3_256 => ['s', 'h', 'a', '3', '-', '2', '5', '6']
  | .SHA3_512 => ['s', 'h', 'a', '3', '-', '5', '1', '2']

def cryptoDigestAlgorithmParseName (name : Text) : Option DigestAlgorithm :=
  [.SHA1, .SHA256, .SHA512, .SHA3_256, .SHA3_512].find? fun alg => name = cryptoDigestAlgorithmGetName alg

def SR_PROTO_VERSION : Nat := 1
def SR_DIGEST_ALG : DigestAlgorithm := .SHA3_256
def SR_COMMIT_LEN : Nat := 40
def SR_REVEAL_LEN : Nat := 40
def SR_COMMIT_BASE64_LEN : Nat := 56
def SR_REVEAL_BASE64_LEN : Nat := 56
def UINT32_MAX : Nat := 4294967295

abbrev Identity := BytesN 20
abbrev Digest256 := BytesN 32

inductive SrPhase where
  | COMMIT
  | REVEAL
  deriving DecidableEq, Repr

/-- `sr_commit_t`; the encoded values are C strings in buffers that were zeroed. -/
structure SrCommit where
  alg : DigestAlgorithm
  valid : Bool
  rsaIdentity : Identity
  rsaIdentityHex : Text
  revealTs : UInt64
  hashedReveal : Digest256
  encodedCommit : Text
  randomNumber : Digest256
  commitTs : UInt64
  encodedReveal : Text
  deriving DecidableEq

def zeroBytes (n : Nat) : BytesN n := ⟨List.replicate n 0, List.length_replicate⟩

def commitNew (rsaIdentity : Identity) : SrCommit where
  alg := SR_DIGEST_ALG
  valid := false
  rsaIdentity := rsaIdentity
  rsaIdentityHex := base16Encode rsaIdentity.1
  revealTs := 0
  hashedReveal := zeroBytes 32
  encodedCommit := []
  randomNumber := zeroBytes 32
  commitTs := 0
  encodedReveal := []

/-- A buffer that was zeroed holds a byte other than zero if and only if its string is not empty. -/
def SrCommit.hasRevealValue (commit : SrCommit) : Bool := commit.encodedReveal ≠ []

def textBytes (text : Text) : Bytes := text.map fun c => UInt8.ofNat c.toNat

/-- The `SR_REVEAL_BASE64_LEN` bytes of the buffer that are hashed. -/
def SrCommit.revealBlob (commit : SrCommit) : Bytes :=
  (zeroPad SR_REVEAL_BASE64_LEN (textBytes commit.encodedReveal)).toList

section

variable (sha3 : Bytes → Digest256)

def verifyCommitAndReveal (commit : SrCommit) : Bool :=
  commit.commitTs = commit.revealTs ∧ commit.alg = SR_DIGEST_ALG ∧ sha3 commit.revealBlob = commit.hashedReveal

/-! ## Encoding and decoding -/

/-- The timestamp and the 32 bytes of an encoded commit or reveal. -/
def decodeStamped (maxLen : Nat) (encoded : Text) : Option (UInt64 × Digest256) :=
  if encoded.length > maxLen then none
  else
    match base64Decode 40 encoded with
    | none => none
    | some bytes =>
      if h : bytes.length = 40 then
        some (UInt64.ofNat (ofBE (bytes.take 8)), ⟨bytes.drop 8, by rw [List.length_drop, h]⟩)
      else none

def commitDecode (encoded : Text) (commit : SrCommit) : Option SrCommit :=
  (decodeStamped SR_COMMIT_BASE64_LEN encoded).map fun (ts, hashedReveal) =>
    { commit with commitTs := ts, hashedReveal := hashedReveal, encodedCommit := encoded }

def revealDecode (encoded : Text) (commit : SrCommit) : Option SrCommit :=
  (decodeStamped SR_REVEAL_BASE64_LEN encoded).map fun (ts, randomNumber) =>
    { commit with revealTs := ts, randomNumber := randomNumber, encodedReveal := encoded }

def encodeStamped (len : Nat) (ts : UInt64) (value : Digest256) : Option Text :=
  base64Encode len (toBE 8 ts.toNat ++ value.1) false

def revealEncode (commit : SrCommit) (len : Nat) : Option Text := encodeStamped len commit.revealTs commit.randomNumber

def commitEncode (commit : SrCommit) (len : Nat) : Option Text := encodeStamped len commit.commitTs commit.hashedReveal

/-- `sr_generate_our_commit` with the digest of our identity key and the bytes of `crypto_strongest_rand`. -/
def srGenerateOurCommit (timestamp : UInt64) (digest : Identity) (random : Digest256) : Option SrCommit := do
  let commit := { commitNew digest with randomNumber := random, commitTs := timestamp, revealTs := timestamp }
  let encodedReveal ← revealEncode commit (SR_REVEAL_BASE64_LEN + 1)
  let commit := { commit with encodedReveal := encodedReveal }
  let commit := { commit with hashedReveal := sha3 commit.revealBlob }
  let encodedCommit ← commitEncode commit (SR_COMMIT_BASE64_LEN + 1)
  some { commit with encodedCommit := encodedCommit, valid := true }

/-- `tor_parse_ulong` in base 10 with `next` NULL; 0 when the text is not such a number. -/
def torParseUlong (s : Text) (min max : Nat) : Nat :=
  match torParseUlongNext s min max with
  | some (r, []) => r
  | _ => 0

def HEX_DIGEST_LEN : Nat := 40

/-- `base16_decode` of the first `HEX_DIGEST_LEN` characters; a shorter string ends with a NUL, which is no digit. -/
def fingerprintDecode (fpr : Text) : Option Identity :=
  if fpr.length < HEX_DIGEST_LEN then none
  else
    match base16Decode 20 (fpr.take HEX_DIGEST_LEN) with
    | some bytes => if h : bytes.length = 20 then some ⟨bytes, h⟩ else none
    | none => none

def srParseCommit (args : List Text) : Option SrCommit :=
  match args with
  | version :: algname :: rsaIdentityFpr :: value :: rest =>
    if torParseUlong version 1 UINT32_MAX > SR_PROTO_VERSION then none
    else if cryptoDigestAlgorithmParseName algname ≠ some SR_DIGEST_ALG then none
    else do
      let digest ← fingerprintDecode rsaIdentityFpr
      let commit ← commitDecode value (commitNew digest)
      match rest with
      | [] => some commit
      | value :: _ => revealDecode value commit
  | _ => none

/-! ## Vote lines -/

def commitNsStr : Text := "shared-rand-commit".toList

def getVoteLineFromCommit (commit : SrCommit) : SrPhase → Text
  | .COMMIT =>
    commitNsStr ++ ' ' :: decimal SR_PROTO_VERSION ++ ' ' :: cryptoDigestAlgorithmGetName commit.alg ++
      ' ' :: commit.rsaIdentityHex ++ ' ' :: commit.encodedCommit ++ ['\n']
  | .REVEAL =>
    commitNsStr ++ ' ' :: decimal SR_PROTO_VERSION ++ ' ' :: cryptoDigestAlgorithmGetName commit.alg ++
      ' ' :: commit.rsaIdentityHex ++ ' ' :: commit.encodedCommit ++ ' ' :: commit.encodedReveal ++ ['\n']

/-- The arguments `get_next_token` finds on a line behind its keyword. -/
def argumentsOfLine (line : Text) : Option (List Text) :=
  getTokenArguments (eatWhitespaceEosNoNl ((line.takeWhile (· ≠ '\n')).dropWhile isWordChar))

/-! ## The state -/

/-- What `sr_state_t` has of the protocol run; the map of the commits as a list, in any order. -/
structure SrState where
  phase : SrPhase
  commits : List SrCommit
  deriving DecidableEq

def SrState.getCommit (s : SrState) (rsaIdentity : Identity) : Option SrCommit :=
  s.commits.find? (·.rsaIdentity = rsaIdentity)

/-- `commit_add_to_state`: `digestmap_set` frees what it replaces. -/
def SrState.addCommit (s : SrState) (commit : SrCommit) : SrState :=
  { s with commits := commit :: s.commits.filter (·.rsaIdentity ≠ commit.rsaIdentity) }

def copyRevealInfo (savedCommit commit : SrCommit) : SrCommit :=
  { savedCommit with
    revealTs := commit.revealTs, randomNumber := commit.randomNumber, encodedReveal := commit.encodedReveal }

def commitmentsAreTheSame (one two : SrCommit) : Bool := one.encodedCommit = two.encodedCommit

def commitIsAuthoritative (commit : SrCommit) (voterKey : Identity) : Bool := commit.rsaIdentity = voterKey

section

variable (trusteddirserver : Identity → Bool)

/-- `trusteddirserver` are the authorities that are configured. -/
def shouldKeepCommit (s : SrState) (commit : SrCommit) (voterKey : Identity) (phase : SrPhase) : Bool :=
  if ¬ commitIsAuthoritative commit voterKey then false
  else if ¬ trusteddirserver commit.rsaIdentity then false
  else
    match phase, s.getCommit commit.rsaIdentity with
    | .COMMIT, some _ => false
    | .COMMIT, none => !commit.hasRevealValue
    | .REVEAL, none => false
    | .REVEAL, some savedCommit =>
      commitmentsAreTheSame commit savedCommit && !savedCommit.hasRevealValue && commit.hasRevealValue &&
        verifyCommitAndReveal sha3 commit

/-- None is a failed assertion. -/
def saveCommitDuringRevealPhase (s : SrState) (commit : SrCommit) : Option SrState :=
  match s.getCommit commit.rsaIdentity with
  | none => none
  | some savedCommit =>
    if commitmentsAreTheSame commit savedCommit then
      some { s with commits := s.commits.map fun c =>
        if c.rsaIdentity = commit.rsaIdentity then copyRevealInfo c commit else c }
    else none

def saveCommitToState (s : SrState) (commit : SrCommit) : Option SrState :=
  if ¬ commit.valid then none
  else
    match s.phase with
    | .COMMIT => some (s.addCommit commit)
    | .REVEAL => saveCommitDuringRevealPhase s commit

def handleCommit (voter : Identity) (s : SrState) (commit : SrCommit) : Option SrState :=
  if shouldKeepCommit sha3 trusteddirserver s commit voter s.phase then saveCommitToState s { commit with valid := true }
  else some s

/-- Deleting the first member puts the last one in its place: the others are taken from the end. -/
def deletionOrder : List SrCommit → List SrCommit
  | [] => []
  | commit :: commits => commit :: commits.reverse

def srHandleReceivedCommits (s : SrState) (commits : List SrCommit) (voter : Identity) : Option SrState :=
  (deletionOrder commits).foldlM (handleCommit sha3 trusteddirserver voter) s

end

/-! ## Runs -/

/-- A commit that `sr_parse_commit` read from some line. -/
abbrev ParsedCommit := { commit : SrCommit // ∃ args, srParseCommit args = some commit }

inductive Event where
  /-- The commits of a vote by `voter`, with the authorities that are configured then. -/
  | received (trusteddirserver : Identity → Bool) (voter : Identity) (commits : List ParsedCommit)
  /-- `sr_state_update` at the end of the commit phase. -/
  | enterReveal

def step (s : SrState) : Event → Option SrState
  | .received trusteddirserver voter commits =>
    srHandleReceivedCommits sha3 trusteddirserver s (commits.map (·.1)) voter
  | .enterReveal => some { s with phase := .REVEAL }

/-- A commit of our own for the new protocol run. -/
abbrev OurCommit :=
  { commit : SrCommit // ∃ timestamp digest random, srGenerateOurCommit sha3 timestamp digest random = some commit }

end

/-- The start of a protocol run: our commit, if we have one, and no others. -/
def SrState.start {sha3 : Bytes → Digest256} (ours : Option (OurCommit sha3)) : SrState :=
  { phase := .COMMIT, commits := (ours.map (·.1)).toList }

/-! ## One commit -/

variable {sha3 : Bytes → Digest256} {known : Identity → Bool} {s t : SrState} {c saved commit : SrCommit}
  {id voter : Identity}

/-- The fields are what is encoded, and the fingerprint is that of the identity. -/
structure Decoded (c : SrCommit) : Prop where
  fields : decodeStamped SR_COMMIT_BASE64_LEN c.encodedCommit = some (c.commitTs, c.hashedReveal)
  hex : c.rsaIdentityHex = base16Encode c.rsaIdentity.1

/-- A reveal that matches the commitment. -/
def Matching (sha3 : Bytes → Digest256) (c : SrCommit) : Prop :=
  c.revealTs = c.commitTs ∧ sha3 c.revealBlob = c.hashedReveal

theorem commitDecode_decoded {value : Text} (h : commitDecode value (commitNew id) = some c) : Decoded c := by
  obtain ⟨⟨ts, hashed⟩, hdecode, rfl⟩ := Option.map_eq_some_iff.mp h
  exact ⟨hdecode, rfl⟩

theorem revealDecode_decoded {value : Text} {c' : SrCommit} (hc : Decoded c) (h : revealDecode value c = some c') :
    Decoded c' := by
  obtain ⟨⟨ts, number⟩, -, rfl⟩ := Option.map_eq_some_iff.mp h
  exact ⟨hc.fields, hc.hex⟩

theorem srParseCommit_decoded {args : List Text} (h : srParseCommit args = some c) : Decoded c := by
  unfold srParseCommit at h
  split at h
  case h_2 => cases h
  case h_1 version algname fpr value rest =>
    split at h
    · cases h
    split at h
    · cases h
    obtain ⟨digest, -, h⟩ := Option.bind_eq_some_iff.mp h
    obtain ⟨c1, hcommit, h⟩ := Option.bind_eq_some_iff.mp h
    have hdec := commitDecode_decoded hcommit
    cases rest with
    | nil =>
      cases h
      exact hdec
    | cons value rest =>
      exact revealDecode_decoded hdec h

/-- Equal texts are equal commitments. -/
theorem same_commitment (hc : Decoded c) (hs : Decoded saved) (h : c.encodedCommit = saved.encodedCommit) :
    c.commitTs = saved.commitTs ∧ c.hashedReveal = saved.hashedReveal := by
  have hfields := hc.fields
  rw [h, hs.fields] at hfields
  exact (Prod.mk.inj (Option.some.inj hfields)).imp Eq.symm Eq.symm

/-! ## What a commit of a vote does -/

/-- The state changes at one authority only. -/
structure Stores (s t : SrState) (id : Identity) (c : SrCommit) : Prop where
  phase : t.phase = s.phase
  get : ∀ i, t.getCommit i = if i = id then some c else s.getCommit i
  nodup : (s.commits.map SrCommit.rsaIdentity).Nodup → (t.commits.map SrCommit.rsaIdentity).Nodup

theorem getCommit_identity (h : s.getCommit id = some c) : c.rsaIdentity = id := by
  simpa using List.find?_some h

theorem addCommit_stores (s : SrState) (c : SrCommit) : Stores s (s.addCommit c) c.rsaIdentity c := by
  refine ⟨rfl, fun i => ?_, fun hnodup => ?_⟩
  swap
  · refine List.nodup_cons.mpr ⟨fun hmem => ?_, hnodup.sublist (List.filter_sublist.map _)⟩
    obtain ⟨a, ha, heq⟩ := List.mem_map.mp hmem
    simp [heq] at ha
  simp only [SrState.getCommit, SrState.addCommit]
  by_cases hi : i = c.rsaIdentity
  · rw [if_pos hi, List.find?_cons_of_pos (by simp [hi])]
  · rw [if_neg hi, List.find?_cons_of_neg (by simpa using fun h => hi h.symm), List.find?_filter]
    congr 1
    funext a
    by_cases ha : a.rsaIdentity = i
    · simp [ha, hi]
    · simp [ha]

theorem copied_stores (h : s.getCommit commit.rsaIdentity = some saved) :
    Stores s { s with commits := s.commits.map fun c =>
      if c.rsaIdentity = commit.rsaIdentity then copyRevealInfo c commit else c }
      commit.rsaIdentity (copyRevealInfo saved commit) := by
  have hkey : ∀ c : SrCommit,
      (if c.rsaIdentity = commit.rsaIdentity then copyRevealInfo c commit else c).rsaIdentity = c.rsaIdentity := by
    intro c
    split <;> rfl
  refine ⟨rfl, fun i => ?_, fun hnodup => ?_⟩
  swap
  · rw [List.map_map]
    simpa only [Function.comp_def, hkey] using hnodup
  simp only [SrState.getCommit] at h ⊢
  rw [List.find?_map]
  simp only [Function.comp_def, hkey]
  by_cases hi : i = commit.rsaIdentity
  · rw [if_pos hi, hi, h, Option.map_some, if_pos (getCommit_identity h)]
  · rw [if_neg hi]
    cases hfind : s.commits.find? fun c => decide (c.rsaIdentity = i) with
    | none => rfl
    | some c =>
      have hc : c.rsaIdentity = i := getCommit_identity hfind
      rw [Option.map_some, if_neg (by rw [hc]; exact hi)]

/-- A commit is ignored, or it is the first of its authority in the commit phase, or it brings the reveal that was
    missing in the reveal phase. No assertion fails. -/
theorem handleCommit_cases (sha3 : Bytes → Digest256) (known : Identity → Bool) (voter : Identity) (s : SrState)
    (commit : SrCommit) : ∃ t, handleCommit sha3 known voter s commit = some t ∧
      ((shouldKeepCommit sha3 known s commit voter s.phase = false ∧ t = s) ∨
      (s.phase = .COMMIT ∧ commit.rsaIdentity = voter ∧ s.getCommit voter = none ∧ commit.hasRevealValue = false ∧
        Stores s t voter { commit with valid := true }) ∨
      (s.phase = .REVEAL ∧ commit.rsaIdentity = voter ∧ ∃ saved, s.getCommit voter = some saved ∧
        commit.encodedCommit = saved.encodedCommit ∧ saved.hasRevealValue = false ∧
        verifyCommitAndReveal sha3 commit = true ∧ Stores s t voter (copyRevealInfo saved commit))) := by
  unfold handleCommit
  by_cases hkeep : shouldKeepCommit sha3 known s commit voter s.phase = true
  swap
  · exact ⟨s, if_neg hkeep, .inl ⟨Bool.eq_false_iff.mpr hkeep, rfl⟩⟩
  rw [if_pos hkeep]
  simp only [saveCommitToState, not_true_eq_false, if_false]
  unfold shouldKeepCommit at hkeep
  split at hkeep
  · cases hkeep
  rename_i hauth
  split at hkeep
  · cases hkeep
  obtain rfl : commit.rsaIdentity = voter := by simpa [commitIsAuthoritative] using hauth
  split at hkeep
  · cases hkeep
  · rename_i hphase hget
    rw [hphase]
    exact ⟨_, rfl, .inr (.inl ⟨rfl, rfl, hget, by simpa using hkeep, addCommit_stores s { commit with valid := true }⟩)⟩
  · cases hkeep
  · rename_i saved hphase hget
    simp only [Bool.and_eq_true, commitmentsAreTheSame, decide_eq_true_eq, Bool.not_eq_true'] at hkeep
    obtain ⟨⟨⟨hsame, hnone⟩, -⟩, hverify⟩ := hkeep
    have hcopy := @copied_stores s saved { commit with valid := true } hget
    rw [hphase]
    refine ⟨_, ?_, .inr (.inr ⟨rfl, rfl, saved, hget, hsame, hnone, hverify, hcopy⟩)⟩
    simp only [saveCommitDuringRevealPhase, hget, commitmentsAreTheSame, hsame, decide_true, if_true]

/-! ## What votes do -/

/-- A commit in the state: its reveal, if there is one, matches its commitment. -/
structure Sound (sha3 : Bytes → Digest256) (c : SrCommit) : Prop where
  valid : c.valid = true
  decoded : Decoded c
  matching : c.hasRevealValue = true → Matching sha3 c

/-- A later commit of the same authority: the commitment is the same, and so is the reveal once there is one. -/
structure Keeps (c c' : SrCommit) : Prop where
  text : c'.encodedCommit = c.encodedCommit
  commitTs : c'.commitTs = c.commitTs
  hashedReveal : c'.hashedReveal = c.hashedReveal
  reveal : c.hasRevealValue = true → c' = c

theorem Keeps.refl (c : SrCommit) : Keeps c c := ⟨rfl, rfl, rfl, fun _ => rfl⟩

theorem Keeps.trans {c c' c'' : SrCommit} (h : Keeps c c') (h' : Keeps c' c'') : Keeps c c'' := by
  refine ⟨h'.text.trans h.text, h'.commitTs.trans h.commitTs, h'.hashedReveal.trans h.hashedReveal, fun hr => ?_⟩
  have hsame := h.reveal hr
  rw [h'.reveal (by rw [hsame]; exact hr), hsame]

/-- What commits of a vote by `voter` may do to the state. -/
structure Progress (sha3 : Bytes → Digest256) (voter : Identity) (commits : List SrCommit) (s t : SrState) : Prop where
  phase : t.phase = s.phase
  nodup : (s.commits.map SrCommit.rsaIdentity).Nodup → (t.commits.map SrCommit.rsaIdentity).Nodup
  sound : (∀ id c, s.getCommit id = some c → Sound sha3 c) → ∀ id c, t.getCommit id = some c → Sound sha3 c
  keeps : ∀ id c, s.getCommit id = some c → ∃ c', t.getCommit id = some c' ∧ Keeps c c'
  /-- A new commit is one of the vote, and it is the voter's own. -/
  origin : ∀ id c, t.getCommit id = some c → s.getCommit id = none →
    s.phase = .COMMIT ∧ id = voter ∧ ∃ p ∈ commits, p.rsaIdentity = voter ∧ p.encodedCommit = c.encodedCommit

theorem Progress.refl (sha3 : Bytes → Digest256) (voter : Identity) (commits : List SrCommit) (s : SrState) :
    Progress sha3 voter commits s s := by
  refine ⟨rfl, fun h => h, fun h => h, fun id c h => ⟨c, h, Keeps.refl c⟩, fun id c h hnone => ?_⟩
  rw [hnone] at h
  cases h

theorem Progress.trans {xs ys : List SrCommit} {u : SrState} (h : Progress sha3 voter xs s t)
    (h' : Progress sha3 voter ys t u) : Progress sha3 voter (xs ++ ys) s u := by
  refine ⟨h'.phase.trans h.phase, fun hs => h'.nodup (h.nodup hs), fun hs => h'.sound (h.sound hs), fun id c hc => ?_,
    fun id c hc hnone => ?_⟩
  · obtain ⟨c', hc', hkeep⟩ := h.keeps id c hc
    obtain ⟨c'', hc'', hkeep'⟩ := h'.keeps id c' hc'
    exact ⟨c'', hc'', hkeep.trans hkeep'⟩
  · cases ht : t.getCommit id with
    | none =>
      obtain ⟨hphase, hid, p, hp, hcarried⟩ := h'.origin id c hc ht
      exact ⟨h.phase ▸ hphase, hid, p, List.mem_append_right _ hp, hcarried⟩
    | some c' =>
      obtain ⟨hphase, hid, p, hp, howner, htext⟩ := h.origin id c' ht hnone
      obtain ⟨c'', hc'', hkeep⟩ := h'.keeps id c' ht
      obtain rfl : c'' = c := Option.some.inj (hc''.symm.trans hc)
      exact ⟨hphase, hid, p, List.mem_append_left _ hp, howner, htext.trans hkeep.text.symm⟩

theorem copied_sound (hsaved : Sound sha3 saved) (hcommit : Decoded commit)
    (hsame : commit.encodedCommit = saved.encodedCommit) (hverify : verifyCommitAndReveal sha3 commit = true) :
    Sound sha3 (copyRevealInfo saved commit) := by
  obtain ⟨hts, hhash⟩ := same_commitment hcommit hsaved.decoded hsame
  simp only [verifyCommitAndReveal, decide_eq_true_eq] at hverify
  obtain ⟨hstamp, -, hdigest⟩ := hverify
  refine ⟨hsaved.valid, ⟨hsaved.decoded.fields, hsaved.decoded.hex⟩, fun _ => ⟨?_, ?_⟩⟩
  · show commit.revealTs = saved.commitTs
    rw [← hstamp, hts]
  · show sha3 commit.revealBlob = saved.hashedReveal
    rw [hdigest, hhash]

section

variable (sha3 : Bytes → Digest256)

/-- One commit of a vote. -/
theorem handleCommit_progress (known : Identity → Bool) (voter : Identity) (s : SrState) (hcommit : Decoded commit) :
    ∃ t, handleCommit sha3 known voter s commit = some t ∧
      Progress sha3 voter [commit] s t := by
  obtain ⟨t, hrun, ⟨-, rfl⟩ | ⟨hphase, howner, hnone, hreveal, hp, hstores, hnodup⟩ |
    ⟨-, -, saved, hget, hsame, hreveal, hverify, hp, hstores, hnodup⟩⟩ := handleCommit_cases sha3 known voter s commit
  · exact ⟨t, hrun, Progress.refl ..⟩
  · refine ⟨t, hrun, hp, hnodup, fun hs id c hc => ?_, fun id c hc => ?_, fun id c hc hold => ?_⟩
    all_goals by_cases hid : id = voter
    · rw [hstores, if_pos hid] at hc
      cases hc
      exact ⟨rfl, ⟨hcommit.fields, hcommit.hex⟩, fun h => absurd (h.symm.trans hreveal) (by decide)⟩
    · rw [hstores, if_neg hid] at hc
      exact hs id c hc
    · rw [hid, hnone] at hc
      cases hc
    · exact ⟨c, by rw [hstores, if_neg hid, hc], Keeps.refl c⟩
    · rw [hstores, if_pos hid] at hc
      cases hc
      exact ⟨hphase, hid, commit, List.mem_singleton_self _, howner, rfl⟩
    · rw [hstores, if_neg hid, hold] at hc
      cases hc
  · refine ⟨t, hrun, hp, hnodup, fun hs id c hc => ?_, fun id c hc => ?_, fun id c hc hold => ?_⟩
    all_goals by_cases hid : id = voter
    · rw [hstores, if_pos hid] at hc
      cases hc
      exact copied_sound (hs voter saved hget) hcommit hsame hverify
    · rw [hstores, if_neg hid] at hc
      exact hs id c hc
    · rw [hid, hget] at hc
      cases hc
      refine ⟨copyRevealInfo saved commit, by rw [hstores, if_pos hid], rfl, rfl, rfl, fun h => ?_⟩
      rw [hreveal] at h
      cases h
    · exact ⟨c, by rw [hstores, if_neg hid, hc], Keeps.refl c⟩
    · rw [hid, hget] at hold
      cases hold
    · rw [hstores, if_neg hid, hold] at hc
      cases hc

theorem foldlM_progress (known : Identity → Bool) (voter : Identity) (commits : List SrCommit) :
    ∀ s : SrState, (∀ p ∈ commits, Decoded p) → ∃ t, commits.foldlM (handleCommit sha3 known voter) s = some t ∧
      Progress sha3 voter commits s t := by
  induction commits with
  | nil =>
    intro s _
    exact ⟨s, rfl, Progress.refl ..⟩
  | cons p commits ih =>
    intro s hdecoded
    obtain ⟨t, hone, hprogress⟩ := handleCommit_progress sha3 known voter s (hdecoded p List.mem_cons_self)
    obtain ⟨u, hrest, hprogress'⟩ := ih t fun q hq => hdecoded q (List.mem_cons_of_mem _ hq)
    refine ⟨u, ?_, hprogress.trans hprogress'⟩
    rw [List.foldlM_cons, hone]
    exact hrest

theorem mem_deletionOrder {commits : List SrCommit} {p : SrCommit} : p ∈ deletionOrder commits ↔ p ∈ commits := by
  cases commits with
  | nil => rfl
  | cons c commits => simp [deletionOrder]

theorem srHandleReceivedCommits_progress (known : Identity → Bool) (s : SrState) {commits : List SrCommit}
    (hdecoded : ∀ p ∈ commits, Decoded p) (voter : Identity) :
    ∃ t, srHandleReceivedCommits sha3 known s commits voter = some t ∧ Progress sha3 voter commits s t := by
  obtain ⟨t, hrun, hprogress⟩ := foldlM_progress sha3 known voter (deletionOrder commits) s
    fun p hp => hdecoded p (mem_deletionOrder.mp hp)
  refine ⟨t, hrun, hprogress.phase, hprogress.nodup, hprogress.sound, hprogress.keeps, fun id c hc hnone => ?_⟩
  obtain ⟨hphase, hid, p, hp, hcarried⟩ := hprogress.origin id c hc hnone
  exact ⟨hphase, hid, p, mem_deletionOrder.mp hp, hcarried⟩

/-! ## An honest authority -/

theorem encodeStamped_eq (ts : UInt64) (value : Digest256) :
    ∃ text, encodeStamped 57 ts value = some text ∧ text.length = 56 ∧
      (∀ c ∈ text, c ∈ '=' :: base64EncodeTable) ∧ decodeStamped 56 text = some (ts, value) := by
  have hbytes : (toBE 8 ts.toNat ++ value.1).length = 40 := by rw [List.length_append, length_toBE, value.2]
  have hsize : base64EncodeSize (toBE 8 ts.toNat ++ value.1).length false = 56 := by rw [hbytes]; rfl
  have hlen : (encoded false (toBE 8 ts.toNat ++ value.1)).length = 56 := by rw [length_encoded, hsize]
  refine ⟨encoded false (toBE 8 ts.toNat ++ value.1), ?_, hlen, ?_, ?_⟩
  · rw [encodeStamped, base64Encode, if_neg (by rw [hsize]; decide)]
  · intro c hc
    rw [encoded_single] at hc
    exact mem_padded hc
  · have hts : UInt64.ofNat (ofBE (toBE 8 ts.toNat)) = ts := by
      rw [ofBE_toBE (by exact ts.toNat_lt), UInt64.ofNat_toNat]
    rw [decodeStamped, if_neg (by rw [hlen]; decide), base64Decode_encode (by decide) (by rw [hbytes])]
    simp only [hbytes, dif_pos, List.take_left' (length_toBE 8 ts.toNat), List.drop_left' (length_toBE 8 ts.toNat), hts]

/-- What `sr_generate_our_commit` makes. -/
structure Generated (sha3 : Bytes → Digest256) (c : SrCommit) : Prop where
  alg : c.alg = SR_DIGEST_ALG
  valid : c.valid = true
  matching : Matching sha3 c
  commitWord : Word c.encodedCommit
  revealWord : Word c.encodedReveal
  decoded : Decoded c
  revealDecoded : decodeStamped SR_REVEAL_BASE64_LEN c.encodedReveal = some (c.revealTs, c.randomNumber)

theorem word_of_base64 {text : Text} (hlen : text.length = 56) (hchars : ∀ c ∈ text, c ∈ '=' :: base64EncodeTable) :
    Word text where
  ne_nil := List.ne_nil_of_length_pos (by omega)
  chars := fun c hc => isWordChar_base64 c (hchars c hc)

theorem srGenerateOurCommit_spec (timestamp : UInt64) (digest : Identity) (random : Digest256) :
    ∃ c, srGenerateOurCommit sha3 timestamp digest random = some c ∧ c.rsaIdentity = digest ∧ Generated sha3 c := by
  obtain ⟨reveal, hreveal, hlen, hchars, hdecode⟩ := encodeStamped_eq timestamp random
  let blob : Bytes := (zeroPad SR_REVEAL_BASE64_LEN (textBytes reveal)).toList
  obtain ⟨commit, hcommit, hlen', hchars', hdecode'⟩ := encodeStamped_eq timestamp (sha3 blob)
  refine ⟨{ commitNew digest with
    randomNumber := random, commitTs := timestamp, revealTs := timestamp, encodedReveal := reveal,
    hashedReveal := sha3 blob, encodedCommit := commit, valid := true }, ?_, rfl, ?_⟩
  · unfold srGenerateOurCommit
    simp only [revealEncode, SR_REVEAL_BASE64_LEN, commitNew, hreveal, Option.bind_eq_bind, Option.bind_some]
    rw [commitEncode]
    exact congrArg (Option.bind · _) hcommit
  · exact ⟨rfl, rfl, ⟨rfl, rfl⟩, word_of_base64 hlen' hchars', word_of_base64 hlen hchars, ⟨hdecode', rfl⟩, hdecode⟩

end

theorem Generated.sound (h : Generated sha3 c) : Sound sha3 c := ⟨h.valid, h.decoded, fun _ => h.matching⟩

theorem word_hex (id : Identity) : Word (base16Encode id.1) where
  ne_nil := List.ne_nil_of_length_pos (by rw [length_base16Encode, id.2]; decide)
  chars := fun c hc => List.all_eq_true.mp (show hexDigits.all isWordChar = true by decide) c (mem_base16Encode hc)

/-- What stands before the commitment on a line. -/
def lineHead (c : SrCommit) : List Text :=
  [decimal SR_PROTO_VERSION, cryptoDigestAlgorithmGetName c.alg, c.rsaIdentityHex]

theorem argumentsOfLine_words {ws : List Text} (hws : ∀ w ∈ ws, Word w) (hargs : ws.length ≤ MAX_ARGS) :
    argumentsOfLine (commitNsStr ++ blanked ws ++ ['\n']) = some ws := by
  have hkey : ∀ c ∈ commitNsStr, isWordChar c = true := List.all_eq_true.mp (by decide)
  have hline : ∀ c ∈ commitNsStr ++ blanked ws, decide (c ≠ '\n') = true := by
    intro c hc
    rw [decide_eq_true_eq]
    intro hnl
    subst hnl
    rcases List.mem_append.mp hc with hc | hc
    · exact newline_notMem_word hkey hc
    · exact newline_notMem_blanked hws hc
  rw [argumentsOfLine, takeWhile_run hline (by intro c hc; cases hc; decide), dropWhile_run hkey (head_blanked ws)]
  exact getTokenArguments_blanked hws hargs

theorem Generated.word_lineHead (h : Generated sha3 c) : ∀ w ∈ lineHead c, Word w := by
  intro w hw
  simp only [lineHead, List.mem_cons, List.not_mem_nil, or_false] at hw
  rcases hw with rfl | rfl | rfl
  · exact word_decimal _
  · rw [h.alg]
    exact ⟨by decide, List.all_eq_true.mp (by decide)⟩
  · rw [h.decoded.hex]
    exact word_hex _

theorem Generated.commit_line (h : Generated sha3 c) :
    argumentsOfLine (getVoteLineFromCommit c .COMMIT) = some (lineHead c ++ [c.encodedCommit]) := by
  rw [← @argumentsOfLine_words (lineHead c ++ [c.encodedCommit])]
  · simp [getVoteLineFromCommit, lineHead, blanked]
  · intro w hw
    rcases List.mem_append.mp hw with hw | hw
    · exact h.word_lineHead w hw
    · rw [List.mem_singleton.mp hw]
      exact h.commitWord
  · simp [lineHead, MAX_ARGS]

theorem Generated.reveal_line (h : Generated sha3 c) :
    argumentsOfLine (getVoteLineFromCommit c .REVEAL) = some (lineHead c ++ [c.encodedCommit, c.encodedReveal]) := by
  rw [← @argumentsOfLine_words (lineHead c ++ [c.encodedCommit, c.encodedReveal])]
  · simp [getVoteLineFromCommit, lineHead, blanked]
  · intro w hw
    simp only [List.mem_append, List.mem_cons, List.not_mem_nil, or_false] at hw
    rcases hw with hw | rfl | rfl
    · exact h.word_lineHead w hw
    · exact h.commitWord
    · exact h.revealWord
  · simp [lineHead, MAX_ARGS]

theorem fingerprintDecode_hex (id : Identity) : fingerprintDecode (base16Encode id.1) = some id := by
  have hlen : (base16Encode id.1).length = 40 := by rw [length_base16Encode, id.2]
  rw [fingerprintDecode, if_neg (by rw [hlen]; decide), List.take_of_length_le (by rw [hlen]; decide),
    base16Decode_encode (Nat.le_of_eq id.2) (by decide)]
  simp only [dif_pos id.2]

/-- The commit as it is read from its line in the commit phase. -/
def SrCommit.published (c : SrCommit) : SrCommit :=
  { commitNew c.rsaIdentity with
    commitTs := c.commitTs, hashedReveal := c.hashedReveal, encodedCommit := c.encodedCommit }

theorem Decoded.parse (h : Decoded c) (halg : c.alg = SR_DIGEST_ALG) (rest : List Text) :
    srParseCommit (lineHead c ++ c.encodedCommit :: rest) =
      match rest with
      | [] => some c.published
      | value :: _ => revealDecode value c.published := by
  have hversion : ¬ torParseUlong (decimal SR_PROTO_VERSION) 1 UINT32_MAX > SR_PROTO_VERSION := by decide
  have hname : ¬ cryptoDigestAlgorithmParseName (cryptoDigestAlgorithmGetName SR_DIGEST_ALG) ≠ some SR_DIGEST_ALG := by
    decide
  have hdecode : commitDecode c.encodedCommit (commitNew c.rsaIdentity) = some c.published := by
    rw [commitDecode, h.fields]
    rfl
  rw [lineHead, List.cons_append, List.cons_append, List.cons_append, List.nil_append, srParseCommit, if_neg hversion,
    halg, if_neg hname, h.hex, fingerprintDecode_hex]
  simp only [Option.bind_eq_bind, Option.bind_some, hdecode]

theorem Generated.parse (h : Generated sha3 c) (rest : List Text) :
    srParseCommit (lineHead c ++ c.encodedCommit :: rest) =
      match rest with
      | [] => some c.published
      | value :: _ => revealDecode value c.published := h.decoded.parse h.alg rest

/-- The lines of a commit are read back, and accepted from its authority: the one of the commit phase, which has no
    reveal, as long as the authority has none in the state, and the one of the reveal phase for the commitment that is
    there. -/
structure AcceptedInTurn (sha3 : Bytes → Digest256) (c : SrCommit) : Prop where
  commitLine : ∃ p, (argumentsOfLine (getVoteLineFromCommit c .COMMIT)).bind srParseCommit = some p ∧
    p.encodedCommit = c.encodedCommit ∧ p.hasRevealValue = false ∧
    ∀ (known : Identity → Bool) (s : SrState), known c.rsaIdentity = true → s.getCommit c.rsaIdentity = none →
      shouldKeepCommit sha3 known s p c.rsaIdentity .COMMIT = true
  revealLine : ∃ p, (argumentsOfLine (getVoteLineFromCommit c .REVEAL)).bind srParseCommit = some p ∧
    p.encodedCommit = c.encodedCommit ∧ p.encodedReveal = c.encodedReveal ∧
    ∀ (known : Identity → Bool) (s : SrState) (saved : SrCommit), known c.rsaIdentity = true →
      s.getCommit c.rsaIdentity = some saved → saved.encodedCommit = c.encodedCommit → saved.hasRevealValue = false →
      shouldKeepCommit sha3 known s p c.rsaIdentity .REVEAL = true
  /-- The line of the commit phase is the same whatever the reveal is. -/
  hidden : ∀ c' : SrCommit, c'.alg = c.alg → c'.rsaIdentityHex = c.rsaIdentityHex → c'.encodedCommit = c.encodedCommit →
    getVoteLineFromCommit c' .COMMIT = getVoteLineFromCommit c .COMMIT

theorem Generated.accepted (h : Generated sha3 c) : AcceptedInTurn sha3 c := by
  refine ⟨?_, ?_, ?_⟩
  · refine ⟨c.published, ?_, rfl, rfl, fun known s hknown hnone => ?_⟩
    · rw [h.commit_line]
      exact h.parse []
    · simp [shouldKeepCommit, commitIsAuthoritative, hknown, hnone, SrCommit.hasRevealValue, SrCommit.published,
        commitNew]
  · let p : SrCommit := { c.published with
      revealTs := c.revealTs, randomNumber := c.randomNumber, encodedReveal := c.encodedReveal }
    have hverify : verifyCommitAndReveal sha3 p = true := by
      simp only [verifyCommitAndReveal, decide_eq_true_eq]
      exact ⟨h.matching.1.symm, rfl, h.matching.2⟩
    refine ⟨p, ?_, rfl, rfl, fun known s saved hknown hget hsame hnone => ?_⟩
    · rw [h.reveal_line]
      show srParseCommit (lineHead c ++ c.encodedCommit :: [c.encodedReveal]) = some p
      rw [h.parse]
      show (decodeStamped SR_REVEAL_BASE64_LEN c.encodedReveal).map _ = some p
      rw [h.revealDecoded]
      rfl
    · have hid : p.rsaIdentity = c.rsaIdentity := rfl
      have hreveal : p.hasRevealValue = true := by
        simp only [SrCommit.hasRevealValue, ne_eq, decide_eq_true_eq]
        exact h.revealWord.ne_nil
      have hcode : commitmentsAreTheSame p saved = true := decide_eq_true hsame.symm
      simp [shouldKeepCommit, commitIsAuthoritative, hid, hknown, hget, hcode, hnone, hreveal, hverify]
  · intro c' halg hhex hcode
    rw [getVoteLineFromCommit, getVoteLineFromCommit, halg, hhex, hcode]

/-! ## Every run -/

variable {ours : Option (OurCommit sha3)}

theorem OurCommit.generated (o : OurCommit sha3) : Generated sha3 o.1 := by
  obtain ⟨c, timestamp, digest, random, hc⟩ := o
  obtain ⟨c', hc', -, hgen⟩ := srGenerateOurCommit_spec sha3 timestamp digest random
  obtain rfl : c' = c := Option.some.inj (hc'.symm.trans hc)
  exact hgen

theorem start_getCommit (h : (SrState.start ours).getCommit id = some c) : ∃ o, ours = some o ∧ o.1 = c := by
  cases ours with
  | none => cases h
  | some o =>
    refine ⟨o, rfl, ?_⟩
    have hmem : c ∈ [o.1] := List.mem_of_find?_eq_some h
    exact (List.mem_singleton.mp hmem).symm

/-- Among the events so far there is, before the reveal phase, a vote of the authority that carries the commitment. -/
def CarriedByVote (events : List Event) (id : Identity) (c : SrCommit) : Prop :=
  ∃ pre known commits post, events = pre ++ .received known id commits :: post ∧ Event.enterReveal ∉ pre ∧
    ∃ p ∈ commits, p.1.rsaIdentity = id ∧ p.1.encodedCommit = c.encodedCommit ∧ p.1.commitTs = c.commitTs ∧
      p.1.hashedReveal = c.hashedReveal

/-- A commit in the state is our own, or a vote of its authority brought it. -/
def HasOrigin (ours : Option (OurCommit sha3)) (events : List Event) (id : Identity) (c : SrCommit) : Prop :=
  (∃ o, ours = some o ∧ o.1 = c) ∨ CarriedByVote events id c

structure RunInv (ours : Option (OurCommit sha3)) (events : List Event) (s : SrState) : Prop where
  phase : s.phase = .COMMIT → Event.enterReveal ∉ events
  nodup : (s.commits.map SrCommit.rsaIdentity).Nodup
  sound : ∀ id c, s.getCommit id = some c → Sound sha3 c
  origin : ∀ id c, s.getCommit id = some c → HasOrigin ours events id c

theorem start_inv (ours : Option (OurCommit sha3)) : RunInv ours [] (SrState.start ours) := by
  refine ⟨nofun, ?_, fun id c h => ?_, fun id c h => .inl (start_getCommit h)⟩
  · cases ours <;> simp [SrState.start]
  · obtain ⟨o, -, rfl⟩ := start_getCommit h
    exact (OurCommit.generated o).sound

theorem HasOrigin.keeps {events : List Event} {c' : SrCommit} (h : HasOrigin ours events id c) (hkeep : Keeps c c')
    (event : Event) : HasOrigin ours (events ++ [event]) id c' := by
  rcases h with ⟨o, ho, rfl⟩ | ⟨pre, known, commits, post, rfl, hpre, p, hp, howner, htext, hts, hhash⟩
  · have hgen := OurCommit.generated o
    have hreveal : o.1.hasRevealValue = true := decide_eq_true hgen.revealWord.ne_nil
    exact .inl ⟨o, ho, (hkeep.reveal hreveal).symm⟩
  · refine .inr ⟨pre, known, commits, post ++ [event], by simp, hpre, p, hp, howner, ?_, ?_, ?_⟩
    · rw [htext, hkeep.text]
    · rw [hts, hkeep.commitTs]
    · rw [hhash, hkeep.hashedReveal]

/-- Every event goes through, keeps what is in the state, and what it adds is sound. -/
theorem step_inv {events : List Event} (h : RunInv ours events s) (event : Event) :
    ∃ t, step sha3 s event = some t ∧ RunInv ours (events ++ [event]) t ∧
      ∀ id c, s.getCommit id = some c → ∃ c', t.getCommit id = some c' ∧ Keeps c c' := by
  cases event with
  | enterReveal =>
    refine ⟨{ s with phase := .REVEAL }, rfl, ⟨nofun, h.nodup, h.sound, fun id c hc => ?_⟩,
      fun id c hc => ⟨c, hc, Keeps.refl c⟩⟩
    exact (h.origin id c hc).keeps (Keeps.refl c) _
  | received known voter commits =>
    have hdecoded : ∀ p ∈ commits.map (·.1), Decoded p := by
      intro p hp
      obtain ⟨⟨p, args, hargs⟩, -, rfl⟩ := List.mem_map.mp hp
      exact srParseCommit_decoded hargs
    obtain ⟨t, hrun, hprogress⟩ := srHandleReceivedCommits_progress sha3 known s hdecoded voter
    have hsound := hprogress.sound h.sound
    refine ⟨t, hrun, ⟨fun hphase hmem => ?_, hprogress.nodup h.nodup, hsound, fun id c hc => ?_⟩, hprogress.keeps⟩
    · rw [hprogress.phase] at hphase
      rcases List.mem_append.mp hmem with hmem | hmem
      · exact h.phase hphase hmem
      · cases List.mem_singleton.mp hmem
    · cases hold : s.getCommit id with
      | some c0 =>
        obtain ⟨c', hc', hkeep⟩ := hprogress.keeps id c0 hold
        obtain rfl : c' = c := Option.some.inj (hc'.symm.trans hc)
        exact (h.origin id c0 hold).keeps hkeep _
      | none =>
        obtain ⟨hphase, rfl, p, hp, howner, htext⟩ := hprogress.origin id c hc hold
        obtain ⟨q, hq, rfl⟩ := List.mem_map.mp hp
        obtain ⟨hts, hhash⟩ := same_commitment (hdecoded _ hp) (hsound id c hc).decoded htext
        exact .inr ⟨events, known, commits, [], rfl, h.phase hphase, q, hq, howner, htext, hts, hhash⟩

/-- What holds after a run: what is in the state has its origin in the votes, every reveal matches, and nothing that
    was in the state before has changed. -/
structure Integrity (ours : Option (OurCommit sha3)) (events : List Event) (s : SrState) : Prop where
  origin : ∀ id c, s.getCommit id = some c → HasOrigin ours events id c
  matching : ∀ id c, s.getCommit id = some c → c.hasRevealValue = true → Matching sha3 c
  unchanged : ∀ earlier, earlier <+: events → ∃ t, run (step sha3) (SrState.start ours) earlier = some t ∧
    ∀ id c, t.getCommit id = some c → ∃ c', s.getCommit id = some c' ∧ Keeps c c'

theorem run_integrity (ours : Option (OurCommit sha3)) (events : List Event) :
    ∃ s, run (step sha3) (SrState.start ours) events = some s ∧ RunInv ours events s ∧ Integrity ours events s := by
  induction events using List.reverseRecOn with
  | nil =>
    have hinv := start_inv ours
    refine ⟨SrState.start ours, rfl, hinv, hinv.origin, fun id c hc => (hinv.sound id c hc).matching, fun pre hpre => ?_⟩
    rw [List.prefix_nil.mp hpre]
    exact ⟨_, rfl, fun id c hc => ⟨c, hc, Keeps.refl c⟩⟩
  | append_singleton events event ih =>
    obtain ⟨s, hrun, hinv, hint⟩ := ih
    obtain ⟨t, hstep, hinv', hkeeps⟩ := step_inv hinv event
    have hrun' : run (step sha3) (SrState.start ours) (events ++ [event]) = some t :=
      (run_snoc_some _).mpr ⟨s, hrun, hstep⟩
    refine ⟨t, hrun', hinv', hinv'.origin, fun id c hc => (hinv'.sound id c hc).matching, fun pre hpre => ?_⟩
    rcases List.prefix_concat_iff.mp hpre with rfl | hpre
    · exact ⟨t, hrun', fun id c hc => ⟨c, hc, Keeps.refl c⟩⟩
    · obtain ⟨u, hu, hkept⟩ := hint.unchanged pre hpre
      refine ⟨u, hu, fun id c hc => ?_⟩
      obtain ⟨c', hc', hkeep⟩ := hkept id c hc
      obtain ⟨c'', hc'', hkeep'⟩ := hkeeps id c' hc'
      exact ⟨c'', hc'', hkeep.trans hkeep'⟩

/-- Whatever votes come in whatever order, every assertion holds, a stored commitment is our own or was carried by a
vote of its authority in the commit phase, a stored reveal matches it, and neither changes. -/
theorem commit_reveal_integrity (sha3 : Bytes → Digest256) :
    (∀ (ours : Option (OurCommit sha3)) (events : List Event), ∃ s,
      run (step sha3) (SrState.start ours) events = some s ∧ Integrity ours events s) ∧
    (∀ (timestamp : UInt64) (digest : Identity) (random : Digest256), ∃ c,
      srGenerateOurCommit sha3 timestamp digest random = some c ∧ c.rsaIdentity = digest ∧ AcceptedInTurn sha3 c) := by
  constructor
  · intro ours events
    obtain ⟨s, hrun, -, hint⟩ := run_integrity ours events
    exact ⟨s, hrun, hint⟩
  · intro timestamp digest random
    obtain ⟨c, hc, hdigest, hgen⟩ := srGenerateOurCommit_spec sha3 timestamp digest random
    exact ⟨c, hc, hdigest, hgen.accepted⟩

end Badnet.SharedRandom

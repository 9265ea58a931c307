/-
  Badnet.Dirparse.Routerstatus — reading a consensus made of router entries (`feature/dirparse/ns_parse.c`:
  `find_start_of_next_routerstatus`, `routerstatus_parse_entry_from_string`, `networkstatus_parse_vote_from_string`).

  The header, the footer and the signatures of Tor's consensus are gone: the flavour, the method, the known flags and
  the weights are constants, and the document is a run of entries. A warning is the text of its format, without the
  quoted argument some have. Left out are the fields and protocols that are values of constants only.
-/

import Badnet.Encoding.Decimal
import Badnet.Dirparse.Tokens

namespace Badnet.Dirparse

open Lib Encoding

/-! ## The parts of an entry -/

/-- `T1("r", K_R, GE(4), NO_OBJ)`. -/
def rRule : TokenRule where
  t := ['r']
  v := .K_R
  minArgs := 4
  maxArgs := INT_MAX
  concatArgs := false
  os := .NO_OBJ
  minCnt := 1
  maxCnt := 1

def onionKeyword : Text := ['o', 'n', 'i', 'o', 'n', '-', 'k', 'e', 'y']

/-- `T1("onion-key", K_ONION_KEY, NO_ARGS, NEED_KEY_1024)`. -/
def onionKeyRule : TokenRule where
  t := onionKeyword
  v := .K_ONION_KEY
  minArgs := 0
  maxArgs := 0
  concatArgs := false
  os := .NEED_KEY_1024
  minCnt := 1
  maxCnt := 1

def ntorKeyword : Text := ['n', 't', 'o', 'r', '-', 'o', 'n', 'i', 'o', 'n', '-', 'k', 'e', 'y']

/-- `T01("ntor-onion-key", K_ONION_KEY_NTOR, GE(1), NO_OBJ)`. -/
def ntorKeyRule : TokenRule where
  t := ntorKeyword
  v := .K_ONION_KEY_NTOR
  minArgs := 1
  maxArgs := INT_MAX
  concatArgs := false
  os := .NO_OBJ
  minCnt := 0
  maxCnt := 1

/-- `T0N("id", K_ID, GE(2), NO_OBJ)`. -/
def idRule : TokenRule where
  t := ['i', 'd']
  v := .K_ID
  minArgs := 2
  maxArgs := INT_MAX
  concatArgs := false
  os := .NO_OBJ
  minCnt := 0
  maxCnt := INT_MAX

def rtrstatusTokenTable : List TokenRule := [rRule, onionKeyRule, ntorKeyRule, idRule]

def directoryFooter : Text :=
  ['d', 'i', 'r', 'e', 'c', 't', 'o', 'r', 'y', '-', 'f', 'o', 'o', 't', 'e', 'r']

def directorySignature : Text :=
  ['d', 'i', 'r', 'e', 'c', 't', 'o', 'r', 'y', '-', 's', 'i', 'g', 'n', 'a', 't', 'u', 'r', 'e']

/-- How many characters belong to the entry the text starts with. -/
def findStartOfNextRouterstatus (s : Text) : Nat :=
  let eos := match search ['\n', 'r', ' '] s with
    | some i => i + 1
    | none => s.length
  let footer := search ('\n' :: directoryFooter) (s.take eos)
  let sig := search ('\n' :: directorySignature) (s.take eos)
  match footer, sig with
  | some footer, some sig => min footer sig + 1
  | some footer, none => footer + 1
  | none, some sig => sig + 1
  | none, none => eos

def DIGEST_LEN : Nat := 20

def DIGEST256_LEN : Nat := 32

def MAX_NICKNAME_LEN : Nat := 19

/-- `LEGAL_NICKNAME_CHARACTERS`. -/
def isNicknameChar (c : Char) : Bool := ('a' ≤ c ∧ c ≤ 'z') ∨ ('A' ≤ c ∧ c ≤ 'Z') ∨ ('0' ≤ c ∧ c ≤ '9')

def isLegalNickname (s : Text) : Bool := s.length > 0 ∧ s.length ≤ MAX_NICKNAME_LEN ∧ s.all isNicknameChar

/-- `digest_from_base64` and `digest256_from_base64`: exactly `len` bytes. -/
def digestFromBase64 (len : Nat) (d64 : Text) : Option Bytes :=
  (base64Decode len d64).filter fun digest => digest.length = len

def CURVE25519_BASE64_PADDED_LEN : Nat := 44

/-- With or without the trailing `=`. -/
def curve25519PublicFromBase64 (input : Text) : Option Bytes :=
  if input.length = CURVE25519_BASE64_PADDED_LEN - 1 then digestFromBase64 DIGEST256_LEN input
  else if input.length = CURVE25519_BASE64_PADDED_LEN then
    (base64Decode (CURVE25519_BASE64_PADDED_LEN + 1) input).filter fun buf => buf.length = 32
  else none

def ed25519PublicFromBase64 (input : Text) : Option Bytes := digestFromBase64 DIGEST256_LEN input

/-! ## An entry -/

structure Microdesc where
  onionPkey : Bytes
  onionCurve25519Pkey : Option Bytes
  ed25519IdentityPkey : Option Bytes
  deriving DecidableEq, Repr

structure RouterStatus where
  nickname : Text
  identityDigest : Bytes
  ipv4Addr : UInt32
  ipv4Orport : UInt16
  md : Microdesc
  isExit : Bool := true
  isStable : Bool := true
  isFast : Bool := true
  isFlaggedRunning : Bool := true
  isValid : Bool := true
  isPossibleGuard : Bool := true
  isHsDir : Bool := true
  isV2Dir : Bool := true
  bandwidthKb : Nat := 1
  hasBandwidth : Bool := true
  bwIsUnmeasured : Bool := true
  deriving DecidableEq, Repr

inductive Flavor where
  | NS
  | MICRODESC
  deriving DecidableEq, Repr

section

variable (rsa : Rsa)

def ed25519Word : Text := ['e', 'd', '2', '5', '5', '1', '9']

/-- One `id` line: `acc` is the ed25519 key so far. -/
def idLine (acc : Option Bytes) (t : Token rsa) : Except String (Option Bytes) :=
  if t.args.getD 0 [] = ed25519Word then
    if acc.isSome then .error "Extra ed25519 key in microdesc"
    else
      match ed25519PublicFromBase64 (t.args.getD 1 []) with
      | none => .error "Bogus ed25519 key in microdesc"
      | some k => .ok (some k)
  else .ok acc

variable (tokens : List (Token rsa))

/-- `find_by_keyword`: the rules of the table make sure that there is one. -/
def findByKeyword (keyword : Keyword) : Except String (Token rsa) :=
  match tokens.find? fun t => t.tp = keyword with
  | none => .error "Missing keyword in directory object that should have been validated. Internal error."
  | some t => .ok t

/-- The `onion-key`, `ntor-onion-key` and `id` items. -/
def microdescOf : Except String Microdesc := do
  let tok ← findByKeyword rsa tokens .K_ONION_KEY
  if ¬ tok.key.any rsa.publicExponentOk then .error "Relay's onion key had invalid exponent."
  let ntor ← match tokens.find? fun t => t.tp = .K_ONION_KEY_NTOR with
    | none => .ok none
    | some t =>
      match curve25519PublicFromBase64 (t.args.getD 0 []) with
      | none => .error "Bogus ntor-onion-key in microdesc"
      | some k => .ok (some k)
  let ed ← (tokens.filter fun t => t.tp = .K_ID).foldlM (idLine rsa) none
  return { onionPkey := tok.objectBody.getD [], onionCurve25519Pkey := ntor, ed25519IdentityPkey := ed }

/-- The entry that the tokens make up. An `r` line of the microdesc flavour has no
    descriptor digest, so the address is one argument further left. -/
def routerstatusOf (flav : Flavor) (tokens : List (Token rsa)) : Except String RouterStatus := do
  if tokens.length < 1 then .error "Impossibly short router status"
  let tok ← findByKeyword rsa tokens .K_R
  if flav = .NS ∧ tok.args.length < 8 then .error "Too few arguments to r"
  let addr := match flav with
    | .NS => 3
    | .MICRODESC => 2
  if ¬ isLegalNickname (tok.args.getD 0 []) then .error "Invalid nickname in router status; skipping."
  let digest ← (digestFromBase64 DIGEST_LEN (tok.args.getD 1 [])).elim (.error "Error decoding identity digest") .ok
  let ip ← (torInetAton (tok.args.getD addr [])).elim (.error "Error parsing router address in network-status") .ok
  let port := (torParseLong (tok.args.getD (addr + 1) []) 0 65535).getD 0
  let md ← microdescOf rsa tokens
  return {
    nickname := (tok.args.getD 0 []).take MAX_NICKNAME_LEN
    identityDigest := digest
    ipv4Addr := ip
    ipv4Orport := UInt16.ofNat port.toNat
    md := md }

/-- `routerstatus_parse_entry_from_string` for a consensus: the entry and the text after
    it. -/
def routerstatusParseEntryFromString (s : Text) (consensusMethod : Nat) (flav : Flavor) :
    Except String RouterStatus × Text :=
  let flav := if consensusMethod = 0 then .NS else flav
  let eos := findStartOfNextRouterstatus s
  (match tokenizeString rsa rtrstatusTokenTable (s.take eos) with
    | .error _ => .error "Error tokenizing router status"
    | .ok tokens => routerstatusOf rsa flav tokens,
    s.drop eos)

/-! ## The document -/

/-- An entry ends after its first character at the earliest. -/
theorem findStart_pos {s : Text} (h : s ≠ []) : 0 < findStartOfNextRouterstatus s := by
  have hlen := List.length_pos_of_ne_nil h
  unfold findStartOfNextRouterstatus
  simp only
  split
  · exact Nat.succ_pos _
  · exact Nat.succ_pos _
  · exact Nat.succ_pos _
  · split
    · exact Nat.succ_pos _
    · exact hlen

/-- The `while` loop: entries as long as the text starts with `r `. -/
def routerstatusLoop (consensusMethod : Nat) (flav : Flavor) (s : Text) : Except String (List RouterStatus) :=
  if _h : ['r', ' '] <+: s then
    let p := routerstatusParseEntryFromString rsa s consensusMethod flav
    match p.1 with
    | .error e => .error e
    | .ok rs => (routerstatusLoop consensusMethod flav p.2).map (rs :: ·)
  else .ok []
termination_by s.length
decreasing_by
  have hne : s ≠ [] := fun e => absurd (e ▸ _h) (by decide)
  have hpos := findStart_pos hne
  have hlen := List.length_pos_of_ne_nil hne
  show (s.drop (findStartOfNextRouterstatus s)).length < s.length
  rw [List.length_drop]
  omega

inductive NsType where
  | VOTE
  | CONSENSUS
  | OPINION
  deriving DecidableEq, Repr

structure NetworkStatus where
  type : NsType
  flavor : Flavor
  consensusMethod : Nat
  knownFlags : List Text
  routerstatusList : List RouterStatus
  weightParams : List Text
  deriving DecidableEq, Repr

def knownFlags : List Text :=
  ["Authority", "Exit", "Fast", "Guard", "HSDir", "NoEdConsensus", "Running", "Stable", "StaleDesc", "V2Dir",
    "Valid"].map String.toList

def weightParams : List Text :=
  ["Wbd=3333", "Wbe=0", "Wbg=0", "Wbm=10000", "Wdb=10000", "Web=10000", "Wed=3333", "Wee=10000", "Weg=3333",
    "Wem=10000", "Wgb=10000", "Wgd=3333", "Wgg=10000", "Wgm=10000", "Wmb=10000", "Wmd=3333", "Wme=0", "Wmg=0",
    "Wmm=10000"].map String.toList

/-- Each flag is less than the next one (`strcmp`). -/
def inorder (flags : List Text) : Bool := (flags.zip flags.tail).all fun p => p.1 < p.2

/-- An element `name=number`. -/
def checkWeight (bw : Text) : Except String Unit :=
  match bw.dropWhile (· ≠ '=') with
  | [] => .error ("Bad element '" ++ String.ofList bw ++ "' in weight params")
  | _ :: value =>
    if (torParseLong value (-2147483648) 2147483647).isNone then
      .error ("Bad element '" ++ String.ofList bw ++ "' in params")
    else .ok ()

def networkstatusParseVoteFromString (s : Text) (nsType : NsType) : Except String NetworkStatus := do
  let flav := Flavor.MICRODESC
  if nsType ≠ .CONSENSUS then .error "Got the wrong kind of v3 networkstatus."
  let consensusMethod := 29
  if ¬ inorder knownFlags then .error "known-flags not in order"
  let routerstatusList ← routerstatusLoop rsa consensusMethod flav s
  weightParams.forM checkWeight
  return {
    type := .CONSENSUS
    flavor := flav
    consensusMethod := consensusMethod
    knownFlags := knownFlags
    routerstatusList := routerstatusList
    weightParams := weightParams }

/-- The checks of the constants always pass: a document is accepted exactly if its entries
    are. -/
theorem networkstatusParse_eq (s : Text) :
    networkstatusParseVoteFromString rsa s .CONSENSUS = (routerstatusLoop rsa 29 .MICRODESC s).map fun list =>
      { type := .CONSENSUS, flavor := .MICRODESC, consensusMethod := 29, knownFlags := knownFlags,
        routerstatusList := list, weightParams := weightParams } := by
  have hflags : inorder knownFlags = true := by decide
  have hweights : weightParams.forM checkWeight = .ok () := by rfl
  unfold networkstatusParseVoteFromString
  simp only [hflags, hweights]
  cases routerstatusLoop rsa 29 .MICRODESC s with
  | error e => rfl
  | ok list => rfl

end

end Badnet.Dirparse

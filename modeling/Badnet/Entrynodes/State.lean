/-
  Badnet.Entrynodes.State — the guards in the state file (feature/client/entrynodes.c).

  Each persistent guard is one line of the state file: words `key=value` with a blank between them, and behind them the
  words that the parser did not know when the guard was read. Loading puts every guard into the selection of its name
  and sorts the samples; `entry_guards_update_all`, which comes after the sort, is in Badnet.Entrynodes.Select. The
  path-bias counters are zero: of these only the circuits are written that are open through the guard.
-/

import Badnet.Cells.Onion
import Badnet.Container.SplitString
import Badnet.Dirparse.Sri
import Badnet.Encoding.Base16
import Badnet.Encoding.TimeFmt
import Badnet.Entrynodes.Sample
import Badnet.Lib.Fields
import Badnet.Lib.Sorting
import Badnet.Net.AddrPort

namespace Badnet.Entrynodes.State

open Lib Encoding Container Net Dirparse

/-! ## Data -/

/-- A guard, by the fields that are written; the others start anew with every run. -/
structure EntryGuard where
  nickname : Text
  identity : BytesN DIGEST_LEN
  selectionName : Text
  bridgeAddr : Option Cells.TorAddrPort
  sampledOnDate : Nat
  /-- 0 while the guard is listed. -/
  unlistedSinceDate : Nat
  sampledByVersion : Option Text
  currentlyListed : Bool
  /-- 0 for a guard that is not confirmed. -/
  confirmedOnDate : Nat
  sampledIdx : Int
  /-- -1 for a guard that is not confirmed. -/
  confirmedIdx : Int
  extraStateFields : Option Text
  isPersistent : Bool
  isReachable : Reachable
  deriving DecidableEq

structure GuardSelection where
  name : Text
  sampledEntryGuards : List EntryGuard
  nextSampledIdx : Int
  deriving DecidableEq

/-- The circuits through a guard that `pathbias_get_use_success_count` and `pathbias_get_close_success_count` count. -/
structure OpenCircuits where
  use : Nat
  close : Nat

/-- The keys in the map of `entry_guard_parse_from_state`. -/
inductive StateKey where
  | in_
  | rsaId
  | nickname
  | sampledOn
  | sampledIdx
  | sampledBy
  | unlistedSince
  | listed
  | confirmedOn
  | confirmedIdx
  | bridgeAddr
  | pbUseAttempts
  | pbUseSuccesses
  | pbCircAttempts
  | pbCircSuccesses
  | pbSuccessfulCircuitsClosed
  | pbCollapsedCircuits
  | pbUnusableCircuits
  | pbTimeouts
  deriving DecidableEq

def StateKey.text : StateKey → Text
  | .in_ => "in".toList
  | .rsaId => "rsa_id".toList
  | .nickname => "nickname".toList
  | .sampledOn => "sampled_on".toList
  | .sampledIdx => "sampled_idx".toList
  | .sampledBy => "sampled_by".toList
  | .unlistedSince => "unlisted_since".toList
  | .listed => "listed".toList
  | .confirmedOn => "confirmed_on".toList
  | .confirmedIdx => "confirmed_idx".toList
  | .bridgeAddr => "bridge_addr".toList
  | .pbUseAttempts => "pb_use_attempts".toList
  | .pbUseSuccesses => "pb_use_successes".toList
  | .pbCircAttempts => "pb_circ_attempts".toList
  | .pbCircSuccesses => "pb_circ_successes".toList
  | .pbSuccessfulCircuitsClosed => "pb_successful_circuits_closed".toList
  | .pbCollapsedCircuits => "pb_collapsed_circuits".toList
  | .pbUnusableCircuits => "pb_unusable_circuits".toList
  | .pbTimeouts => "pb_timeouts".toList

def StateKey.all : List StateKey :=
  [.in_, .rsaId, .nickname, .sampledOn, .sampledIdx, .sampledBy, .unlistedSince, .listed, .confirmedOn, .confirmedIdx,
    .bridgeAddr, .pbUseAttempts, .pbUseSuccesses, .pbCircAttempts, .pbCircSuccesses, .pbSuccessfulCircuitsClosed,
    .pbCollapsedCircuits, .pbUnusableCircuits, .pbTimeouts]

/-! ## Writing -/

def keyWord (key : StateKey) (value : Text) : Text := key.text ++ '=' :: value

/-- `PB_FIELD`: "%f" of a whole number, if it is not zero. -/
def pbField (count : Nat) : Option Text := if 0 < count then some (decimal count ++ ['.', '0', '0', '0', '0', '0', '0']) else none

/-- The values in the order in which they are written. -/
def stateRows (circs : OpenCircuits) (guard : EntryGuard) (denseSampledIdx : Nat) : List (StateKey × Option Text) :=
  let confirmed := 0 ≤ guard.confirmedIdx
  [(.in_, some guard.selectionName),
    (.rsaId, some (base16Encode guard.identity.val)),
    (.bridgeAddr, guard.bridgeAddr.map fun bridge => fmtAddrport bridge.addr bridge.port),
    (.nickname, if isLegalNickname guard.nickname then some guard.nickname else none),
    (.sampledOn, some (formatIsoTimeNospace guard.sampledOnDate)),
    (.sampledIdx, some (decimal denseSampledIdx)),
    (.sampledBy, guard.sampledByVersion),
    (.unlistedSince, if guard.unlistedSinceDate > 0 then some (formatIsoTimeNospace guard.unlistedSinceDate) else none),
    (.listed, some (if guard.currentlyListed then ['1'] else ['0'])),
    (.confirmedOn, if confirmed then some (formatIsoTimeNospace guard.confirmedOnDate) else none),
    (.confirmedIdx, if confirmed then some (decimal guard.confirmedIdx.toNat) else none),
    (.pbUseAttempts, pbField 0),
    (.pbUseSuccesses, pbField circs.use),
    (.pbCircAttempts, pbField 0),
    (.pbCircSuccesses, pbField 0),
    (.pbSuccessfulCircuitsClosed, pbField circs.close),
    (.pbCollapsedCircuits, pbField 0),
    (.pbUnusableCircuits, pbField 0),
    (.pbTimeouts, pbField 0)]

def entryGuardEncodeForState (circs : OpenCircuits) (guard : EntryGuard) (denseSampledIdx : Nat) : Text :=
  smartlistJoinStrings ' ' (rowWords keyWord (stateRows circs guard denseSampledIdx) ++ guard.extraStateFields.toList)

/-- The lines of one selection; only the persistent guards are counted. -/
def guardLines (circs : EntryGuard → OpenCircuits) : Nat → List EntryGuard → List Text
  | _, [] => []
  | i, guard :: rest =>
    if guard.isPersistent then entryGuardEncodeForState (circs guard) guard i :: guardLines circs (i + 1) rest
    else guardLines circs i rest

def entryGuardsUpdateGuardsInState (circs : EntryGuard → OpenCircuits) (guardContexts : List GuardSelection) : List Text :=
  guardContexts.flatMap fun gs => guardLines circs 0 gs.sampledEntryGuards

/-! ## Parsing -/

/-- The key and the value of a word, if it has a key that is known. -/
def setVal (entry : Text) : Option (StateKey × Text) :=
  match entry.dropWhile (· ≠ '=') with
  | [] => none
  | _ :: value => (StateKey.all.find? fun key => key.text = entry.takeWhile (· ≠ '=')).map (·, value)

def parseFromStateSetVals (s : Text) : Fields StateKey Text Text :=
  (smartlistSplitString ' ' s).foldl (Fields.readWord setVal) Fields.empty

/-- `HANDLE_TIME`: 0 for a missing field, -1 for a text that is no time. -/
def handleTime : Option Text → Int
  | none => 0
  | some field => (parseIsoTimeNospace field).getD (-1)

variable (approxTime : Nat)

def sampledOnTime (field : Option Text) : Nat :=
  if handleTime field ≤ 0 then approxTime else (handleTime field).toNat

/-- `unlisted_since` and `confirmed_on`. -/
def otherTime (field : Option Text) : Nat := if handleTime field < 0 then 0 else (handleTime field).toNat

/-- The identity, if the text gives as many bytes as it has. -/
def digestOfHex (rsaId : Text) : Option (BytesN DIGEST_LEN) :=
  match base16Decode DIGEST_LEN rsaId with
  | none => none
  | some digest => if h : digest.length = DIGEST_LEN then some ⟨digest, h⟩ else none

def MAX_HEX_NICKNAME_LEN : Nat := 41

def parseNickname (identity : BytesN DIGEST_LEN) : Option Text → Text
  | some nickname => nickname.take MAX_HEX_NICKNAME_LEN
  | none => '$' :: base16Encode identity.val

def parseConfirmedIdx : Option Text → Int
  | none => -1
  | some field => (torParseLong field 0 INT_MAX).getD (-1)

variable (maxSampleSize : Nat)

/-- Without a usable index, that of the confirmed list, which older versions wrote alone, or one above the sample. -/
def parseSampledIdx (sampledIdx confirmedIdx : Option Text) : Int :=
  match sampledIdx with
  | some field => (torParseLong field 0 INT_MAX).getD maxSampleSize
  | none => if confirmedIdx.isSome then parseConfirmedIdx confirmedIdx else maxSampleSize

/-- The words that are not known, in one text. -/
def extraFields (extra : List Text) : Option Text := if extra = [] then none else some (smartlistJoinStrings ' ' extra)

/-- `maxSampleSize` is `get_max_sample_size_absolute`. -/
def entryGuardParseFromState (s : Text) : Option EntryGuard :=
  let fields := parseFromStateSetVals s
  match fields.vals .in_, (fields.vals .rsaId).bind digestOfHex with
  | some selectionName, some identity => some
    { nickname := parseNickname identity (fields.vals .nickname)
      identity := identity
      selectionName := selectionName
      bridgeAddr := (fields.vals .bridgeAddr).bind fun text => (torAddrPortParse text (-1)).map fun r => ⟨r.1, r.2⟩
      sampledOnDate := sampledOnTime approxTime (fields.vals .sampledOn)
      unlistedSinceDate := otherTime (fields.vals .unlistedSince)
      sampledByVersion := fields.vals .sampledBy
      currentlyListed := (fields.vals .listed).any (· ≠ ['0'])
      confirmedOnDate := otherTime (fields.vals .confirmedOn)
      sampledIdx := parseSampledIdx maxSampleSize (fields.vals .sampledIdx) (fields.vals .confirmedIdx)
      confirmedIdx := parseConfirmedIdx (fields.vals .confirmedIdx)
      extraStateFields := extraFields fields.extra
      isPersistent := true
      isReachable := .maybe }
  | _, _ => none

/-! ## Loading -/

def guardSelectionNew (name : Text) : GuardSelection where
  name := name
  sampledEntryGuards := []
  nextSampledIdx := 0

/-- The guard joins the sample, and the next index stays above those in it. -/
def GuardSelection.addGuard (gs : GuardSelection) (guard : EntryGuard) : GuardSelection :=
  { gs with
    sampledEntryGuards := gs.sampledEntryGuards ++ [guard]
    nextSampledIdx := if gs.nextSampledIdx ≤ guard.sampledIdx then guard.sampledIdx + 1 else gs.nextSampledIdx }

/-- The guard joins the selection of its name, which is made if there is none (`get_guard_selection_by_name`). -/
def addToSelection (guard : EntryGuard) : List GuardSelection → List GuardSelection
  | [] => [(guardSelectionNew guard.selectionName).addGuard guard]
  | gs :: rest => if gs.name = guard.selectionName then gs.addGuard guard :: rest else gs :: addToSelection guard rest

structure LoadState where
  guardContexts : List GuardSelection
  nErrors : Nat

/-- One turn of the loop over the lines. -/
def loadLine (set : Bool) (s : LoadState) (line : Text) : LoadState :=
  match entryGuardParseFromState approxTime maxSampleSize line with
  | none => { s with nErrors := s.nErrors + 1 }
  | some guard =>
    if guard.selectionName = "legacy".toList then { s with nErrors := s.nErrors + 1 }
    else if set then { s with guardContexts := addToSelection guard s.guardContexts }
    else s

def compareGuardsBySampledIdx (a b : EntryGuard) : Int :=
  if a.sampledIdx < b.sampledIdx then -1 else if a.sampledIdx > b.sampledIdx then 1 else 0

def GuardSelection.sorted (gs : GuardSelection) : GuardSelection :=
  { gs with sampledEntryGuards := gs.sampledEntryGuards.insertionSort fun a b => compareGuardsBySampledIdx a b ≤ 0 }

/-- The selections there are then, and the result. -/
def entryGuardsLoadGuardsFromState (set : Bool) (guardContexts : List GuardSelection) (lines : List Text) :
    List GuardSelection × Int :=
  let s := lines.foldl (loadLine approxTime maxSampleSize set) ⟨if set then [] else guardContexts, 0⟩
  (if set then s.guardContexts.map GuardSelection.sorted else s.guardContexts, if s.nErrors = 0 then 0 else -1)

end Badnet.Entrynodes.State

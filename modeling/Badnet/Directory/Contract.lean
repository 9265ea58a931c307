/-
  Badnet.Directory.Contract — the directory contract (`DirectoryContract.sol`, `DirectoryContractV3`, Solidity ^0.7.0).

  A mapping is a total function that starts at the default value, `uint8` and `uint16` are `UInt8` and `UInt16` (0.7
  arithmetic wraps silently). A function that can revert returns `none` when it does; a run (`Lib.run step`) is a list
  of the transactions that did not. Left out: ether (`contract_transfer_to_relay`, `fallback`, `receive` and the
  balance) and gas, which touch no storage below.
-/

import Mathlib.Logic.Function.Basic
import Badnet.Lib.Run

namespace Badnet.Directory

open Lib Function

abbrev Address := BitVec 160

abbrev Bytes := List UInt8

structure Relay where
  registered : Bool := false
  healthflag : Bool := false
  counter : UInt8 := 0
  Hdr : Bytes := []
  encryptedSRI : Bytes := []
  NSD : Bytes := []
  deriving DecidableEq, Repr

structure State where
  owner : Address
  RelayUploadPeriod : BitVec 256
  relayIndex : UInt16
  unhealthyRelaySet : List UInt16
  CurrentCounter : UInt8
  CounterOP : UInt8 → Bool
  CounterList : UInt8 → List UInt16
  relay : UInt16 → Relay
  relayaddr : Address → UInt16

/-- The constructor: `owner` is the deployer. -/
def deploy (owner : Address) : State where
  owner := owner
  RelayUploadPeriod := 60
  relayIndex := 1
  unhealthyRelaySet := []
  CurrentCounter := 1
  CounterOP := fun _ => false
  CounterList := fun _ => []
  relay := fun _ => {}
  relayaddr := fun _ => 0

variable (s : State) (sender : Address)

/-- The struct a sender's calls act on: that of index 0 for a sender without one. -/
def State.relayOf : Relay := s.relay (s.relayaddr sender)

/-! ## Relay methods -/

def relayRegistrationCheck : UInt16 :=
  if (s.relayOf sender).registered = true then s.relayaddr sender else 0

/-- The log entry both counter-bumping methods write before `CurrentCounter++`. -/
def State.logOp (op : Bool) (list : List UInt16) : State :=
  { s with
    CounterOP := update s.CounterOP s.CurrentCounter op
    CounterList := update s.CounterList s.CurrentCounter list
    CurrentCounter := s.CurrentCounter + 1 }

def relayRegister : Option State :=
  if (s.relayOf sender).registered = false then
    some ({ s with
      relayaddr := update s.relayaddr sender s.relayIndex
      relay := update s.relay s.relayIndex { s.relay s.relayIndex with registered := true, healthflag := true }
      relayIndex := s.relayIndex + 1 }.logOp true [s.relayIndex])
  else none

def relayGetUploadPeriod : Option (BitVec 256) :=
  if (s.relayOf sender).registered = true then some s.RelayUploadPeriod else none

def relayGetIndexSet : Option (UInt16 × List UInt16) :=
  if (s.relayOf sender).registered = true then some (s.relayIndex, s.unhealthyRelaySet) else none

def relayGetCurrentCounter : Option UInt8 :=
  if (s.relayOf sender).registered = true then some s.CurrentCounter else none

/-- What one `relay_upload_SRI_and_NSD` supplies. -/
structure Upload where
  counter : UInt8 := 0
  Hdr : Bytes := []
  encryptedSRI : Bytes := []
  NSD : Bytes := []
  deriving DecidableEq, Repr

def Relay.store (r : Relay) (u : Upload) : Relay :=
  { r with counter := u.counter, Hdr := u.Hdr, encryptedSRI := u.encryptedSRI, NSD := u.NSD }

def Relay.stored (r : Relay) : Upload := ⟨r.counter, r.Hdr, r.encryptedSRI, r.NSD⟩

def relayUploadSRIAndNSD (u : Upload) : Option State :=
  if (s.relayOf sender).healthflag = true then
    some { s with relay := update s.relay (s.relayaddr sender) ((s.relayOf sender).store u) }
  else none

variable (i : UInt16)

def relayDownloadSRI : Option (UInt8 × Bytes × Bytes) :=
  if (s.relayOf sender).registered = true then
    if i < s.relayIndex ∧ (s.relay i).healthflag = true then
      some ((s.relay i).counter, (s.relay i).Hdr, (s.relay i).encryptedSRI)
    else none
  else none

/-- A write to a memory array: out of range reverts. -/
def writeAt {α : Type} (xs : List α) (i : Nat) (x : α) : Option (List α) :=
  if i < xs.length then some (xs.set i x) else none

/-- The body of `relay_get_counter_list`'s loop at `i`. -/
def counterListStep (acc : List Bool × List (List UInt16)) (i : UInt8) : Option (List Bool × List (List UInt16)) := do
  let operation ← writeAt acc.1 (s.CurrentCounter - i - 1).toNat (s.CounterOP i)
  let alterSet ← writeAt acc.2 (s.CurrentCounter - i - 1).toNat (s.CounterList i)
  some (operation, alterSet)

/-- `for (uint8 i = counter; i < CurrentCounter; i++)`: `i` never passes
    `CurrentCounter`, so `i++` does not wrap inside the loop. -/
def relayGetCounterList (counter : UInt8) : Option (List Bool × List (List UInt16)) :=
  if (s.relayOf sender).registered = true then
    if counter < s.CurrentCounter then
      let n := (s.CurrentCounter - counter).toNat
      run (counterListStep s) (List.replicate n false, List.replicate n [])
        ((List.range' counter.toNat n).map UInt8.ofNat)
    else none
  else none

def relayCancellation : Option State :=
  if (s.relayOf sender).registered = true then
    some { s with relay := update s.relay (s.relayaddr sender) {}, relayaddr := update s.relayaddr sender 0 }
  else none

/-! ## Client method -/

/-- The body of `client_download_NSD`'s loop at `i`. The else branch writes entry `i`
    where the other branch writes entry `i - 1`. -/
def downloadNSDStep (acc : List Bool × Bytes) (i : UInt16) : Option (List Bool × Bytes) :=
  if (s.relay i).healthflag = true then do
    let NSDIndex ← writeAt acc.1 (i - 1).toNat true
    some (NSDIndex, acc.2 ++ (s.relay i).NSD)
  else do
    let NSDIndex ← writeAt acc.1 i.toNat false
    some (NSDIndex, acc.2)

/-- The values a loop `for (uint16 i = 1; i < relayIndex; i++)` takes. -/
def State.indices : List UInt16 := (List.range' 1 (s.relayIndex.toNat - 1)).map UInt16.ofNat

def clientDownloadNSD : Option (List Bool × Bytes) :=
  run (downloadNSDStep s) (List.replicate (s.relayIndex - 1).toNat false, []) s.indices

/-! ## Manager methods -/

def setSRIperiod (period : BitVec 256) : Option State :=
  if sender = s.owner then some { s with RelayUploadPeriod := period } else none

def getrelayIndex : Option UInt16 :=
  if sender = s.owner then some s.relayIndex else none

def getinfo : Option Upload :=
  if sender = s.owner then some (s.relay i).stored else none

def getHealthFlag : Option Bool :=
  if sender = s.owner then some (s.relay i).healthflag else none

/-- The body of `modifyHealthFlag`'s loop for the entry `x = list[i]`. -/
def markUnhealthy (x : UInt16) : Option State :=
  if (s.relay x).healthflag = true then
    some { s with
      relay := update s.relay x { s.relay x with healthflag := false }
      unhealthyRelaySet := s.unhealthyRelaySet ++ [x] }
  else none

/-- The loop reads `list[i]` for every `i < size`; past the end of `list` it reverts.
    The log then gets the whole of `list`. -/
def modifyHealthFlag (size : UInt16) (list : List UInt16) : Option State :=
  if sender = s.owner then
    (run (fun t i => list[i]?.bind (markUnhealthy t)) s (List.range size.toNat)).map fun t => t.logOp false list
  else none

/-! ## Transactions -/

inductive Tx where
  | relayRegister
  | relayUploadSRIAndNSD (u : Upload)
  | relayCancellation
  | setSRIperiod (period : BitVec 256)
  | modifyHealthFlag (size : UInt16) (list : List UInt16)
  deriving DecidableEq, Repr

structure Call where
  sender : Address
  tx : Tx
  deriving DecidableEq, Repr

def step (c : Call) : Option State :=
  match c.tx with
  | .relayRegister => relayRegister s c.sender
  | .relayUploadSRIAndNSD u => relayUploadSRIAndNSD s c.sender u
  | .relayCancellation => relayCancellation s c.sender
  | .setSRIperiod period => setSRIperiod s c.sender period
  | .modifyHealthFlag size list => modifyHealthFlag s c.sender size list

end Badnet.Directory

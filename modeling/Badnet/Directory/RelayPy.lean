/-
  Badnet.Directory.RelayPy — the relay's side of the directory (`SC/Relay.py`).

  Every contract call is one `eth_call` on the state the node holds at that moment, so a function that calls twice takes
  the state of each call. `Counter` and `relaySet` are the module's globals. `relayDownloadSRI` rebuilds the recipient
  set of a header by undoing the operations since the header's counter; `S += addSet[i]`, a list extended by an int, is
  a `TypeError`.
-/

import Badnet.Directory.Contract

namespace Badnet.Directory.RelayPy

open Lib

inductive PyError where
  | contractLogicError
  | typeError
  | valueError
  deriving DecidableEq, Repr

/-- web3's `call`: the decoded return value, or an exception for a revert. -/
def call {α : Type} : Option α → Except PyError α
  | some a => .ok a
  | none => .error .contractLogicError

theorem call_ok {α : Type} {x : Option α} {a : α} : call x = .ok a ↔ x = some a := by
  cases x <;> simp [call]

theorem bind_ok {α β : Type} {x : Except PyError α} {f : α → Except PyError β} {b : β} :
    (x >>= f) = .ok b ↔ ∃ a, x = .ok a ∧ f a = .ok b := by
  cases x with
  | error e => exact ⟨nofun, fun ⟨_, h, _⟩ => by cases h⟩
  | ok a => exact ⟨fun h => ⟨a, rfl, h⟩, fun ⟨_, h, h'⟩ => by cases h; exact h'⟩

/-- The module's globals. -/
structure Globals where
  Counter : Nat := 1
  relaySet : List Nat := []
  deriving DecidableEq, Repr

/-! ## The set of healthy relays -/

def relayGetIndexSet (wallet : Address) (s : State) : Except PyError (Nat × List Nat) := do
  let (relayIndex, unhealthy) ← call (Directory.relayGetIndexSet s wallet)
  return (relayIndex.toNat, unhealthy.map UInt16.toNat)

def relayGetCurrentCounter (wallet : Address) (s : State) : Except PyError Nat := do
  let counter ← call (Directory.relayGetCurrentCounter s wallet)
  return counter.toNat

/-- The loop of `relayGetSet`: `for i in range(1, relayTotalNum)`. -/
def healthyOf (relayTotalNum : Nat) (UnhealthySet : List Nat) : List Nat :=
  (List.range' 1 (relayTotalNum - 1)).filter (· ∉ UnhealthySet)

variable (wallet : Address)

/-- The index set is read in state `s`, the counter in state `t`. -/
def relayGetSet (s t : State) : Except PyError Globals := do
  let (relayTotalNum, UnhealthySet) ← relayGetIndexSet wallet s
  let Counter ← relayGetCurrentCounter wallet t
  return { Counter := Counter, relaySet := healthyOf relayTotalNum UnhealthySet }

/-! ## Download -/

/-- `addSet` and `deleteSet`: what to put back and what to take out again. -/
def splitOps (operation : List Bool) (alterSet : List (List Nat)) : List Nat × List Nat :=
  (operation.zip alterSet).foldl
    (fun acc p => if p.1 then (acc.1, acc.2 ++ p.2) else (acc.1 ++ p.2, acc.2)) ([], [])

def relayGetCounterList (wallet : Address) (s : State) (index : UInt8) : Except PyError (List Nat × List Nat) := do
  let (operation, alterSet) ← call (Directory.relayGetCounterList s wallet index)
  return splitOps operation (alterSet.map (List.map UInt16.toNat))

/-- `bytes.hex` and `binascii.hexlify`: two lower-case digits a byte. -/
def hexlify (bs : Bytes) : List Char := bs.flatMap fun b => [(b.toNat / 16).digitChar, (b.toNat % 16).digitChar]

def relayDownloadSRIHelper (s : State) (index : UInt16) : Except PyError (UInt8 × List Char × List Char) := do
  let (counter, Hdr, enSRI) ← call (Directory.relayDownloadSRI s wallet index)
  return (counter, hexlify Hdr, hexlify enSRI)

/-- `S += x` for an int `x`: an int is not iterable. -/
def extendBy (_S : List Nat) (_x : Nat) : Except PyError (List Nat) := .error .typeError

/-- `S.remove(x)`: the first occurrence goes; a missing one is an error. -/
def remove (S : List Nat) (x : Nat) : Except PyError (List Nat) :=
  if x ∈ S then .ok (S.erase x) else .error .valueError

/-- `re.findall(r'.{130}', Hdr)`: non-overlapping matches from the left; a dot does not
    match a newline. -/
def findall130 (cs : List Char) : List (List Char) :=
  if 130 ≤ cs.length ∧ '\n' ∉ cs.take 130 then cs.take 130 :: findall130 (cs.drop 130)
  else match cs with
    | [] => []
    | _ :: cs => findall130 cs
termination_by cs.length
decreasing_by all_goals simp_all; try omega

/-- The two loops of `relayDownloadSRI` over the split log. -/
def undoOps (S addSet deleteSet : List Nat) : Except PyError (List Nat) := do
  let S ← addSet.foldlM extendBy S
  deleteSet.foldlM remove S

/-- `S` as `relayDownloadSRI` leaves it: the current set with everything since
    `relayCounter` undone. -/
def rebuildSet (g : Globals) (s : State) (relayCounter : UInt8) : Except PyError (List Nat) :=
  if relayCounter.toNat < g.Counter then do
    let (addSet, deleteSet) ← relayGetCounterList wallet s relayCounter
    undoOps g.relaySet addSet deleteSet
  else .ok g.relaySet

/-- `relayDownloadSRI(relayID)` with the globals a `relayGetSet` left. -/
def relayDownloadSRI (g : Globals) (s : State) (relayID : UInt16) :
    Except PyError (List Nat × List (List Char) × List Char) := do
  let (relayCounter, Hdr, relayEnSRI) ← relayDownloadSRIHelper wallet s relayID
  let S ← rebuildSet wallet g s relayCounter
  return (S, findall130 Hdr, relayEnSRI)

end Badnet.Directory.RelayPy

/-
  Badnet.Relay.Sendme — circuit-level flow control (`core/or/sendme.c`, with the places of `core/or/relay.c` that
  package and deliver DATA cells).

  The two ends of a circuit each have the windows of the one hop that carries data, the list of digests they expect in
  SENDMEs, and one place for a digest that sending and receiving share. Between them there is a link for each direction
  that delivers in order. What one call of the code does is one step.
-/

import Mathlib.Logic.Function.Basic
import Badnet.Lib.Run

namespace Badnet.Relay.Sendme

open Lib

def CIRCWINDOW_START : Int := 1000

def CIRCWINDOW_START_MAX : Int := 1000

def CIRCWINDOW_INCREMENT : Int := 100

def SENDME_MAX_SUPPORTED_VERSION : Nat := 1

abbrev Digest := Vector UInt8 20

inductive Cell where
  | data (payload : List UInt8)
  | sendme (payload : List UInt8)
  | other (payload : List UInt8)
  deriving DecidableEq

inductive Side where
  | client
  | exit
  deriving DecidableEq

def Side.peer : Side → Side
  | .client => .exit
  | .exit => .client

/-- The versions of the consensus, and the running digest of the cells that a side sent. -/
structure Params where
  emitMinVersion : Nat
  acceptMinVersion : Nat
  digest : Side → List Cell → Digest

/-- `sent` and `received` are what the digests of the two directions were fed. -/
structure Endpoint where
  packageWindow : Int
  deliverWindow : Int
  sendmeLastDigests : List Digest
  sendmeDigest : Digest
  sent : List Cell
  received : List Cell

/-! ## The SENDME cell -/

/-- The version and, for version 1, the digest. -/
structure SendmeCell where
  version : UInt8
  dataV1Digest : List UInt8

def sendmeCellParse : List UInt8 → Option SendmeCell
  | version :: hi :: lo :: rest =>
    let dataLen := 256 * hi.toNat + lo.toNat
    if ¬ (version = 0 ∨ version = 1) then none
    else if rest.length < dataLen then none
    else if version = 0 then some ⟨0, []⟩
    else if dataLen = 20 then some ⟨1, rest.take 20⟩
    else none
  | _ => none

def buildCellPayloadV1 (cellDigest : Digest) : List UInt8 := 1 :: 0 :: 20 :: cellDigest.toList

theorem sendmeCellParse_build (d : Digest) : sendmeCellParse (buildCellPayloadV1 d) = some ⟨1, d.toList⟩ := by
  have hlen : d.toList.length = 20 := d.length_toList
  simp [buildCellPayloadV1, sendmeCellParse, hlen, List.take_of_length_le]

variable (p : Params)

def cellVersionCanBeHandled (cellVersion : Nat) : Bool :=
  ¬ p.acceptMinVersion > SENDME_MAX_SUPPORTED_VERSION ∧ ¬ cellVersion < p.acceptMinVersion ∧
    ¬ cellVersion > SENDME_MAX_SUPPORTED_VERSION

/-! ## Digests -/

/-- `%` of C. -/
def circuitSendmeCellIsNext (window : Int) : Bool :=
  if window = CIRCWINDOW_START then false else (window - 1).tmod CIRCWINDOW_INCREMENT = 0

variable (side : Side) (e : Endpoint)

def sendmeRecordSendingCellDigest : Endpoint :=
  if circuitSendmeCellIsNext e.packageWindow then { e with sendmeDigest := p.digest side e.sent } else e

def sendmeRecordReceivedCellDigest : Endpoint :=
  if circuitSendmeCellIsNext e.deliverWindow then { e with sendmeDigest := p.digest side.peer e.received } else e

def sendmeRecordCellDigestOnCirc : Endpoint :=
  if circuitSendmeCellIsNext e.packageWindow then { e with sendmeLastDigests := e.sendmeLastDigests ++ [e.sendmeDigest] }
  else e

/-! ## Sending -/

/-- `relay_send_command_from_edge`: the cell is encrypted, which takes it into the digest,
    and queued. -/
def relaySendCommandFromEdge (cell : Cell) : Endpoint :=
  let e := { e with sent := e.sent ++ [cell] }
  let e := sendmeRecordSendingCellDigest p side e
  match cell with
  | .data _ => sendmeRecordCellDigestOnCirc e
  | _ => e

/-- The cell of `send_circuit_level_sendme`. -/
def sendmeCell (cellDigest : Digest) : Cell :=
  if p.emitMinVersion = 1 then .sendme (buildCellPayloadV1 cellDigest) else .sendme []

def Cell.isData : Cell → Bool
  | .data _ => true
  | _ => false

/-- A DATA cell that ends a hundred is noted with the digest up to it, also because the place
    for the digest was set just before. -/
theorem relaySend_eq (cell : Cell) :
    relaySendCommandFromEdge p side e cell =
      { e with
        sent := e.sent ++ [cell]
        sendmeDigest := if circuitSendmeCellIsNext e.packageWindow then p.digest side (e.sent ++ [cell]) else e.sendmeDigest
        sendmeLastDigests := e.sendmeLastDigests ++
          if cell.isData ∧ circuitSendmeCellIsNext e.packageWindow then [p.digest side (e.sent ++ [cell])] else [] } := by
  unfold relaySendCommandFromEdge sendmeRecordSendingCellDigest sendmeRecordCellDigestOnCirc
  by_cases hn : circuitSendmeCellIsNext e.packageWindow = true
  · cases cell <;> simp [hn, Cell.isData]
  · cases cell <;> simp [hn, Cell.isData]

/-- The loop of `sendme_circuit_consider_sending`: the cells sent, and if the assertion
    that there is one only failed. -/
def considerSending (p : Params) (side : Side) (e : Endpoint) (sentOneSendme : Bool) : Endpoint × List Cell × Bool :=
  if e.deliverWindow ≤ CIRCWINDOW_START - CIRCWINDOW_INCREMENT then
    let cell := sendmeCell p e.sendmeDigest
    let e := relaySendCommandFromEdge p side { e with deliverWindow := e.deliverWindow + CIRCWINDOW_INCREMENT } cell
    let (e, cells, bug) := considerSending p side e true
    (e, cell :: cells, sentOneSendme || bug)
  else (e, [], false)
termination_by (CIRCWINDOW_START - e.deliverWindow).toNat
decreasing_by
  rw [relaySend_eq]
  unfold CIRCWINDOW_START CIRCWINDOW_INCREMENT at *
  simp only
  omega

def sendmeCircuitConsiderSending : Endpoint × List Cell × Bool :=
  considerSending p side e false

/-! ## Receiving -/

variable (cellPayload : List UInt8)

/-- `sendme_is_valid` and the digest list it leaves; `none` for invalid. -/
def sendmeIsValid : Option Endpoint :=
  match if cellPayload = [] then some ⟨0, []⟩ else sendmeCellParse cellPayload with
  | none => none
  | some cell =>
    if ¬ cellVersionCanBeHandled p cell.version.toNat then none
    else
      match e.sendmeLastDigests with
      | [] => none
      | circDigest :: rest =>
        if cell.version = 1 ∧ cell.dataV1Digest ≠ circDigest.toList then none
        else some { e with sendmeLastDigests := rest }

def sendmeProcessCircuitLevel : Option Endpoint :=
  match sendmeIsValid p e cellPayload with
  | none => none
  | some e =>
    if e.packageWindow + CIRCWINDOW_INCREMENT > CIRCWINDOW_START_MAX then none
    else some { e with packageWindow := e.packageWindow + CIRCWINDOW_INCREMENT }

/-! ## The circuit -/

/-- `link s` are the cells on the way to `s`. `bug` is set by a nonfatal assertion that
    failed. -/
structure Circuit where
  ends : Side → Endpoint
  link : Side → List Cell
  closed : Bool
  bug : Bool

def start : Circuit where
  ends := fun _ => ⟨CIRCWINDOW_START, CIRCWINDOW_START, [], Vector.replicate 20 0, [], []⟩
  link := fun _ => []
  closed := false
  bug := false

variable (c : Circuit)

/-- One end has another state and sent cells. -/
def Circuit.emit (side : Side) (e : Endpoint) (cells : List Cell) : Circuit :=
  { c with
    ends := Function.update c.ends side e
    link := Function.update c.link side.peer (c.link side.peer ++ cells) }

/-- A turn of `connection_edge_package_raw_inbuf`, if the window is open. -/
def Circuit.package (side : Side) (payload : List UInt8) : Circuit :=
  let e := relaySendCommandFromEdge p side (c.ends side) (.data payload)
  let e : Endpoint := { e with packageWindow := e.packageWindow - 1 }
  let c := c.emit side e [.data payload]
  if e.packageWindow < 0 then { c with closed := true } else c

/-- A control cell, or a stream-level one. -/
def Circuit.sendOther (side : Side) (payload : List UInt8) : Circuit :=
  c.emit side (relaySendCommandFromEdge p side (c.ends side) (.other payload)) [.other payload]

def Circuit.consider (side : Side) (e : Endpoint) : Circuit :=
  let (e, cells, bug) := sendmeCircuitConsiderSending p side e
  let c := c.emit side e cells
  { c with bug := c.bug || bug }

/-- A recognized cell at a side. A DATA cell makes it consider a SENDME in the same call. -/
def Circuit.deliver (side : Side) (cell : Cell) (rest : List Cell) : Circuit :=
  let c := { c with link := Function.update c.link side rest }
  let e := c.ends side
  let e := sendmeRecordReceivedCellDigest p side { e with received := e.received ++ [cell] }
  match cell with
  | .data _ =>
    let e : Endpoint := { e with deliverWindow := e.deliverWindow - 1 }
    if e.deliverWindow < 0 then { c.emit side e [] with closed := true } else c.consider p side e
  | .sendme payload =>
    let bug := c.bug || decide (¬ e.sendmeLastDigests.length ≤ 10)
    match sendmeProcessCircuitLevel p e payload with
    | some e => { c.emit side e [] with bug := bug }
    | none => { c.emit side e [] with closed := true, bug := bug }
  | .other _ => c.emit side e []

inductive Action where
  | package (side : Side) (payload : List UInt8)
  | sendOther (side : Side) (payload : List UInt8)
  | deliver (side : Side)
  | consider (side : Side)

/-- `none` where the package window stops the side from reading, where there is no cell to
    deliver and when the circuit is closed. -/
def step (a : Action) : Option Circuit :=
  if c.closed then none
  else
    match a with
    | .package side payload => if (c.ends side).packageWindow ≤ 0 then none else some (c.package p side payload)
    | .sendOther side payload => some (c.sendOther p side payload)
    | .deliver side =>
      match c.link side with
      | cell :: rest => some (c.deliver p side cell rest)
      | [] => none
    | .consider side => some (c.consider p side (c.ends side))

end Badnet.Relay.Sendme

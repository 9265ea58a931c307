/-
  Badnet.Cells.Onion — the cells that make and extend circuits (`core/or/onion.c`).

  An EXTEND cell has no field for the type of the handshake: an ntor handshake is one that starts with a magic string. A
  parser refuses, a formatter refuses or fails an assertion.
-/

import Badnet.Cells.CellBodies
import Badnet.Cells.LinkCells
import Badnet.Net.Address

namespace Badnet.Cells

open Lib Relay Net

/-! ## Constants -/

def CELL_CREATE : UInt8 := 1

def CELL_CREATED : UInt8 := 2

def CELL_CREATE_FAST : UInt8 := 5

def CELL_CREATED_FAST : UInt8 := 6

def CELL_CREATE2 : UInt8 := 10

def CELL_CREATED2 : UInt8 := 11

def RELAY_COMMAND_EXTEND : UInt8 := 6

def RELAY_COMMAND_EXTENDED : UInt8 := 7

def RELAY_COMMAND_EXTEND2 : UInt8 := 14

def RELAY_COMMAND_EXTENDED2 : UInt8 := 15

def ONION_HANDSHAKE_TYPE_TAP : UInt16 := 0

def ONION_HANDSHAKE_TYPE_FAST : UInt16 := 1

def ONION_HANDSHAKE_TYPE_NTOR : UInt16 := 2

abbrev RELAY_PAYLOAD_SIZE : Nat := 498

def TAP_ONIONSKIN_REPLY_LEN : Nat := 148

def NTOR_ONIONSKIN_LEN : Nat := 84

def NTOR_REPLY_LEN : Nat := 64

def CREATE_FAST_LEN : Nat := 20

def CREATED_FAST_LEN : Nat := 40

/-- The bytes of "ntorNTORntorNTOR". -/
def NTOR_CREATE_MAGIC : List UInt8 := [110, 116, 111, 114, 78, 84, 79, 82, 110, 116, 111, 114, 78, 84, 79, 82]

/-- A formatter returns -1, or it does not return. -/
inductive Failure where
  | refused
  | aborted
  deriving DecidableEq

/-! ## CREATE cells -/

structure CreateCell where
  cellType : UInt8
  handshakeType : UInt16
  handshakeLen : UInt16
  onionskin : Vector UInt8 (CELL_PAYLOAD_SIZE - 4)
  deriving DecidableEq

variable (cell : CreateCell)

/-- The bytes used in the onionskin. -/
def CreateCell.handshake : List UInt8 := cell.onionskin.toList.take cell.handshakeLen.toNat

/-- True for 0, false for -1. -/
def checkCreateCell (unknownOk : Bool) : Bool :=
  (if cell.cellType = CELL_CREATE then
    decide (cell.handshakeType = ONION_HANDSHAKE_TYPE_TAP ∨ cell.handshakeType = ONION_HANDSHAKE_TYPE_NTOR)
  else if cell.cellType = CELL_CREATE_FAST then decide (cell.handshakeType = ONION_HANDSHAKE_TYPE_FAST)
  else decide (cell.cellType = CELL_CREATE2)) &&
  (if cell.handshakeType = ONION_HANDSHAKE_TYPE_TAP then decide (cell.handshakeLen.toNat = TAP_ONIONSKIN_CHALLENGE_LEN)
  else if cell.handshakeType = ONION_HANDSHAKE_TYPE_FAST then decide (cell.handshakeLen.toNat = CREATE_FAST_LEN)
  else if cell.handshakeType = ONION_HANDSHAKE_TYPE_NTOR then decide (cell.handshakeLen.toNat = NTOR_ONIONSKIN_LEN)
  else unknownOk)

def createCellInit (cellType : UInt8) (handshakeType handshakeLen : UInt16) (onionskin : List UInt8) : CreateCell :=
  { cellType, handshakeType, handshakeLen, onionskin := zeroPad _ (onionskin.take handshakeLen.toNat) }

def parseCreate2Payload (p : List UInt8) (pLen : Nat) : Option CreateCell :=
  if pLen < 4 then none
  else
    let handshakeType := UInt16.ofNat (ofBE (p.take 2))
    let handshakeLen := UInt16.ofNat (ofBE ((p.drop 2).take 2))
    if handshakeLen.toNat > CELL_PAYLOAD_SIZE - 4 ∨ handshakeLen.toNat > pLen - 4 then none
    else if handshakeType = ONION_HANDSHAKE_TYPE_FAST then none
    else some (createCellInit CELL_CREATE2 handshakeType handshakeLen (p.drop 4))

def createCellParse (cellIn : Cell) : Option CreateCell :=
  let payload := cellIn.payload.toList
  let cellOut :=
    if cellIn.command = CELL_CREATE then
      if payload.take 16 = NTOR_CREATE_MAGIC then
        some (createCellInit CELL_CREATE ONION_HANDSHAKE_TYPE_NTOR (UInt16.ofNat NTOR_ONIONSKIN_LEN) (payload.drop 16))
      else some (createCellInit CELL_CREATE ONION_HANDSHAKE_TYPE_TAP (UInt16.ofNat TAP_ONIONSKIN_CHALLENGE_LEN) payload)
    else if cellIn.command = CELL_CREATE_FAST then
      some (createCellInit CELL_CREATE_FAST ONION_HANDSHAKE_TYPE_FAST (UInt16.ofNat CREATE_FAST_LEN) payload)
    else if cellIn.command = CELL_CREATE2 then parseCreate2Payload payload CELL_PAYLOAD_SIZE
    else none
  cellOut.filter (checkCreateCell · false)

variable (cellOut : Cell) (cellIn : CreateCell)

/-- The cell is one we did not originate if `relayed`. -/
def createCellFormatImpl (relayed : Bool) : Except Failure Cell :=
  if !checkCreateCell cellIn relayed then .error .refused
  else if cellIn.cellType = CELL_CREATE ∨ cellIn.cellType = CELL_CREATE_FAST then
    let magic :=
      if cellIn.cellType = CELL_CREATE ∧ cellIn.handshakeType = ONION_HANDSHAKE_TYPE_NTOR then NTOR_CREATE_MAGIC else []
    if CELL_PAYLOAD_SIZE - magic.length < cellIn.handshakeLen.toNat then .error .aborted
    else .ok { cellOut with command := cellIn.cellType, payload := zeroPad _ (magic ++ cellIn.handshake) }
  else if cellIn.cellType = CELL_CREATE2 then
    if CELL_PAYLOAD_SIZE - 4 < cellIn.handshakeLen.toNat then .error .aborted
    else
      let payload := toBE 2 cellIn.handshakeType.toNat ++ (toBE 2 cellIn.handshakeLen.toNat ++ cellIn.handshake)
      .ok { cellOut with command := cellIn.cellType, payload := zeroPad _ payload }
  else .error .refused

def createCellFormat : Except Failure Cell := createCellFormatImpl cellOut cellIn false

def createCellFormatRelayed : Except Failure Cell :=
  createCellFormatImpl cellOut cellIn true

/-! ## CREATED cells -/

structure CreatedCell where
  cellType : UInt8
  handshakeLen : UInt16
  reply : Vector UInt8 (CELL_PAYLOAD_SIZE - 2)
  deriving DecidableEq

/-- The bytes used in the reply. -/
def CreatedCell.answer (cell : CreatedCell) : List UInt8 := cell.reply.toList.take cell.handshakeLen.toNat

def checkCreatedCell (cell : CreatedCell) : Bool :=
  if cell.cellType = CELL_CREATED then
    decide (cell.handshakeLen.toNat = TAP_ONIONSKIN_REPLY_LEN ∨ cell.handshakeLen.toNat = NTOR_REPLY_LEN)
  else if cell.cellType = CELL_CREATED_FAST then decide (cell.handshakeLen.toNat = CREATED_FAST_LEN)
  else if cell.cellType = CELL_CREATED2 then decide (cell.handshakeLen.toNat ≤ RELAY_PAYLOAD_SIZE - 2)
  else true

/-- A cell with the first bytes of `src` copied into a zeroed reply. -/
def createdCellInit (cellType : UInt8) (handshakeLen : UInt16) (src : List UInt8) : CreatedCell :=
  { cellType, handshakeLen, reply := zeroPad _ (src.take handshakeLen.toNat) }

/-- With any other command the cell stays zeroed, and that passes the check. -/
def createdCellParse (cellIn : Cell) : Option CreatedCell :=
  let payload := cellIn.payload.toList
  let cellOut :=
    if cellIn.command = CELL_CREATED then some (createdCellInit CELL_CREATED (UInt16.ofNat TAP_ONIONSKIN_REPLY_LEN) payload)
    else if cellIn.command = CELL_CREATED_FAST then
      some (createdCellInit CELL_CREATED_FAST (UInt16.ofNat CREATED_FAST_LEN) payload)
    else if cellIn.command = CELL_CREATED2 then
      let handshakeLen := UInt16.ofNat (ofBE (payload.take 2))
      if handshakeLen.toNat > CELL_PAYLOAD_SIZE - 2 then none
      else some (createdCellInit CELL_CREATED2 handshakeLen (payload.drop 2))
    else some (createdCellInit 0 0 [])
  cellOut.filter checkCreatedCell

def createdCellFormat (cellIn : CreatedCell) : Except Failure Cell :=
  if !checkCreatedCell cellIn then .error .refused
  else if cellIn.cellType = CELL_CREATED ∨ cellIn.cellType = CELL_CREATED_FAST then
    if CELL_PAYLOAD_SIZE < cellIn.handshakeLen.toNat then .error .aborted
    else .ok { cellOut with command := cellIn.cellType, payload := zeroPad _ cellIn.answer }
  else if cellIn.cellType = CELL_CREATED2 then
    if CELL_PAYLOAD_SIZE - 2 < cellIn.handshakeLen.toNat then .error .aborted
    else .ok { cellOut with
      command := cellIn.cellType, payload := zeroPad _ (toBE 2 cellIn.handshakeLen.toNat ++ cellIn.answer) }
  else .error .refused

/-! ## EXTEND cells -/

structure TorAddrPort where
  addr : TorAddr
  port : UInt16
  deriving DecidableEq

/-- `tor_addr_port_is_valid_ap` for an address to connect to. -/
def torAddrPortIsValidAp (ap : TorAddrPort) : Bool := !torAddrIsNull ap.addr && decide (ap.port ≠ 0)

def torAddrToIpv4h : TorAddr → UInt32
  | .inet addr => addr
  | _ => 0

def torAddrCopyIpv6Bytes : TorAddr → Vector UInt8 16
  | .inet6 addr => addr
  | _ => zeroPad 16 []

/-- An address of the one family and one of the other, each possibly not set. -/
structure ExtendCell where
  cellType : UInt8
  orportIpv4 : TorAddrPort
  orportIpv6 : TorAddrPort
  nodeId : Vector UInt8 20
  edPubkey : Vector UInt8 32
  createCell : CreateCell
  ipv4_family : torAddrFamily orportIpv4.addr ≠ .AF_INET6
  ipv6_family : torAddrFamily orportIpv6.addr ≠ .AF_INET

/-- A relay command with its payload, of which `len` bytes are used. -/
structure RelayBody where
  command : UInt8
  len : UInt16
  payload : Vector UInt8 RELAY_PAYLOAD_SIZE

def isZero {n : Nat} (bytes : Vector UInt8 n) : Bool := bytes.toList.all (· = 0)

def checkExtendCell (cell : ExtendCell) : Bool :=
  if isZero cell.nodeId then false
  else if !torAddrPortIsValidAp cell.orportIpv4 &&
      (decide (cell.cellType ≠ RELAY_COMMAND_EXTEND2) || !torAddrPortIsValidAp cell.orportIpv6) then false
  else if cell.createCell.cellType = CELL_CREATE ∧ cell.cellType ≠ RELAY_COMMAND_EXTEND then false
  else if cell.createCell.cellType = CELL_CREATE2 ∧ cell.cellType ≠ RELAY_COMMAND_EXTEND2 ∧
      cell.cellType ≠ RELAY_COMMAND_EXTEND then false
  else if cell.createCell.cellType ≠ CELL_CREATE ∧ cell.createCell.cellType ≠ CELL_CREATE2 then false
  else if cell.createCell.handshakeType = ONION_HANDSHAKE_TYPE_FAST then false
  else checkCreateCell cell.createCell true

/-- The port that a specifier gave, or none. -/
def ipv4Orport : Option (UInt32 × UInt16) → TorAddrPort
  | none => ⟨.unspec, 0⟩
  | some (addr, port) => ⟨.inet addr, port⟩

def ipv6Orport : Option (Vector UInt8 16 × UInt16) → TorAddrPort
  | none => ⟨.unspec, 0⟩
  | some (addr, port) => ⟨.inet6 addr, port⟩

theorem ipv4Orport_family (seen : Option (UInt32 × UInt16)) : torAddrFamily (ipv4Orport seen).addr ≠ .AF_INET6 := by
  cases seen <;> exact nofun

theorem ipv6Orport_family (seen : Option (Vector UInt8 16 × UInt16)) : torAddrFamily (ipv6Orport seen).addr ≠ .AF_INET := by
  cases seen <;> exact nofun

def extendCellFromExtend1CellBody (cell : Extend1CellBody) : ExtendCell where
  cellType := RELAY_COMMAND_EXTEND
  orportIpv4 := ipv4Orport (some (cell.ipv4addr, cell.port))
  orportIpv6 := ipv6Orport none
  nodeId := cell.identity
  edPubkey := zeroPad 32 []
  createCell :=
    if cell.onionskin.toList.take 16 = NTOR_CREATE_MAGIC then
      createCellInit CELL_CREATE2 ONION_HANDSHAKE_TYPE_NTOR (UInt16.ofNat NTOR_ONIONSKIN_LEN) (cell.onionskin.toList.drop 16)
    else
      createCellInit CELL_CREATE ONION_HANDSHAKE_TYPE_TAP (UInt16.ofNat TAP_ONIONSKIN_CHALLENGE_LEN) cell.onionskin.toList
  ipv4_family := ipv4Orport_family _
  ipv6_family := ipv6Orport_family _

def createCellFromCreate2CellBody (cell : Create2CellBody) : Option CreateCell :=
  if cell.handshakeLen.toNat > CELL_PAYLOAD_SIZE - 4 then none
  else some (createCellInit CELL_CREATE2 cell.handshakeType cell.handshakeLen cell.handshakeData)

/-- What the specifiers of an EXTEND2 cell gave so far: an unset entry is a flag that is not set. -/
structure Found where
  ipv4 : Option (UInt32 × UInt16) := none
  ipv6 : Option (Vector UInt8 16 × UInt16) := none
  rsaId : Option (Vector UInt8 20) := none
  edId : Option (Vector UInt8 32) := none

/-- The first address of a family counts; a second identity of a kind is an error. -/
def Found.add (found : Found) : LinkSpecifier → Option Found
  | .ipv4 addr port => if found.ipv4.isSome then some found else some { found with ipv4 := some (addr, port) }
  | .ipv6 addr port => if found.ipv6.isSome then some found else some { found with ipv6 := some (addr, port) }
  | .legacyId id => if found.rsaId.isSome then none else some { found with rsaId := some id }
  | .ed25519Id id => if found.edId.isSome then none else some { found with edId := some id }
  | .unrecognized .. => some found

def extendCellFromExtend2CellBody (cell : Extend2CellBody) : Option ExtendCell :=
  match cell.ls.foldlM Found.add {} with
  | none => none
  | some found =>
    match found.rsaId with
    | none => none
    | some nodeId =>
      if found.ipv4.isNone && found.ipv6.isNone then none
      else
        (createCellFromCreate2CellBody cell.create2).map fun createCell =>
          { cellType := RELAY_COMMAND_EXTEND2
            orportIpv4 := ipv4Orport found.ipv4
            orportIpv6 := ipv6Orport found.ipv6
            nodeId
            edPubkey := found.edId.getD (zeroPad 32 [])
            createCell
            ipv4_family := ipv4Orport_family _
            ipv6_family := ipv6Orport_family _ }

def extendCellParse (command : UInt8) (payload : Vector UInt8 RELAY_PAYLOAD_SIZE) (payloadLength : Nat) : Option ExtendCell :=
  if payloadLength > RELAY_PAYLOAD_SIZE then none
  else
    let input := payload.toList.take payloadLength
    let cellOut :=
      if command = RELAY_COMMAND_EXTEND then (extend1CellBodyParse input).map (extendCellFromExtend1CellBody ·.1)
      else if command = RELAY_COMMAND_EXTEND2 then (extend2CellBodyParse input).bind (extendCellFromExtend2CellBody ·.1)
      else none
    cellOut.filter checkExtendCell

/-- The bytes of an onionskin in the 186 of an EXTEND cell. -/
def extendOnionskin : Vector UInt8 186 :=
  if cell.handshakeType = ONION_HANDSHAKE_TYPE_NTOR then
    zeroPad 186 (NTOR_CREATE_MAGIC ++ cell.onionskin.toList.take NTOR_ONIONSKIN_LEN)
  else zeroPad 186 (cell.onionskin.toList.take TAP_ONIONSKIN_CHALLENGE_LEN)

/-- The specifiers of an EXTEND2 cell and their number; `includeEd` is `should_include_ed25519_id_extend_cells`. -/
def extend2Specifiers (includeEd : Bool) (cellIn : ExtendCell) : UInt8 × List LinkSpecifier :=
  let ipv4 := torAddrPortIsValidAp cellIn.orportIpv4
  let ed := includeEd && !isZero cellIn.edPubkey
  let ipv6 := torAddrPortIsValidAp cellIn.orportIpv6
  (1 + (if ipv4 then 1 else 0) + (if ed then 1 else 0) + if ipv6 then 1 else 0,
    (if ipv4 then [.ipv4 (torAddrToIpv4h cellIn.orportIpv4.addr) cellIn.orportIpv4.port] else []) ++
    ([.legacyId cellIn.nodeId] ++
    ((if ed then [.ed25519Id cellIn.edPubkey] else []) ++
    if ipv6 then [.ipv6 (torAddrCopyIpv6Bytes cellIn.orportIpv6.addr) cellIn.orportIpv6.port] else [])))

def extendCellFormat (includeEd : Bool) (cellIn : ExtendCell) : Except Failure RelayBody :=
  let createCell := cellIn.createCell
  if !checkExtendCell cellIn then .error .refused
  else if cellIn.cellType = RELAY_COMMAND_EXTEND then
    .ok {
      command := RELAY_COMMAND_EXTEND
      len := UInt16.ofNat (6 + TAP_ONIONSKIN_CHALLENGE_LEN + DIGEST_LEN)
      payload := zeroPad _ (toBE 4 (torAddrToIpv4h cellIn.orportIpv4.addr).toNat ++ (toBE 2 cellIn.orportIpv4.port.toNat ++
        ((extendOnionskin createCell).toList ++ cellIn.nodeId.toList))) }
  else if cellIn.cellType = RELAY_COMMAND_EXTEND2 then
    -- the handshake is copied before the encoder looks for room
    if CELL_PAYLOAD_SIZE - 4 < createCell.handshakeLen.toNat then .error .aborted
    else
      let specifiers := extend2Specifiers includeEd cellIn
      let create2 : Create2CellBody :=
        { handshakeType := createCell.handshakeType
          handshakeLen := createCell.handshakeLen
          handshakeData := createCell.handshake }
      match extend2CellBodyEncode RELAY_PAYLOAD_SIZE { nSpec := specifiers.1, ls := specifiers.2, create2 } with
      | none => .error .refused
      | some out =>
        if out.length > 65535 then .error .refused
        else .ok { command := RELAY_COMMAND_EXTEND2, len := UInt16.ofNat out.length, payload := zeroPad _ out }
  else .error .refused

/-! ## EXTENDED cells -/

structure ExtendedCell where
  cellType : UInt8
  createdCell : CreatedCell
  deriving DecidableEq

def checkExtendedCell (cell : ExtendedCell) : Bool :=
  if cell.createdCell.cellType = CELL_CREATED then
    decide (cell.cellType = RELAY_COMMAND_EXTENDED) && checkCreatedCell cell.createdCell
  else if cell.createdCell.cellType = CELL_CREATED2 then
    decide (cell.cellType = RELAY_COMMAND_EXTENDED2) && checkCreatedCell cell.createdCell
  else false

/-- The difference `payload_len - 2` is one of 64-bit numbers. -/
def extendedCellParse (command : UInt8) (payload : Vector UInt8 RELAY_PAYLOAD_SIZE) (payloadLen : Nat) : Option ExtendedCell :=
  if payloadLen > RELAY_PAYLOAD_SIZE then none
  else
    let cellOut : Option ExtendedCell :=
      if command = RELAY_COMMAND_EXTENDED then
        if payloadLen ≠ TAP_ONIONSKIN_REPLY_LEN then none
        else some ⟨RELAY_COMMAND_EXTENDED, createdCellInit CELL_CREATED (UInt16.ofNat TAP_ONIONSKIN_REPLY_LEN) payload.toList⟩
      else if command = RELAY_COMMAND_EXTENDED2 then
        let handshakeLen := UInt16.ofNat (ofBE (payload.toList.take 2))
        if handshakeLen.toNat > RELAY_PAYLOAD_SIZE - 2 ∨
            handshakeLen.toNat > (payloadLen + 18446744073709551616 - 2) % 18446744073709551616 then none
        else some ⟨RELAY_COMMAND_EXTENDED2, createdCellInit CELL_CREATED2 handshakeLen (payload.toList.drop 2)⟩
      else none
    cellOut.filter checkExtendedCell

def extendedCellFormat (cellIn : ExtendedCell) : Option RelayBody :=
  if !checkExtendedCell cellIn then none
  else if cellIn.cellType = RELAY_COMMAND_EXTENDED then
    some {
      command := RELAY_COMMAND_EXTENDED
      len := UInt16.ofNat TAP_ONIONSKIN_REPLY_LEN
      payload := zeroPad _ (cellIn.createdCell.reply.toList.take TAP_ONIONSKIN_REPLY_LEN) }
  else if cellIn.cellType = RELAY_COMMAND_EXTENDED2 then
    if 2 + cellIn.createdCell.handshakeLen.toNat > RELAY_PAYLOAD_SIZE then none
    else some {
      command := RELAY_COMMAND_EXTENDED2
      len := 2 + cellIn.createdCell.handshakeLen
      payload := zeroPad _ (toBE 2 cellIn.createdCell.handshakeLen.toNat ++ cellIn.createdCell.answer) }
  else none

/-- The cell that `command_process_created_cell` makes at a relay from a parsed CREATED cell. -/
def extendedOfCreated (created : CreatedCell) : ExtendedCell where
  cellType := if created.cellType = CELL_CREATED2 then RELAY_COMMAND_EXTENDED2 else RELAY_COMMAND_EXTENDED
  createdCell := created

end Badnet.Cells

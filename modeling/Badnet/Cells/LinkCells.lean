/-
  Badnet.Cells.LinkCells — cells on a link (`cell_pack`, `cell_unpack`, `var_cell_pack_header` and
  `connection_or_process_cells_from_inbuf` of `core/or/connection_or.c`, `core/proto/proto_cell.c`).

  The inbuf is the list of its bytes (`Badnet.Buf.Queue`). When both ends agree on the width of circuit IDs, one turn of
  the loop undoes the packing of either kind of cell (`linkCells_framed`), so that the cells of a stream come out in
  order however it is cut into reads (`link_cells_delivered`).
-/

import Badnet.Lib.Bytes
import Badnet.Lib.Framing
import Badnet.Relay.Crypto

namespace Badnet.Cells

open Lib Relay

/-! ## Cells and their packed form -/

def CELL_MAX_NETWORK_SIZE : Nat := 514

def VAR_CELL_MAX_HEADER_SIZE : Nat := 7

def MIN_LINK_PROTO_FOR_WIDE_CIRC_IDS : Nat := 4

def CELL_VERSIONS : UInt8 := 7

variable (wideCircIds : Bool)

def getCellNetworkSize : Nat := if wideCircIds then CELL_MAX_NETWORK_SIZE else CELL_MAX_NETWORK_SIZE - 2

def getVarCellHeaderSize : Nat :=
  if wideCircIds then VAR_CELL_MAX_HEADER_SIZE else VAR_CELL_MAX_HEADER_SIZE - 2

def getCircIdSize : Nat := if wideCircIds then 4 else 2

structure Cell where
  circId : UInt32
  command : UInt8
  payload : Payload
  deriving DecidableEq

/-- The length of the payload is kept in 16 bits. -/
@[ext] structure VarCell where
  command : UInt8
  circId : UInt32
  payload : List UInt8
  payload_lt : payload.length < 65536
  deriving DecidableEq

/-- `set_uint32` of `htonl`, or `set_uint16` of `htons`, which takes the low half. -/
def circIdBytes (circId : UInt32) : List UInt8 :=
  if wideCircIds then toBE 4 circId.toNat else toBE 2 (circId.toNat % 65536)

/-- `ntohl` of `get_uint32`, or `ntohs` of `get_uint16`, at the start of some bytes. -/
def readCircId (src : List UInt8) : UInt32 := UInt32.ofNat (ofBE (src.take (getCircIdSize wideCircIds)))

/-- The body of the packed cell, of `CELL_MAX_NETWORK_SIZE` bytes. -/
def cellPack (src : Cell) (wideCircIds : Bool) : List UInt8 :=
  circIdBytes wideCircIds src.circId ++ src.command :: src.payload.toList ++ if wideCircIds then [] else [0, 0]

def cellUnpack (src : List UInt8) (wideCircIds : Bool) : Cell where
  circId := readCircId wideCircIds src
  command := src.getD (getCircIdSize wideCircIds) 0
  payload := Vector.ofFn fun i => src.getD (getCircIdSize wideCircIds + 1 + i) 0

variable (cell : VarCell)

def varCellPackHeader (wideCircIds : Bool) : List UInt8 :=
  circIdBytes wideCircIds cell.circId ++ cell.command :: toBE 2 cell.payload.length

/-! ## Taking cells off the inbuf -/

def cellCommandIsVarLength (command : UInt8) (linkproto : Nat) : Bool :=
  match linkproto with
  | 1 => false
  | 2 => command == CELL_VERSIONS
  | _ => command == CELL_VERSIONS || decide (128 ≤ command)

/-- The answers of `fetch_var_cell_from_buf`: 0, 1 with no cell, and 1 with a cell that is no longer on the buffer. -/
inductive VarFetch where
  | notVar
  | notYet
  | found (cell : VarCell) (rest : List UInt8)

def fetchVarCellFromBuf (buf : List UInt8) (linkproto : Nat) : VarFetch :=
  let wideCircIds := decide (MIN_LINK_PROTO_FOR_WIDE_CIRC_IDS ≤ linkproto)
  let circIdLen := getCircIdSize wideCircIds
  let headerLen := getVarCellHeaderSize wideCircIds
  if buf.length < headerLen then .notVar
  else
    let hdr := buf.take headerLen
    let command := hdr.getD circIdLen 0
    if !cellCommandIsVarLength command linkproto then .notVar
    else
      let length := UInt16.ofNat (ofBE ((hdr.drop (circIdLen + 1)).take 2))
      if buf.length < headerLen + length.toNat then .notYet
      else
        let payload := (buf.drop headerLen).take length.toNat
        have hlt : payload.length < 65536 :=
          Nat.lt_of_le_of_lt (Nat.le_trans (Nat.le_of_eq List.length_take) (Nat.min_le_left ..)) length.toNat_lt
        .found { command, circId := readCircId wideCircIds hdr, payload, payload_lt := hlt }
          ((buf.drop headerLen).drop length.toNat)

/-- What the loop hands to `channel_tls_handle_cell` or to `channel_tls_handle_var_cell`. -/
inductive LinkCell where
  | fixed (cell : Cell)
  | var (cell : VarCell)
  deriving DecidableEq

variable (linkProto : Nat)

/-- One turn of the loop: none is a return. -/
def nextCell (wideCircIds : Bool) (inbuf : List UInt8) : Option (LinkCell × List UInt8) :=
  match fetchVarCellFromBuf inbuf linkProto with
  | .notYet => none
  | .found cell rest => some (.var cell, rest)
  | .notVar =>
    let cellNetworkSize := getCellNetworkSize wideCircIds
    if inbuf.length < cellNetworkSize then none
    else some (.fixed (cellUnpack (inbuf.take cellNetworkSize) wideCircIds), inbuf.drop cellNetworkSize)

theorem fetchVarCellFromBuf_shorter {buf rest : List UInt8} {linkproto : Nat} {cell : VarCell}
    (h : fetchVarCellFromBuf buf linkproto = .found cell rest) : rest.length < buf.length := by
  have hpos : 0 < getVarCellHeaderSize (decide (MIN_LINK_PROTO_FOR_WIDE_CIRC_IDS ≤ linkproto)) := by
    unfold getVarCellHeaderSize
    split <;> decide
  simp only [fetchVarCellFromBuf] at h
  split at h
  · cases h
  · split at h
    · cases h
    · split at h
      · cases h
      · cases h
        simp only [List.length_drop]
        omega

theorem nextCell_shorter {linkProto : Nat} {wideCircIds : Bool} {inbuf rest : List UInt8} {cell : LinkCell}
    (h : nextCell linkProto wideCircIds inbuf = some (cell, rest)) : rest.length < inbuf.length := by
  have hpos : 0 < getCellNetworkSize wideCircIds := by
    unfold getCellNetworkSize
    split <;> decide
  unfold nextCell at h
  split at h
  · cases h
  next hfound =>
    cases h
    exact fetchVarCellFromBuf_shorter hfound
  · simp only at h
    split at h
    · cases h
    · cases h
      rw [List.length_drop]
      omega

/-- The cells that the loop hands out, and the inbuf when it returns. -/
def connectionOrProcessCellsFromInbuf (linkProto : Nat) (wideCircIds : Bool) (inbuf : List UInt8) :
    List LinkCell × List UInt8 :=
  match _h : nextCell linkProto wideCircIds inbuf with
  | none => ([], inbuf)
  | some (cell, rest) =>
    let (cells, left) := connectionOrProcessCellsFromInbuf linkProto wideCircIds rest
    (cell :: cells, left)
termination_by inbuf.length
decreasing_by exact nextCell_shorter _h

theorem processCells_isLoop (wideCircIds : Bool) :
    IsLoop (nextCell linkProto wideCircIds) (connectionOrProcessCellsFromInbuf linkProto wideCircIds) := by
  intro bytes
  rw [connectionOrProcessCellsFromInbuf]
  split <;> simp_all

/-! ## A turn of the loop undoes the packing -/

/-- The bytes of a cell on the link: `connection_or_write_cell_to_buf` and `connection_or_write_var_cell_to_buf`. -/
def LinkCell.packed : LinkCell → List UInt8
  | .fixed cell => (cellPack cell wideCircIds).take (getCellNetworkSize wideCircIds)
  | .var cell => varCellPackHeader cell wideCircIds ++ cell.payload

/-- A circuit ID that the link's IDs are wide enough for. -/
def CircIdFits (circId : UInt32) : Prop := wideCircIds = true ∨ circId.toNat < 65536

/-- The kind of a cell goes with its command, and its circuit ID fits. -/
def LinkCell.Fits (wideCircIds : Bool) : LinkCell → Prop
  | .fixed cell => cellCommandIsVarLength cell.command linkProto = false ∧ CircIdFits wideCircIds cell.circId
  | .var cell => cellCommandIsVarLength cell.command linkProto = true ∧ CircIdFits wideCircIds cell.circId

variable (wide : Bool)

@[simp] theorem length_circIdBytes (circId : UInt32) : (circIdBytes wide circId).length = getCircIdSize wide := by
  cases wide <;> simp [circIdBytes, getCircIdSize]

theorem readCircId_circIdBytes {wide : Bool} {circId : UInt32} (h : CircIdFits wide circId) (more : List UInt8) :
    readCircId wide (circIdBytes wide circId ++ more) = circId := by
  rw [readCircId, List.take_left' (length_circIdBytes wide circId)]
  apply UInt32.toNat_inj.mp
  have hlt := circId.toNat_lt
  rcases wide with _ | _
  · have hfits : circId.toNat < 65536 := h.resolve_left nofun
    simp only [circIdBytes, Bool.false_eq_true, if_false]
    rw [Nat.mod_eq_of_lt hfits, ofBE_toBE hfits, UInt32.toNat_ofNat_of_lt' hlt]
  · simp only [circIdBytes, if_true]
    rw [ofBE_toBE hlt, UInt32.toNat_ofNat_of_lt' hlt]

theorem length_fixedBytes (cell : Cell) :
    (circIdBytes wide cell.circId ++ cell.command :: cell.payload.toList).length = getCellNetworkSize wide := by
  cases wide <;> simp [getCellNetworkSize, getCircIdSize, CELL_MAX_NETWORK_SIZE, CELL_PAYLOAD_SIZE]

theorem packed_fixed (cell : Cell) :
    (LinkCell.fixed cell).packed wide = circIdBytes wide cell.circId ++ cell.command :: cell.payload.toList := by
  rw [LinkCell.packed, cellPack, List.take_left' (length_fixedBytes wide cell)]

theorem length_packed_fixed (cell : Cell) : ((LinkCell.fixed cell).packed wide).length = getCellNetworkSize wide := by
  rw [packed_fixed, length_fixedBytes]

theorem cellUnpack_packed {wide : Bool} {cell : Cell} (h : CircIdFits wide cell.circId) :
    cellUnpack ((LinkCell.fixed cell).packed wide) wide = cell := by
  have hcommand : ((LinkCell.fixed cell).packed wide).getD (getCircIdSize wide) 0 = cell.command := by
    simp [packed_fixed]
  have hpayload : (Vector.ofFn fun i : Fin CELL_PAYLOAD_SIZE =>
      ((LinkCell.fixed cell).packed wide).getD (getCircIdSize wide + 1 + i) 0) = cell.payload := by
    apply Vector.ext
    intro i hi
    simp [packed_fixed, Nat.add_assoc, Nat.add_comm 1]
  have hid : readCircId wide ((LinkCell.fixed cell).packed wide) = cell.circId := by
    rw [packed_fixed, readCircId_circIdBytes h]
  rw [cellUnpack, hid, hcommand, hpayload]

/-! ### What the start of a packed cell says -/

section
variable {linkProto : Nat} {cell : LinkCell}

/-- The width of circuit IDs that the version implies. -/
abbrev wideOf (linkProto : Nat) : Bool := decide (MIN_LINK_PROTO_FOR_WIDE_CIRC_IDS ≤ linkProto)

def LinkCell.command : LinkCell → UInt8
  | .fixed cell => cell.command
  | .var cell => cell.command

def LinkCell.circId : LinkCell → UInt32
  | .fixed cell => cell.circId
  | .var cell => cell.circId

theorem packed_start (cell : LinkCell) :
    ∃ more, cell.packed wide = circIdBytes wide cell.circId ++ cell.command :: more ∧ 2 ≤ more.length := by
  cases cell with
  | fixed cell => exact ⟨cell.payload.toList, packed_fixed wide cell, by simp [CELL_PAYLOAD_SIZE]⟩
  | var cell => exact ⟨toBE 2 cell.payload.length ++ cell.payload, by simp [LinkCell.packed, varCellPackHeader,
      LinkCell.circId, LinkCell.command], by simp⟩

theorem getVarCellHeaderSize_eq : getVarCellHeaderSize wide = getCircIdSize wide + 3 := by
  cases wide <;> rfl

theorem headerSize_le_packed (cell : LinkCell) : getVarCellHeaderSize wide ≤ (cell.packed wide).length := by
  obtain ⟨more, hpacked, hmore⟩ := packed_start wide cell
  rw [hpacked, getVarCellHeaderSize_eq]
  simp
  omega

/-- A start of a cell that holds a header holds the cell's. -/
theorem header_of_start {wide : Bool} {start rest : List UInt8} (hstart : start ++ rest = cell.packed wide)
    (hlen : ¬ start.length < getVarCellHeaderSize wide) :
    start.take (getVarCellHeaderSize wide) = (cell.packed wide).take (getVarCellHeaderSize wide) := by
  rw [← hstart, List.take_append_of_le_length (Nat.le_of_not_lt hlen)]

theorem command_of_header (cell : LinkCell) :
    ((cell.packed wide).take (getVarCellHeaderSize wide)).getD (getCircIdSize wide) 0 = cell.command := by
  obtain ⟨more, hpacked, -⟩ := packed_start wide cell
  rw [hpacked, getVarCellHeaderSize_eq]
  simp

end

/-! ### Both kinds of cells -/

section
variable {linkProto : Nat}

theorem fetch_of_fixed {cell : Cell} {buf : List UInt8} (hvar : cellCommandIsVarLength cell.command linkProto = false)
    (hhdr : ¬ buf.length < getVarCellHeaderSize (wideOf linkProto) → buf.take (getVarCellHeaderSize (wideOf linkProto)) =
      ((LinkCell.fixed cell).packed (wideOf linkProto)).take (getVarCellHeaderSize (wideOf linkProto))) :
    fetchVarCellFromBuf buf linkProto = .notVar := by
  unfold fetchVarCellFromBuf
  by_cases hlen : buf.length < getVarCellHeaderSize (wideOf linkProto)
  · exact if_pos hlen
  · have hcommand : (buf.take (getVarCellHeaderSize (wideOf linkProto))).getD (getCircIdSize (wideOf linkProto)) 0 =
        cell.command := by
      rw [hhdr hlen, command_of_header]
      rfl
    simp only [if_neg hlen, hcommand, hvar, Bool.not_false, if_true]

@[simp] theorem length_varCellPackHeader (wide : Bool) :
    (varCellPackHeader cell wide).length = getVarCellHeaderSize wide := by
  rw [varCellPackHeader, getVarCellHeaderSize_eq]
  simp

theorem length_of_header (wide : Bool) :
    (UInt16.ofNat (ofBE (((varCellPackHeader cell wide).drop (getCircIdSize wide + 1)).take 2))).toNat =
      cell.payload.length := by
  have hdrop : ((varCellPackHeader cell wide).drop (getCircIdSize wide + 1)).take 2 = toBE 2 cell.payload.length := by
    rw [varCellPackHeader, List.append_cons, List.drop_left' (by simp), List.take_of_length_le (by simp)]
  rw [hdrop, ofBE_toBE cell.payload_lt, UInt16.toNat_ofNat_of_lt' cell.payload_lt]

/-- What the fetch does once the header of a variable-length cell is there. -/
theorem fetch_of_header {cell : VarCell} {buf more : List UInt8} (hvar : cellCommandIsVarLength cell.command linkProto = true)
    (hbuf : buf = varCellPackHeader cell (wideOf linkProto) ++ more) :
    (more.length < cell.payload.length → fetchVarCellFromBuf buf linkProto = .notYet) ∧
    (CircIdFits (wideOf linkProto) cell.circId → ∀ rest, more = cell.payload ++ rest →
      fetchVarCellFromBuf buf linkProto = .found cell rest) := by
  have hlen : buf.length = getVarCellHeaderSize (wideOf linkProto) + more.length := by
    rw [hbuf, List.length_append, length_varCellPackHeader]
  have hhdr : buf.take (getVarCellHeaderSize (wideOf linkProto)) = varCellPackHeader cell (wideOf linkProto) := by
    rw [hbuf, List.take_left' (length_varCellPackHeader ..)]
  have hdrop : buf.drop (getVarCellHeaderSize (wideOf linkProto)) = more := by
    rw [hbuf, List.drop_left' (length_varCellPackHeader ..)]
  have hcommand : (varCellPackHeader cell (wideOf linkProto)).getD (getCircIdSize (wideOf linkProto)) 0 = cell.command := by
    simp [varCellPackHeader]
  have hlong : ¬ getVarCellHeaderSize (wideOf linkProto) + more.length < getVarCellHeaderSize (wideOf linkProto) := by omega
  refine ⟨fun hshort => ?_, fun hfits rest hmore => ?_⟩
  · have hyet : getVarCellHeaderSize (wideOf linkProto) + more.length <
        getVarCellHeaderSize (wideOf linkProto) + cell.payload.length := by omega
    simp only [fetchVarCellFromBuf, hhdr, hcommand, hvar, length_of_header, hlen, if_neg hlong, if_pos hyet, Bool.not_true,
      Bool.false_eq_true, if_false]
  · have hnow : ¬ getVarCellHeaderSize (wideOf linkProto) + more.length <
        getVarCellHeaderSize (wideOf linkProto) + cell.payload.length := by
      rw [hmore, List.length_append]
      omega
    simp only [fetchVarCellFromBuf, hhdr, hcommand, hvar, length_of_header, hlen, hdrop, if_neg hlong, if_neg hnow,
      Bool.not_true, Bool.false_eq_true, if_false]
    refine congrArg₂ VarFetch.found (VarCell.ext rfl ?_ ?_) ?_
    · exact readCircId_circIdBytes hfits _
    · have htake : more.take cell.payload.length = cell.payload := by rw [hmore, List.take_left' rfl]
      exact htake
    · rw [hmore, List.drop_left' rfl]

/-- One turn of the loop undoes the packing of a cell, when the flag follows the version. -/
theorem linkCells_framed (linkProto : Nat) :
    Framed (LinkCell.packed (wideOf linkProto)) (nextCell linkProto (wideOf linkProto))
      (LinkCell.Fits linkProto (wideOf linkProto)) where
  whole := by
    intro cell hfits rest
    cases cell with
    | fixed cell =>
      have hhdr : ((LinkCell.fixed cell).packed (wideOf linkProto) ++ rest).take (getVarCellHeaderSize (wideOf linkProto)) =
          ((LinkCell.fixed cell).packed (wideOf linkProto)).take (getVarCellHeaderSize (wideOf linkProto)) :=
        List.take_append_of_le_length (headerSize_le_packed (wideOf linkProto) (.fixed cell))
      have hlen : ¬ ((LinkCell.fixed cell).packed (wideOf linkProto) ++ rest).length <
          getCellNetworkSize (wideOf linkProto) := by
        rw [List.length_append, length_packed_fixed]
        omega
      simp only [nextCell, fetch_of_fixed hfits.1 fun _ => hhdr, if_neg hlen]
      rw [List.take_left' (length_packed_fixed ..), List.drop_left' (length_packed_fixed ..), cellUnpack_packed hfits.2]
    | var cell =>
      have hbuf : (LinkCell.var cell).packed (wideOf linkProto) ++ rest =
          varCellPackHeader cell (wideOf linkProto) ++ (cell.payload ++ rest) := List.append_assoc ..
      simp only [nextCell, (fetch_of_header hfits.1 hbuf).2 hfits.2 rest rfl]
  part := by
    intro cell hfits start rest hstart hrest
    have hshort : start.length < (cell.packed (wideOf linkProto)).length := by
      rw [← hstart, List.length_append]
      exact Nat.lt_add_of_pos_right (List.length_pos_iff.mpr hrest)
    cases cell with
    | fixed cell =>
      rw [length_packed_fixed] at hshort
      simp only [nextCell, fetch_of_fixed hfits.1 (header_of_start hstart), if_pos hshort]
    | var cell =>
      by_cases hlen : start.length < getVarCellHeaderSize (wideOf linkProto)
      · -- the header is not complete: the loop takes this for a fixed-size cell, which is longer still
        have hnet : start.length < getCellNetworkSize (wideOf linkProto) := by
          revert hlen
          cases wideOf linkProto <;> simp [getVarCellHeaderSize, getCellNetworkSize, VAR_CELL_MAX_HEADER_SIZE,
            CELL_MAX_NETWORK_SIZE] <;> omega
        simp only [nextCell, fetchVarCellFromBuf, if_pos hlen, if_pos hnet]
      · obtain ⟨more, hmore⟩ : ∃ more, start = varCellPackHeader cell (wideOf linkProto) ++ more := by
          have hhdr := header_of_start hstart hlen
          rw [LinkCell.packed, List.take_left' (length_varCellPackHeader ..)] at hhdr
          exact ⟨start.drop (getVarCellHeaderSize (wideOf linkProto)), by rw [← hhdr, List.take_append_drop]⟩
        have hlt : more.length < cell.payload.length := by
          rw [hmore, LinkCell.packed, List.length_append, List.length_append] at hshort
          omega
        simp only [nextCell, (fetch_of_header hfits.1 hmore).1 hlt]
  nothing := by
    have hlen : 0 < getVarCellHeaderSize (wideOf linkProto) := by rw [getVarCellHeaderSize_eq]; omega
    have hnet : 0 < getCellNetworkSize (wideOf linkProto) := by cases wideOf linkProto <;> decide
    simp only [nextCell, fetchVarCellFromBuf, List.length_nil, if_pos hlen, if_pos hnet]

end

/-! ## The link -/

/-- The cells handed out over some reads, with the loop run after each, and the inbuf at the end. -/
def linkRun (wideCircIds : Bool) (reads : List (List UInt8)) : List LinkCell × List UInt8 :=
  feed (connectionOrProcessCellsFromInbuf linkProto wideCircIds) [] reads

/-- A link delivers the cells of a stream, however it is cut: after each read the complete cells have been handed out
and the inbuf holds the start of the next one. -/
theorem link_cells_delivered (linkProto : Nat) (wideCircIds : Bool)
    (hwide : wideCircIds = true ↔ 4 ≤ linkProto) (cells : List LinkCell)
    (hcells : ∀ cell ∈ cells, cell.Fits linkProto wideCircIds) (reads : List (List UInt8))
    (hreads : reads.flatten = cells.flatMap (LinkCell.packed wideCircIds)) :
    linkRun linkProto wideCircIds reads = (cells, []) ∧
    ∀ k, ∃ done todo, cells = done ++ todo ∧ (linkRun linkProto wideCircIds (reads.take k)).1 = done ∧
      (reads.take k).flatten = done.flatMap (LinkCell.packed wideCircIds) ++ (linkRun linkProto wideCircIds (reads.take k)).2 ∧
      Tail (LinkCell.packed wideCircIds) (linkRun linkProto wideCircIds (reads.take k)).2 todo := by
  obtain rfl : wideCircIds = wideOf linkProto := Bool.eq_iff_iff.mpr (hwide.trans decide_eq_true_iff.symm)
  have hloop := processCells_isLoop linkProto (wideOf linkProto)
  have hframed := linkCells_framed linkProto
  refine ⟨feed_all hloop hframed hcells hreads, fun k => ?_⟩
  have hstream : [] ++ (reads.take k).flatten ++ (reads.drop k).flatten = cells.flatMap (LinkCell.packed (wideOf linkProto)) := by
    rw [List.nil_append, ← List.flatten_append, List.take_append_drop, hreads]
  exact feed_spec hloop hframed hcells (hframed.nil_short hcells) hstream

/-- A VERSIONS cell and a PADDING cell on a link of version 3, with a first read that ends inside a header. -/
def versionsThenPadding : List LinkCell :=
  [.var ⟨CELL_VERSIONS, 0, [0, 3, 0, 4], by decide⟩, .fixed ⟨9, 0, Vector.replicate CELL_PAYLOAD_SIZE 1⟩]

theorem link_cells_delivered_of_versions :
    linkRun 3 false [(versionsThenPadding.flatMap (LinkCell.packed false)).take 3,
      (versionsThenPadding.flatMap (LinkCell.packed false)).drop 3] = (versionsThenPadding, []) := by
  refine (link_cells_delivered 3 false (by decide) versionsThenPadding ?_ _ ?_).1
  · intro cell hcell
    rcases List.mem_pair.mp hcell with rfl | rfl
    · exact ⟨by decide, .inr (by decide)⟩
    · exact ⟨by decide, .inr (by decide)⟩
  · rw [List.flatten_cons, List.flatten_cons, List.flatten_nil, List.append_nil, List.take_append_drop]

end Badnet.Cells

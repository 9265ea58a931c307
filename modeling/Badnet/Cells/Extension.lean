/-
  Badnet.Cells.Extension — a handshake through a relay (`core/or/onion.c`, with `command_process_created_cell` of
  `core/or/command.c`).

  Every step from the client to the next hop keeps the type, the length and the bytes of the handshake, also where it
  changes the kind of cell (`extend_reaches_next_hop`), and so does every step back (`reply_reaches_client`); an ntor
  reply in a CREATED cell arrives with zeros behind it, since nothing in the cell says how long it is.
-/

import Badnet.Cells.Onion

namespace Badnet.Cells

open Lib Relay Net

/-! ## CREATE cells to the next hop -/

/-- Two create cells with one handshake, whatever kind of cell it is in. -/
structure SameHandshake (a b : CreateCell) : Prop where
  handshakeType : a.handshakeType = b.handshakeType
  handshakeLen : a.handshakeLen = b.handshakeLen
  handshake : a.handshake = b.handshake

variable {cell : CreateCell}

theorem length_handshake (h : cell.handshakeLen.toNat ≤ CELL_PAYLOAD_SIZE - 4) :
    cell.handshake.length = cell.handshakeLen.toNat := by
  rw [CreateCell.handshake, List.length_take, Vector.length_toList, Nat.min_eq_left h]

theorem handshake_init {cellType : UInt8} {handshakeType len : UInt16} {src : List UInt8}
    (hlen : len.toNat ≤ CELL_PAYLOAD_SIZE - 4) (hsrc : len.toNat ≤ src.length) :
    (createCellInit cellType handshakeType len src).handshake = src.take len.toNat := by
  have htake : (src.take len.toNat).length = len.toNat := List.length_take_of_le hsrc
  rw [CreateCell.handshake, createCellInit, take_zeroPad (by rw [htake]; exact hlen) (Nat.le_of_eq htake.symm),
    List.take_take, Nat.min_self]

/-- A cell made from the handshake of another. -/
theorem same_init (cellType : UInt8) (more : List UInt8) (hlen : cell.handshakeLen.toNat ≤ CELL_PAYLOAD_SIZE - 4) :
    SameHandshake (createCellInit cellType cell.handshakeType cell.handshakeLen (cell.handshake ++ more)) cell where
  handshakeType := rfl
  handshakeLen := rfl
  handshake := by
    have hlength := length_handshake hlen
    rw [handshake_init hlen (by rw [List.length_append]; omega), List.take_left' hlength]

/-- The check reads only the kinds and the length, so that it passes a known handshake however strict. -/
theorem checkCreateCell_known {cell' : CreateCell} (hsame : SameHandshake cell' cell)
    (hkind : cell'.cellType = cell.cellType) (hcheck : checkCreateCell cell true = true)
    (hknown : cell.handshakeType = ONION_HANDSHAKE_TYPE_TAP ∨ cell.handshakeType = ONION_HANDSHAKE_TYPE_NTOR) :
    checkCreateCell cell' false = true := by
  have heq : checkCreateCell cell' false = checkCreateCell cell true := by
    unfold checkCreateCell
    rw [hsame.handshakeType, hsame.handshakeLen, hkind]
    rcases hknown with hknown | hknown
    · rw [hknown, if_pos rfl, if_pos rfl]
    · rw [hknown]
      rfl
  rw [heq, hcheck]

/-- What the next hop makes of a create cell from a relay: it refuses it, or it has the handshake; with a handshake
    that it knows, it does not refuse. -/
def Reaches (cell : CreateCell) (out : Cell) : Prop :=
  (∀ parsed, createCellParse out = some parsed → SameHandshake parsed cell) ∧
  (cell.handshakeType = ONION_HANDSHAKE_TYPE_TAP ∨ cell.handshakeType = ONION_HANDSHAKE_TYPE_NTOR →
    (createCellParse out).isSome = true)

theorem reaches_of_init {cell' : CreateCell} {out : Cell}
    (hparse : createCellParse out = (some cell').filter (checkCreateCell · false))
    (hsame : SameHandshake cell' cell) (hkind : cell'.cellType = cell.cellType) (hcheck : checkCreateCell cell true = true) :
    Reaches cell out := by
  refine ⟨fun parsed hparsed => ?_, fun hknown => ?_⟩
  · rw [hparse] at hparsed
    obtain ⟨rfl, -⟩ := Option.filter_eq_some_iff.mp hparsed |>.imp Option.some.inj id
    exact hsame
  · rw [hparse, Option.filter_some, if_pos (checkCreateCell_known hsame hkind hcheck hknown)]
    rfl

theorem createCellParse_create2 {cellIn : Cell} (h : cellIn.command = CELL_CREATE2) :
    createCellParse cellIn =
      (parseCreate2Payload cellIn.payload.toList CELL_PAYLOAD_SIZE).filter (checkCreateCell · false) := by
  unfold createCellParse
  rw [h]
  rfl

theorem createCellParse_tap {cellIn : Cell} (h : cellIn.command = CELL_CREATE)
    (hmagic : cellIn.payload.toList.take 16 ≠ NTOR_CREATE_MAGIC) :
    createCellParse cellIn = (some (createCellInit CELL_CREATE ONION_HANDSHAKE_TYPE_TAP
      (UInt16.ofNat TAP_ONIONSKIN_CHALLENGE_LEN) cellIn.payload.toList)).filter (checkCreateCell · false) := by
  simp only [createCellParse, h, if_true, if_neg hmagic]

theorem create2_reaches (hkind : cell.cellType = CELL_CREATE2) (hcheck : checkCreateCell cell true = true)
    (hfast : cell.handshakeType ≠ ONION_HANDSHAKE_TYPE_FAST) (hlen : cell.handshakeLen.toNat ≤ CELL_PAYLOAD_SIZE - 4)
    (cellOut : Cell) : ∃ out, createCellFormatRelayed cellOut cell = .ok out ∧ Reaches cell out := by
  have hlength := length_handshake hlen
  let header := toBE 2 cell.handshakeType.toNat ++ (toBE 2 cell.handshakeLen.toNat ++ cell.handshake)
  have hroom : header.length ≤ CELL_PAYLOAD_SIZE := by
    simp only [header, List.length_append, length_toBE, hlength, CELL_PAYLOAD_SIZE] at hlen ⊢
    omega
  have hpayload := toList_zeroPad hroom
  refine ⟨{ cellOut with command := CELL_CREATE2, payload := zeroPad _ header }, ?_, ?_⟩
  · have hne : ¬ (CELL_CREATE2 = CELL_CREATE ∨ CELL_CREATE2 = CELL_CREATE_FAST) := by decide
    simp only [createCellFormatRelayed, createCellFormatImpl, hcheck, Bool.not_true, Bool.false_eq_true, if_false, hkind,
      if_neg hne, if_true, if_neg (Nat.not_lt.mpr hlen), header]
  · have htype : (zeroPad CELL_PAYLOAD_SIZE header).toList.take 2 = toBE 2 cell.handshakeType.toNat := by
      rw [hpayload]
      simp only [header, List.append_assoc]
      exact List.take_left' (length_toBE ..)
    have hlenBytes : ((zeroPad CELL_PAYLOAD_SIZE header).toList.drop 2).take 2 = toBE 2 cell.handshakeLen.toNat := by
      rw [hpayload]
      simp only [header, List.append_assoc]
      rw [List.drop_left' (length_toBE ..), List.take_left' (length_toBE ..)]
    have hbytes : (zeroPad CELL_PAYLOAD_SIZE header).toList.drop 4 =
        cell.handshake ++ List.replicate (CELL_PAYLOAD_SIZE - header.length) 0 := by
      rw [hpayload]
      simp only [header, List.append_assoc]
      rw [← List.append_assoc (toBE 2 _), List.drop_left' (by simp)]
    have hparse : parseCreate2Payload (zeroPad CELL_PAYLOAD_SIZE header).toList CELL_PAYLOAD_SIZE =
        some (createCellInit CELL_CREATE2 cell.handshakeType cell.handshakeLen
          (cell.handshake ++ List.replicate (CELL_PAYLOAD_SIZE - header.length) 0)) := by
      have hfits : ¬ (cell.handshakeLen.toNat > CELL_PAYLOAD_SIZE - 4 ∨ cell.handshakeLen.toNat > CELL_PAYLOAD_SIZE - 4) := by
        omega
      simp only [parseCreate2Payload, htype, hlenBytes, hbytes, uint16_ofBE_toBE, if_neg hfits, if_neg hfast]
      rfl
    have hsame := same_init CELL_CREATE2 (List.replicate (CELL_PAYLOAD_SIZE - header.length) 0) hlen
    refine reaches_of_init ?_ hsame hkind.symm hcheck
    rw [createCellParse_create2 rfl, hparse]

theorem create_tap_reaches (hkind : cell.cellType = CELL_CREATE) (hcheck : checkCreateCell cell true = true)
    (htap : cell.handshakeType = ONION_HANDSHAKE_TYPE_TAP) (hmagic : cell.handshake.take 16 ≠ NTOR_CREATE_MAGIC)
    (cellOut : Cell) : ∃ out, createCellFormatRelayed cellOut cell = .ok out ∧ Reaches cell out := by
  have hlen : cell.handshakeLen.toNat = TAP_ONIONSKIN_CHALLENGE_LEN := by
    simp only [checkCreateCell, htap, if_true, Bool.and_eq_true, decide_eq_true_eq] at hcheck
    exact hcheck.2
  have hlength : cell.handshake.length = TAP_ONIONSKIN_CHALLENGE_LEN := by
    rw [length_handshake (by rw [hlen]; decide), hlen]
  have hpayload : (zeroPad CELL_PAYLOAD_SIZE cell.handshake).toList =
      cell.handshake ++ List.replicate (CELL_PAYLOAD_SIZE - cell.handshake.length) 0 :=
    toList_zeroPad (by rw [hlength]; decide)
  refine ⟨{ cellOut with command := CELL_CREATE, payload := zeroPad _ cell.handshake }, ?_, ?_⟩
  · have hntor : ¬ (True ∧ ONION_HANDSHAKE_TYPE_TAP = ONION_HANDSHAKE_TYPE_NTOR) := by decide
    have hroom : ¬ CELL_PAYLOAD_SIZE - ([] : List UInt8).length < cell.handshakeLen.toNat := by
      rw [hlen]
      decide
    simp only [createCellFormatRelayed, createCellFormatImpl, hcheck, Bool.not_true, Bool.false_eq_true, if_false, hkind,
      htap, if_neg hntor, true_or, if_true, if_neg hroom, List.nil_append]
  · have hlen16 : UInt16.ofNat TAP_ONIONSKIN_CHALLENGE_LEN = cell.handshakeLen := by
      apply UInt16.toNat_inj.mp
      rw [hlen]
      rfl
    have hsame := same_init CELL_CREATE (List.replicate (CELL_PAYLOAD_SIZE - cell.handshake.length) 0)
      (by rw [hlen]; decide : cell.handshakeLen.toNat ≤ CELL_PAYLOAD_SIZE - 4)
    refine reaches_of_init ?_ hsame hkind.symm hcheck
    have hstart : (zeroPad CELL_PAYLOAD_SIZE cell.handshake).toList.take 16 ≠ NTOR_CREATE_MAGIC := by
      rw [hpayload, List.take_append_of_le_length (by rw [hlength]; decide)]
      exact hmagic
    have hparse := @createCellParse_tap { cellOut with command := CELL_CREATE, payload := zeroPad _ cell.handshake } rfl hstart
    rw [hparse, hpayload, hlen16, htap]

/-! ## EXTEND cells to the relay -/

/-- What `check_extend_cell` requires. -/
structure Extends (cell : ExtendCell) : Prop where
  nodeId : isZero cell.nodeId = false
  orport : torAddrPortIsValidAp cell.orportIpv4 = true ∨
    cell.cellType = RELAY_COMMAND_EXTEND2 ∧ torAddrPortIsValidAp cell.orportIpv6 = true
  kind : cell.createCell.cellType = CELL_CREATE ∧ cell.cellType = RELAY_COMMAND_EXTEND ∨
    cell.createCell.cellType = CELL_CREATE2 ∧ (cell.cellType = RELAY_COMMAND_EXTEND2 ∨ cell.cellType = RELAY_COMMAND_EXTEND)
  notFast : cell.createCell.handshakeType ≠ ONION_HANDSHAKE_TYPE_FAST
  create : checkCreateCell cell.createCell true = true

theorem guard_iff {c : Prop} [Decidable c] {b : Bool} : (if c then false else b) = true ↔ ¬ c ∧ b = true := by
  by_cases hc : c <;> simp [hc]

theorem checkExtendCell_iff (cell : ExtendCell) : checkExtendCell cell = true ↔ Extends cell := by
  have hne : CELL_CREATE ≠ CELL_CREATE2 := by decide
  simp only [checkExtendCell, guard_iff]
  constructor
  · rintro ⟨hid, horport, hcreate, hcreate2, hkind, hfast, hpass⟩
    simp only [Bool.and_eq_true, Bool.or_eq_true, Bool.not_eq_true', decide_eq_true_eq] at horport
    exact ⟨by simpa using hid, by grind, by grind, hfast, hpass⟩
  · rintro ⟨hid, horport, hkind, hfast, hpass⟩
    simp only [Bool.and_eq_true, Bool.or_eq_true, Bool.not_eq_true', decide_eq_true_eq]
    exact ⟨by simp [hid], by grind, by grind, by grind, by grind, hfast, hpass⟩

/-- A valid address of a field is the one that is read back from the cell. -/
theorem ipv4Orport_of_valid {ap : TorAddrPort} (hvalid : torAddrPortIsValidAp ap = true)
    (hfamily : torAddrFamily ap.addr ≠ .AF_INET6) : ipv4Orport (some (torAddrToIpv4h ap.addr, ap.port)) = ap := by
  obtain ⟨addr, port⟩ := ap
  cases addr with
  | unspec => cases hvalid
  | inet addr => rfl
  | inet6 addr => exact absurd rfl hfamily

theorem ipv6Orport_of_valid {ap : TorAddrPort} (hvalid : torAddrPortIsValidAp ap = true)
    (hfamily : torAddrFamily ap.addr ≠ .AF_INET) : ipv6Orport (some (torAddrCopyIpv6Bytes ap.addr, ap.port)) = ap := by
  obtain ⟨addr, port⟩ := ap
  cases addr with
  | unspec => cases hvalid
  | inet addr => exact absurd rfl hfamily
  | inet6 addr => rfl

/-- The handshakes that an EXTEND cell can carry: an ntor one, or a TAP one that cannot be taken for it. -/
def Extendable (cell : CreateCell) : Prop :=
  cell.handshakeType = ONION_HANDSHAKE_TYPE_TAP ∧ cell.handshake.take 16 ≠ NTOR_CREATE_MAGIC ∨
    cell.handshakeType = ONION_HANDSHAKE_TYPE_NTOR

theorem SameHandshake.reaches {a b : CreateCell} (h : SameHandshake a b) {out : Cell} (ha : Reaches a out) : Reaches b out := by
  refine ⟨fun parsed hparsed => ?_, fun hknown => ha.2 (h.handshakeType ▸ hknown)⟩
  have hsame := ha.1 parsed hparsed
  exact ⟨hsame.handshakeType.trans h.handshakeType, hsame.handshakeLen.trans h.handshakeLen, hsame.handshake.trans h.handshake⟩

/-- The relay's create cell has the handshake of the client's, and gets it to the next hop. -/
def Carries (e e' : ExtendCell) : Prop :=
  SameHandshake e'.createCell e.createCell ∧
    ∀ cellOut, ∃ out, createCellFormatRelayed cellOut e'.createCell = .ok out ∧ Reaches e'.createCell out

/-- A cell that was formatted had passed the check. -/
theorem Carries.check {e e' : ExtendCell} (h : Carries e e') : checkCreateCell e'.createCell true = true := by
  obtain ⟨out, hout, -⟩ := h.2 ⟨0, 0, zeroPad _ []⟩
  cases hcheck : checkCreateCell e'.createCell true with
  | true => rfl
  | false => simp [createCellFormatRelayed, createCellFormatImpl, hcheck] at hout

/-! ### EXTEND -/

section
variable {e : ExtendCell}

/-- The body that the relay reads from an EXTEND cell. -/
def extend1Body (e : ExtendCell) : Extend1CellBody where
  ipv4addr := torAddrToIpv4h e.orportIpv4.addr
  port := e.orportIpv4.port
  onionskin := extendOnionskin e.createCell
  identity := e.nodeId

theorem extendCellFormat_extend (includeEd : Bool) (hcheck : Extends e) (hkind : e.cellType = RELAY_COMMAND_EXTEND)
    {body : RelayBody} (hformat : extendCellFormat includeEd e = .ok body) :
    extendCellParse body.command body.payload body.len.toNat =
      (some (extendCellFromExtend1CellBody (extend1Body e))).filter checkExtendCell := by
  simp only [extendCellFormat, (checkExtendCell_iff e).mpr hcheck, Bool.not_true, Bool.false_eq_true, if_false,
    if_pos hkind] at hformat
  cases hformat
  let fields := toBE 4 (torAddrToIpv4h e.orportIpv4.addr).toNat ++ (toBE 2 e.orportIpv4.port.toNat ++
    ((extendOnionskin e.createCell).toList ++ e.nodeId.toList))
  have hlen : fields.length = 212 := by simp [fields]
  have hinput : (zeroPad RELAY_PAYLOAD_SIZE fields).toList.take 212 = fields := by
    rw [take_zeroPad (by rw [hlen]; decide) (Nat.le_of_eq hlen.symm), List.take_of_length_le (Nat.le_of_eq hlen)]
  have hparse : extend1CellBodyParse fields = some (extend1Body e, []) := by
    simpa [fields, extend1Body] using extend1_parse (extend1Body e) []
  have hlen16 : (UInt16.ofNat (6 + TAP_ONIONSKIN_CHALLENGE_LEN + DIGEST_LEN)).toNat = 212 := by decide
  simp only [extendCellParse, hlen16]
  rw [if_neg (by decide), if_true, hinput, hparse]
  rfl

theorem ntor_onionskin (hntor : e.createCell.handshakeType = ONION_HANDSHAKE_TYPE_NTOR) :
    (extendOnionskin e.createCell).toList.take 16 = NTOR_CREATE_MAGIC ∧
    ((extendOnionskin e.createCell).toList.drop 16).take NTOR_ONIONSKIN_LEN =
      e.createCell.onionskin.toList.take NTOR_ONIONSKIN_LEN := by
  have hskin : (e.createCell.onionskin.toList.take NTOR_ONIONSKIN_LEN).length = NTOR_ONIONSKIN_LEN := by
    rw [List.length_take, Vector.length_toList]
    decide
  have hlen : (NTOR_CREATE_MAGIC ++ e.createCell.onionskin.toList.take NTOR_ONIONSKIN_LEN).length ≤ 186 := by
    rw [List.length_append, hskin]
    decide
  rw [extendOnionskin, if_pos hntor, toList_zeroPad hlen, List.append_assoc]
  refine ⟨List.take_left' rfl, ?_⟩
  rw [List.drop_left' (by rfl), List.take_left' hskin]

theorem tap_onionskin (htap : e.createCell.handshakeType = ONION_HANDSHAKE_TYPE_TAP) :
    (extendOnionskin e.createCell).toList = e.createCell.onionskin.toList.take TAP_ONIONSKIN_CHALLENGE_LEN := by
  have hlen : (e.createCell.onionskin.toList.take TAP_ONIONSKIN_CHALLENGE_LEN).length = 186 := by
    rw [List.length_take, Vector.length_toList]
    decide
  rw [extendOnionskin, htap, if_neg (by decide), toList_zeroPad (Nat.le_of_eq hlen), hlen]
  simp

theorem extend1_carries_tap (hcreate : checkCreateCell e.createCell true = true)
    (htap : e.createCell.handshakeType = ONION_HANDSHAKE_TYPE_TAP)
    (hmagic : e.createCell.handshake.take 16 ≠ NTOR_CREATE_MAGIC) :
    Carries e (extendCellFromExtend1CellBody (extend1Body e)) := by
  have hlen : e.createCell.handshakeLen.toNat = TAP_ONIONSKIN_CHALLENGE_LEN := by
    simp only [checkCreateCell, htap, if_true, Bool.and_eq_true, decide_eq_true_eq] at hcreate
    exact hcreate.2
  have hbytes : (extendOnionskin e.createCell).toList = e.createCell.handshake := by
    rw [tap_onionskin htap, CreateCell.handshake, hlen]
  have hlen16 : UInt16.ofNat TAP_ONIONSKIN_CHALLENGE_LEN = e.createCell.handshakeLen := UInt16.toNat_inj.mp hlen.symm
  have hcell : (extendCellFromExtend1CellBody (extend1Body e)).createCell =
      createCellInit CELL_CREATE e.createCell.handshakeType e.createCell.handshakeLen (e.createCell.handshake ++ []) := by
    simp only [extendCellFromExtend1CellBody, extend1Body, hbytes, if_neg hmagic, hlen16, htap, List.append_nil]
  have hsame : SameHandshake (extendCellFromExtend1CellBody (extend1Body e)).createCell e.createCell := by
    rw [hcell]
    exact same_init CELL_CREATE [] (by rw [hlen]; decide)
  have hcheck : checkCreateCell (extendCellFromExtend1CellBody (extend1Body e)).createCell true = true := by
    rw [hcell, ← hlen16, htap]
    rfl
  refine ⟨hsame, create_tap_reaches (by rw [hcell]; rfl) hcheck (hsame.handshakeType.trans htap) ?_⟩
  rw [hsame.handshake]
  exact hmagic

theorem extend1_carries_ntor (hcreate : checkCreateCell e.createCell true = true)
    (hntor : e.createCell.handshakeType = ONION_HANDSHAKE_TYPE_NTOR) :
    Carries e (extendCellFromExtend1CellBody (extend1Body e)) := by
  obtain ⟨hstart, hbytes⟩ := ntor_onionskin hntor
  have hlen : e.createCell.handshakeLen.toNat = NTOR_ONIONSKIN_LEN := by
    simp only [checkCreateCell, hntor, Bool.and_eq_true] at hcreate
    exact of_decide_eq_true hcreate.2
  have hcell : (extendCellFromExtend1CellBody (extend1Body e)).createCell =
      createCellInit CELL_CREATE2 ONION_HANDSHAKE_TYPE_NTOR (UInt16.ofNat NTOR_ONIONSKIN_LEN)
        ((extendOnionskin e.createCell).toList.drop 16) := by
    simp only [extendCellFromExtend1CellBody, extend1Body, hstart, if_true]
  have hsame : SameHandshake (extendCellFromExtend1CellBody (extend1Body e)).createCell e.createCell := by
    refine ⟨by rw [hcell, hntor]; rfl, by rw [hcell]; exact UInt16.toNat_inj.mp hlen.symm, ?_⟩
    rw [hcell, handshake_init (by decide) (by simp [NTOR_ONIONSKIN_LEN]), CreateCell.handshake, hlen, ← hbytes]
    rfl
  refine ⟨hsame, create2_reaches (by rw [hcell]; rfl) (by rw [hcell]; rfl) ?_ ?_⟩
  · rw [hsame.handshakeType, hntor]
    decide
  · rw [hsame.handshakeLen, hlen]
    decide

theorem extend1_reaches (includeEd : Bool) (hcheck : Extends e) (hkind : e.cellType = RELAY_COMMAND_EXTEND)
    (hcarry : Extendable e.createCell) {body : RelayBody} (hformat : extendCellFormat includeEd e = .ok body) :
    ∃ e', extendCellParse body.command body.payload body.len.toNat = some e' ∧ Carries e e' := by
  have hcarries : Carries e (extendCellFromExtend1CellBody (extend1Body e)) := by
    rcases hcarry with ⟨htap, hmagic⟩ | hntor
    · exact extend1_carries_tap hcheck.create htap hmagic
    · exact extend1_carries_ntor hcheck.create hntor
  have hvalid : torAddrPortIsValidAp e.orportIpv4 = true := by
    refine hcheck.orport.resolve_right fun h => ?_
    rw [hkind] at h
    exact absurd h.1 (by decide)
  have hextends : Extends (extendCellFromExtend1CellBody (extend1Body e)) := by
    refine ⟨hcheck.nodeId, .inl ?_, ?_, ?_, hcarries.check⟩
    · have horport := ipv4Orport_of_valid hvalid e.ipv4_family
      simp only [extendCellFromExtend1CellBody, extend1Body, horport, hvalid]
    · simp only [extendCellFromExtend1CellBody]
      split
      · exact .inr ⟨rfl, .inr trivial⟩
      · exact .inl ⟨rfl, trivial⟩
    · rw [hcarries.1.handshakeType]
      exact hcheck.notFast
  refine ⟨extendCellFromExtend1CellBody (extend1Body e), ?_, hcarries⟩
  rw [extendCellFormat_extend includeEd hcheck hkind hformat, Option.filter_some,
    if_pos ((checkExtendCell_iff _).mpr hextends)]

end

/-! ### EXTEND2 -/

section
variable {e : ExtendCell}

theorem extend2Specifiers_known (includeEd : Bool) (e : ExtendCell) : ∀ ls ∈ (extend2Specifiers includeEd e).2, ls.Known := by
  intro ls hls
  simp only [extend2Specifiers, List.mem_append, List.mem_singleton] at hls
  rcases hls with hls | rfl | hls | hls
  · split at hls
    · cases List.mem_singleton.mp hls
      trivial
    · cases hls
  · trivial
  · split at hls
    · cases List.mem_singleton.mp hls
      trivial
    · cases hls
  · split at hls
    · cases List.mem_singleton.mp hls
      trivial
    · cases hls

/-- The relay finds what the client put in. -/
theorem extend2Specifiers_found (includeEd : Bool) (e : ExtendCell) :
    (extend2Specifiers includeEd e).2.foldlM Found.add {} = some {
      ipv4 := if torAddrPortIsValidAp e.orportIpv4 then some (torAddrToIpv4h e.orportIpv4.addr, e.orportIpv4.port) else none
      ipv6 :=
        if torAddrPortIsValidAp e.orportIpv6 then some (torAddrCopyIpv6Bytes e.orportIpv6.addr, e.orportIpv6.port) else none
      rsaId := some e.nodeId
      edId := if includeEd && !isZero e.edPubkey then some e.edPubkey else none } := by
  unfold extend2Specifiers
  cases torAddrPortIsValidAp e.orportIpv4 <;> cases torAddrPortIsValidAp e.orportIpv6 <;>
    cases includeEd && !isZero e.edPubkey <;> rfl

theorem extendCellFormat_extend2 (includeEd : Bool) (hcheck : Extends e) (hkind : e.cellType = RELAY_COMMAND_EXTEND2)
    {body : RelayBody} (hformat : extendCellFormat includeEd e = .ok body) :
    e.createCell.handshakeLen.toNat ≤ CELL_PAYLOAD_SIZE - 4 ∧
    extendCellParse body.command body.payload body.len.toNat =
      (extendCellFromExtend2CellBody {
        nSpec := (extend2Specifiers includeEd e).1
        ls := (extend2Specifiers includeEd e).2
        create2 := ⟨e.createCell.handshakeType, e.createCell.handshakeLen, e.createCell.handshake⟩ }).filter checkExtendCell := by
  have hne : ¬ RELAY_COMMAND_EXTEND2 = RELAY_COMMAND_EXTEND := by decide
  simp only [extendCellFormat, (checkExtendCell_iff e).mpr hcheck, Bool.not_true, Bool.false_eq_true, if_false, hkind,
    if_neg hne, if_true] at hformat
  split at hformat
  · cases hformat
  next hlen =>
    refine ⟨Nat.le_of_not_lt hlen, ?_⟩
    split at hformat
    · cases hformat
    next out hout =>
      have hroom := (extend2CellBodyEncode_length hout).1
      have hsize : out.length < UInt16.size := Nat.lt_of_le_of_lt hroom (by decide)
      rw [if_neg (Nat.not_lt.mpr (Nat.le_trans hroom (by decide)))] at hformat
      cases hformat
      have hinput : (zeroPad RELAY_PAYLOAD_SIZE out).toList.take out.length = out := by
        rw [take_zeroPad hroom (Nat.le_refl _), List.take_length]
      have hparse := extend2_parse_encode (extend2Specifiers_known includeEd e) hout []
      rw [List.append_nil] at hparse
      simp only [extendCellParse, UInt16.toNat_ofNat_of_lt' hsize]
      rw [if_neg (Nat.not_lt.mpr hroom), if_neg hne, if_true, hinput, hparse]
      rfl

/-- The cell that the relay reads from an EXTEND2 cell. -/
def extend2Parsed (includeEd : Bool) (e : ExtendCell) : ExtendCell where
  cellType := RELAY_COMMAND_EXTEND2
  orportIpv4 := ipv4Orport
    (if torAddrPortIsValidAp e.orportIpv4 then some (torAddrToIpv4h e.orportIpv4.addr, e.orportIpv4.port) else none)
  orportIpv6 := ipv6Orport
    (if torAddrPortIsValidAp e.orportIpv6 then some (torAddrCopyIpv6Bytes e.orportIpv6.addr, e.orportIpv6.port) else none)
  nodeId := e.nodeId
  edPubkey := (if includeEd && !isZero e.edPubkey then some e.edPubkey else none).getD (zeroPad 32 [])
  createCell := createCellInit CELL_CREATE2 e.createCell.handshakeType e.createCell.handshakeLen e.createCell.handshake
  ipv4_family := ipv4Orport_family _
  ipv6_family := ipv6Orport_family _

section

variable (includeEd : Bool) (hcheck : Extends e)
include includeEd hcheck

theorem extend2Parsed_eq (hlen : e.createCell.handshakeLen.toNat ≤ CELL_PAYLOAD_SIZE - 4) :
    extendCellFromExtend2CellBody {
      nSpec := (extend2Specifiers includeEd e).1
      ls := (extend2Specifiers includeEd e).2
      create2 := ⟨e.createCell.handshakeType, e.createCell.handshakeLen, e.createCell.handshake⟩ } =
    some (extend2Parsed includeEd e) := by
  simp only [extendCellFromExtend2CellBody, extend2Specifiers_found, createCellFromCreate2CellBody, if_neg (Nat.not_lt.mpr hlen)]
  rw [if_neg]
  · rfl
  · rcases hcheck.orport with h | h
    · simp [h]
    · simp [h.2]

theorem extend2Parsed_extends (hcarries : Carries e (extend2Parsed includeEd e)) :
    Extends (extend2Parsed includeEd e) := by
  refine ⟨hcheck.nodeId, ?_, .inr ⟨rfl, .inl rfl⟩, hcheck.notFast, hcarries.check⟩
  rcases hcheck.orport with h | ⟨-, h⟩
  · refine .inl ?_
    simp only [extend2Parsed, h, if_true, ipv4Orport_of_valid h e.ipv4_family]
  · refine .inr ⟨rfl, ?_⟩
    simp only [extend2Parsed, h, if_true, ipv6Orport_of_valid h e.ipv6_family]

theorem extend2Parsed_carries (hkind : e.cellType = RELAY_COMMAND_EXTEND2)
    (hlen : e.createCell.handshakeLen.toNat ≤ CELL_PAYLOAD_SIZE - 4) : Carries e (extend2Parsed includeEd e) := by
  have hsame : SameHandshake (extend2Parsed includeEd e).createCell e.createCell := by
    simpa [extend2Parsed] using same_init CELL_CREATE2 [] hlen
  have hcreate : e.createCell.cellType = CELL_CREATE2 := by
    rcases hcheck.kind with h | h
    · rw [hkind] at h
      exact absurd h.2 (by decide)
    · exact h.1
  refine ⟨hsame, create2_reaches rfl ?_ hcheck.notFast hlen⟩
  have hsameCheck : checkCreateCell (extend2Parsed includeEd e).createCell true = checkCreateCell e.createCell true := by
    simp only [checkCreateCell, hsame.handshakeType, hsame.handshakeLen, hcreate]
    rfl
  rw [hsameCheck, hcheck.create]

theorem extend2_reaches (hkind : e.cellType = RELAY_COMMAND_EXTEND2) {body : RelayBody}
    (hformat : extendCellFormat includeEd e = .ok body) :
    ∃ e', extendCellParse body.command body.payload body.len.toNat = some e' ∧ Carries e e' := by
  obtain ⟨hlen, hparse⟩ := extendCellFormat_extend2 includeEd hcheck hkind hformat
  have hcarries := extend2Parsed_carries includeEd hcheck hkind hlen
  have hextends := (checkExtendCell_iff _).mpr (extend2Parsed_extends includeEd hcheck hcarries)
  refine ⟨extend2Parsed includeEd e, ?_, hcarries⟩
  rw [hparse, extend2Parsed_eq includeEd hcheck hlen, Option.filter_some, if_pos hextends]

end

end

/-! ## The reply -/

section
variable {created : CreatedCell}

/-- The cell at the relay and at the client: a CREATED cell does not say how long its reply is. -/
def arrived (created : CreatedCell) : CreatedCell where
  cellType := created.cellType
  handshakeLen := if created.cellType = CELL_CREATED then UInt16.ofNat TAP_ONIONSKIN_REPLY_LEN else created.handshakeLen
  reply := zeroPad _ created.answer

theorem length_answer (h : created.handshakeLen.toNat ≤ CELL_PAYLOAD_SIZE - 2) :
    created.answer.length = created.handshakeLen.toNat := by
  rw [CreatedCell.answer, List.length_take, Vector.length_toList, Nat.min_eq_left h]

theorem arrived_answer (h : created.handshakeLen.toNat ≤ CELL_PAYLOAD_SIZE - 2) :
    (arrived created).reply.toList.take created.handshakeLen.toNat = created.answer := by
  have hlen := length_answer h
  rw [arrived, take_zeroPad (by rw [hlen]; exact h) (Nat.le_of_eq hlen.symm), ← hlen, List.take_length]

section

variable (hcheck : checkCreatedCell created = true)
include hcheck

theorem checkCreatedCell_created (hkind : created.cellType = CELL_CREATED) :
    created.handshakeLen.toNat ≤ TAP_ONIONSKIN_REPLY_LEN := by
  simp only [checkCreatedCell, hkind, if_true] at hcheck
  rcases of_decide_eq_true hcheck with h | h
  · exact Nat.le_of_eq h
  · rw [h]
    decide

theorem checkCreatedCell_created2 (hkind : created.cellType = CELL_CREATED2) :
    created.handshakeLen.toNat ≤ RELAY_PAYLOAD_SIZE - 2 := by
  simp only [checkCreatedCell, hkind] at hcheck
  exact of_decide_eq_true hcheck

theorem checkCreatedCell_arrived : checkCreatedCell (arrived created) = true := by
  unfold checkCreatedCell at hcheck ⊢
  by_cases hkind : created.cellType = CELL_CREATED
  · simp only [arrived, hkind, if_true]
    decide
  · simpa only [arrived, if_neg hkind] using hcheck

/-- Only an ntor reply in a CREATED cell changes its length. -/
theorem arrived_len (hkind : created.cellType = CELL_CREATED ∨ created.cellType = CELL_CREATED2)
    (hlen : created.handshakeLen.toNat ≠ NTOR_REPLY_LEN ∨ created.cellType = CELL_CREATED2) :
    (arrived created).handshakeLen = created.handshakeLen := by
  rcases hkind with hkind | hkind
  · have hntor := hlen.resolve_right (by rw [hkind]; decide)
    simp only [checkCreatedCell, hkind, if_true] at hcheck
    have htap := (of_decide_eq_true hcheck).resolve_right hntor
    simp only [arrived, hkind, if_true]
    exact UInt16.toNat_inj.mp htap.symm
  · simp only [arrived, hkind]
    rfl

end

/-- A CREATED or CREATED2 cell is parsed back by the relay. -/
theorem createdCellParse_format {cellOut cell : Cell} (hformat : createdCellFormat cellOut created = .ok cell)
    (hkind : created.cellType = CELL_CREATED ∨ created.cellType = CELL_CREATED2) :
    checkCreatedCell created = true ∧ createdCellParse cell = some (arrived created) := by
  unfold createdCellFormat at hformat
  cases hcheck : checkCreatedCell created with
  | false => simp [hcheck] at hformat
  | true =>
    refine ⟨rfl, ?_⟩
    have harrived := checkCreatedCell_arrived hcheck
    rcases hkind with hkind | hkind
    · have hlen := checkCreatedCell_created hcheck hkind
      have hlength := length_answer (Nat.le_trans hlen (by decide))
      have hroom : ¬ CELL_PAYLOAD_SIZE < created.handshakeLen.toNat := Nat.not_lt.mpr (Nat.le_trans hlen (by decide))
      simp only [hcheck, Bool.not_true, Bool.false_eq_true, if_false, hkind, true_or, if_true, if_neg hroom] at hformat
      cases hformat
      have hreply : createdCellInit CELL_CREATED (UInt16.ofNat TAP_ONIONSKIN_REPLY_LEN)
          (zeroPad CELL_PAYLOAD_SIZE created.answer).toList = arrived created := by
        rw [createdCellInit, zeroPad_take_zeroPad _ (by rw [hlength]; exact Nat.le_of_not_lt hroom)
          (by rw [hlength]; exact hlen), arrived, hkind]
        rfl
      simp only [createdCellParse, if_true, hreply, Option.filter_some, if_pos harrived]
    · have hlen := checkCreatedCell_created2 hcheck hkind
      have hlength := length_answer (Nat.le_trans hlen (by decide))
      have hroom : ¬ CELL_PAYLOAD_SIZE - 2 < created.handshakeLen.toNat := Nat.not_lt.mpr (Nat.le_trans hlen (by decide))
      have hne : ¬ (CELL_CREATED2 = CELL_CREATED ∨ CELL_CREATED2 = CELL_CREATED_FAST) := by decide
      simp only [hcheck, Bool.not_true, Bool.false_eq_true, if_false, hkind, if_neg hne, if_true, if_neg hroom] at hformat
      cases hformat
      have hfits : 2 + created.answer.length ≤ CELL_PAYLOAD_SIZE := by
        rw [hlength]
        exact Nat.add_le_of_le_sub' (by decide) (Nat.le_of_not_lt hroom)
      obtain ⟨hhdr, hdrop⟩ := zeroPad_uint16 created.handshakeLen created.answer hfits
      have hreply : createdCellInit CELL_CREATED2 created.handshakeLen
          ((zeroPad CELL_PAYLOAD_SIZE (toBE 2 created.handshakeLen.toNat ++ created.answer)).toList.drop 2) =
          arrived created := by
        rw [createdCellInit, hdrop, List.take_left' hlength, arrived, hkind]
        rfl
      have hcreated : ¬ CELL_CREATED2 = CELL_CREATED := by decide
      have hfast : ¬ CELL_CREATED2 = CELL_CREATED_FAST := by decide
      simp only [createdCellParse, if_neg hcreated, if_neg hfast, if_true, hhdr, if_neg hroom, hreply, Option.filter_some,
        if_pos harrived]

/-- What the relay made of the reply goes to the client as it is: in an EXTENDED cell ... -/
theorem extended_of_created (hcheck : checkCreatedCell created = true) (hkind : created.cellType = CELL_CREATED) :
    ∃ body, extendedCellFormat (extendedOfCreated (arrived created)) = some body ∧
      extendedCellParse body.command body.payload body.len.toNat = some (extendedOfCreated (arrived created)) := by
  have hlen := checkCreatedCell_created hcheck hkind
  have hlength := length_answer (Nat.le_trans hlen (by decide))
  have hextended : extendedOfCreated (arrived created) = ⟨RELAY_COMMAND_EXTENDED, arrived created⟩ := by
    simp only [extendedOfCreated, arrived, hkind]
    rfl
  have hkind' : (arrived created).cellType = CELL_CREATED := hkind
  have hpass : checkExtendedCell ⟨RELAY_COMMAND_EXTENDED, arrived created⟩ = true := by
    simp only [checkExtendedCell, hkind', if_true, checkCreatedCell_arrived hcheck]
    rfl
  have hpayload : zeroPad RELAY_PAYLOAD_SIZE ((arrived created).reply.toList.take TAP_ONIONSKIN_REPLY_LEN) =
      zeroPad _ created.answer :=
    zeroPad_take_zeroPad _ (by rw [hlength]; exact Nat.le_trans hlen (by decide)) (by rw [hlength]; exact hlen)
  have hreply : createdCellInit CELL_CREATED (UInt16.ofNat TAP_ONIONSKIN_REPLY_LEN)
      (zeroPad RELAY_PAYLOAD_SIZE created.answer).toList = arrived created := by
    rw [createdCellInit, zeroPad_take_zeroPad _ (by rw [hlength]; exact Nat.le_trans hlen (by decide))
      (by rw [hlength]; exact hlen), arrived, hkind]
    rfl
  refine ⟨⟨RELAY_COMMAND_EXTENDED, UInt16.ofNat TAP_ONIONSKIN_REPLY_LEN, zeroPad _ created.answer⟩, ?_, ?_⟩
  · simp only [hextended, extendedCellFormat, hpass, Bool.not_true, Bool.false_eq_true, if_false, if_true, hpayload]
  · have hlen16 : (UInt16.ofNat TAP_ONIONSKIN_REPLY_LEN).toNat = TAP_ONIONSKIN_REPLY_LEN := by decide
    simp only [hextended, extendedCellParse, hlen16, ne_eq, not_true_eq_false, if_false, if_true, hreply,
      Option.filter_some, hpass]
    rfl

/-- ... or in an EXTENDED2 cell. -/
theorem extended_of_created2 (hcheck : checkCreatedCell created = true) (hkind : created.cellType = CELL_CREATED2) :
    ∃ body, extendedCellFormat (extendedOfCreated (arrived created)) = some body ∧
      extendedCellParse body.command body.payload body.len.toNat = some (extendedOfCreated (arrived created)) := by
  have hlen := checkCreatedCell_created2 hcheck hkind
  have hlength := length_answer (Nat.le_trans hlen (by decide))
  have hkind' : (arrived created).cellType = CELL_CREATED2 := hkind
  have hlen' := arrived_len hcheck (.inr hkind) (.inr hkind)
  have hanswer : (arrived created).answer = created.answer := by
    rw [CreatedCell.answer, hlen', arrived_answer (Nat.le_trans hlen (by decide))]
  have hextended : extendedOfCreated (arrived created) = ⟨RELAY_COMMAND_EXTENDED2, arrived created⟩ := by
    simp only [extendedOfCreated, hkind', if_true]
  have hpass : checkExtendedCell ⟨RELAY_COMMAND_EXTENDED2, arrived created⟩ = true := by
    simp only [checkExtendedCell, hkind', checkCreatedCell_arrived hcheck]
    rfl
  have hroom : 2 + created.answer.length ≤ RELAY_PAYLOAD_SIZE := by
    rw [hlength]
    exact Nat.add_le_of_le_sub' (by decide) hlen
  obtain ⟨hhdr, hdrop⟩ := zeroPad_uint16 created.handshakeLen created.answer hroom
  have hreply : createdCellInit CELL_CREATED2 created.handshakeLen
      ((zeroPad RELAY_PAYLOAD_SIZE (toBE 2 created.handshakeLen.toNat ++ created.answer)).toList.drop 2) = arrived created := by
    rw [createdCellInit, hdrop, List.take_left' hlength, arrived, hkind]
    rfl
  have hne : ¬ RELAY_COMMAND_EXTENDED2 = RELAY_COMMAND_EXTENDED := by decide
  rw [hlength] at hroom
  refine ⟨⟨RELAY_COMMAND_EXTENDED2, 2 + created.handshakeLen,
    zeroPad _ (toBE 2 created.handshakeLen.toNat ++ created.answer)⟩, ?_, ?_⟩
  · simp only [hextended, extendedCellFormat, hpass, Bool.not_true, Bool.false_eq_true, if_false, if_neg hne, if_true, hlen',
      hanswer, if_neg (Nat.not_lt.mpr hroom)]
  · have hlen16 : (2 + created.handshakeLen).toNat = 2 + created.handshakeLen.toNat := by
      rw [UInt16.toNat_add]
      exact Nat.mod_eq_of_lt (Nat.lt_of_le_of_lt hroom (by decide))
    have hfits : ¬ (created.handshakeLen.toNat > RELAY_PAYLOAD_SIZE - 2 ∨
        created.handshakeLen.toNat > (2 + created.handshakeLen.toNat + 18446744073709551616 - 2) % 18446744073709551616) := by
      have hlt := created.handshakeLen.toNat_lt
      omega
    simp only [hextended, extendedCellParse, hlen16, if_neg (Nat.not_lt.mpr hroom), if_neg hne, if_true, hhdr, if_neg hfits,
      hreply, Option.filter_some, hpass]

/-- A reply that the next hop formats is parsed at the relay, wrapped and formatted there and parsed at the client. -/
theorem reply_reaches_client {cellOut cell : Cell} (hformat : createdCellFormat cellOut created = .ok cell)
    (hkind : created.cellType = CELL_CREATED ∨ created.cellType = CELL_CREATED2) :
    ∃ body, createdCellParse cell = some (arrived created) ∧
      extendedCellFormat (extendedOfCreated (arrived created)) = some body ∧
      extendedCellParse body.command body.payload body.len.toNat = some (extendedOfCreated (arrived created)) := by
  obtain ⟨hcheck, hparse⟩ := createdCellParse_format hformat hkind
  rcases hkind with hkind | hkind
  · obtain ⟨body, hbody⟩ := extended_of_created hcheck hkind
    exact ⟨body, hparse, hbody⟩
  · obtain ⟨body, hbody⟩ := extended_of_created2 hcheck hkind
    exact ⟨body, hparse, hbody⟩

end

/-! ## Both ways -/

theorem extend_reaches_next_hop (includeEd : Bool) {e : ExtendCell} {body : RelayBody}
    (hformat : extendCellFormat includeEd e = .ok body)
    (hcarry : e.cellType = RELAY_COMMAND_EXTEND → Extendable e.createCell) :
    ∃ e', extendCellParse body.command body.payload body.len.toNat = some e' ∧ Carries e e' := by
  cases hcheck : checkExtendCell e with
  | false => simp [extendCellFormat, hcheck] at hformat
  | true =>
    have hextends := (checkExtendCell_iff e).mp hcheck
    by_cases hkind : e.cellType = RELAY_COMMAND_EXTEND
    · exact extend1_reaches includeEd hextends hkind (hcarry hkind) hformat
    · by_cases hkind2 : e.cellType = RELAY_COMMAND_EXTEND2
      · exact extend2_reaches includeEd hextends hkind2 hformat
      · simp [extendCellFormat, hcheck, hkind, hkind2] at hformat

/-- Extending a circuit carries the handshake to the next hop and the reply back with its bytes; only an ntor reply
in a CREATED cell arrives with another length. -/
theorem handshakes_carried_intact (includeEd : Bool) (e : ExtendCell) (created : CreatedCell) (cellOut : Cell) :
    (∀ body, extendCellFormat includeEd e = .ok body →
      (e.cellType = RELAY_COMMAND_EXTEND → Extendable e.createCell) →
      ∃ e', extendCellParse body.command body.payload body.len.toNat = some e' ∧
        ∃ out, createCellFormatRelayed cellOut e'.createCell = .ok out ∧
          (∀ parsed, createCellParse out = some parsed →
            parsed.handshakeType = e.createCell.handshakeType ∧ parsed.handshakeLen = e.createCell.handshakeLen ∧
            parsed.handshake = e.createCell.handshake) ∧
          (e.createCell.handshakeType = ONION_HANDSHAKE_TYPE_TAP ∨ e.createCell.handshakeType = ONION_HANDSHAKE_TYPE_NTOR →
            (createCellParse out).isSome = true)) ∧
    (∀ cell, createdCellFormat cellOut created = .ok cell →
      created.cellType = CELL_CREATED ∨ created.cellType = CELL_CREATED2 →
      ∃ parsed, createdCellParse cell = some parsed ∧
        ∃ body, extendedCellFormat (extendedOfCreated parsed) = some body ∧
          ∃ extended, extendedCellParse body.command body.payload body.len.toNat = some extended ∧
            extended.createdCell.cellType = created.cellType ∧
            extended.createdCell.reply.toList.take created.handshakeLen.toNat = created.answer ∧
            (created.handshakeLen.toNat ≠ NTOR_REPLY_LEN ∨ created.cellType = CELL_CREATED2 →
              extended.createdCell.handshakeLen = created.handshakeLen)) := by
  refine ⟨fun body hformat hcarry => ?_, fun cell hformat hkind => ?_⟩
  · obtain ⟨e', hparse, hsame, hout⟩ := extend_reaches_next_hop includeEd hformat hcarry
    obtain ⟨out, hcreate, hreaches⟩ := hout cellOut
    obtain ⟨hintact, haccepted⟩ := hsame.reaches hreaches
    refine ⟨e', hparse, out, hcreate, fun parsed hparsed => ?_, haccepted⟩
    have hs := hintact parsed hparsed
    exact ⟨hs.handshakeType, hs.handshakeLen, hs.handshake⟩
  · obtain ⟨body, hparse, hbody, hextended⟩ := reply_reaches_client hformat hkind
    have hcheck := (createdCellParse_format hformat hkind).1
    refine ⟨arrived created, hparse, body, hbody, extendedOfCreated (arrived created), hextended, rfl, ?_, ?_⟩
    · apply arrived_answer
      rcases hkind with hkind | hkind
      · exact Nat.le_trans (checkCreatedCell_created hcheck hkind) (by decide)
      · exact Nat.le_trans (checkCreatedCell_created2 hcheck hkind) (by decide)
    · exact arrived_len hcheck hkind

/-- An ntor handshake in an EXTEND cell, and an ntor reply in a CREATED cell. -/
def ntorExtend : ExtendCell where
  cellType := RELAY_COMMAND_EXTEND
  orportIpv4 := ⟨.inet 0x01020304, 9001⟩
  orportIpv6 := ⟨.unspec, 0⟩
  nodeId := Vector.replicate 20 7
  edPubkey := Vector.replicate 32 0
  createCell := ⟨CELL_CREATE, ONION_HANDSHAKE_TYPE_NTOR, 84, zeroPad _ (List.replicate 84 5)⟩
  ipv4_family := by decide
  ipv6_family := by decide

def ntorCreated : CreatedCell := ⟨CELL_CREATED, 64, zeroPad _ (List.replicate 64 3)⟩

theorem handshakes_carried_intact_of_ntor :
    (∃ body e' out parsed, extendCellFormat false ntorExtend = .ok body ∧
      extendCellParse body.command body.payload body.len.toNat = some e' ∧
      createCellFormatRelayed ⟨0, 0, zeroPad _ []⟩ e'.createCell = .ok out ∧ createCellParse out = some parsed ∧
      parsed.handshake = ntorExtend.createCell.handshake) ∧
    (∃ cell parsed body extended, createdCellFormat ⟨0, 0, zeroPad _ []⟩ ntorCreated = .ok cell ∧
      createdCellParse cell = some parsed ∧ extendedCellFormat (extendedOfCreated parsed) = some body ∧
      extendedCellParse body.command body.payload body.len.toNat = some extended ∧
      extended.createdCell.reply.toList.take 64 = ntorCreated.answer) := by
  obtain ⟨hextend, hreply⟩ := handshakes_carried_intact false ntorExtend ntorCreated ⟨0, 0, zeroPad _ []⟩
  constructor
  · have hok : (extendCellFormat false ntorExtend).toBool = true := by decide +kernel
    cases hformat : extendCellFormat false ntorExtend with
    | error _ => simp [hformat, Except.toBool] at hok
    | ok body =>
      obtain ⟨e', hparse, out, hout, hintact, haccepted⟩ := hextend body hformat fun _ => .inr rfl
      obtain ⟨parsed, hparsed⟩ := Option.isSome_iff_exists.mp (haccepted (.inr rfl))
      exact ⟨body, e', out, parsed, rfl, hparse, hout, hparsed, (hintact parsed hparsed).2.2⟩
  · have hok : (createdCellFormat ⟨0, 0, zeroPad _ []⟩ ntorCreated).toBool = true := by decide +kernel
    cases hformat : createdCellFormat ⟨0, 0, zeroPad _ []⟩ ntorCreated with
    | error _ => simp [hformat, Except.toBool] at hok
    | ok cell =>
      obtain ⟨parsed, hparsed, body, hbody, extended, hextended, -, hanswer, -⟩ := hreply cell hformat (.inl rfl)
      exact ⟨cell, parsed, body, extended, rfl, hparsed, hbody, hextended, hanswer⟩

end Badnet.Cells

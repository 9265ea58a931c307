/-
  Badnet.Cells.DeclaredLength — the bytes of a relay payload that `extend_cell_parse` and `extended_cell_parse` read.

  `extend_cell_parse` hands the declared bytes to a generated parser. `extended_cell_parse` looks at the buffer itself,
  and for an EXTENDED2 cell compares the length in the cell with `payload_len - 2`, which is a huge number when fewer
  than two bytes are declared. In all other cases the two read what was sent and no more
  (`cell_parsers_read_what_was_sent`).
-/

import Badnet.Cells.Extension

namespace Badnet.Cells

open Lib Relay

/-- Two buffers with the same declared bytes. -/
def SameSent (n : Nat) (p p' : Vector UInt8 RELAY_PAYLOAD_SIZE) : Prop := p.toList.take n = p'.toList.take n

/-- The result depends on the declared bytes only, and the handshake of a cell that is accepted is among them. -/
structure ReadsSent {α : Type} (n : Nat) (parse : Vector UInt8 RELAY_PAYLOAD_SIZE → Option α) (handshake : α → List UInt8) :
    Prop where
  same : ∀ p p', SameSent n p p' → parse p = parse p'
  within : ∀ p cell, parse p = some cell → handshake cell <:+: p.toList.take n

variable {n : Nat} {input rest : List UInt8}

/-- A command that is not one of a cell. -/
theorem readsSent_none {α : Type} {parse : Vector UInt8 RELAY_PAYLOAD_SIZE → Option α} {handshake : α → List UInt8}
    (h : ∀ p, parse p = none) : ReadsSent n parse handshake where
  same p p' _ := by rw [h p, h p']
  within p cell hcell := by
    rw [h p] at hcell
    cases hcell

section
variable {n k : Nat} {p p' : Vector UInt8 RELAY_PAYLOAD_SIZE}

theorem SameSent.take (h : SameSent n p p') (hk : k ≤ n) : p.toList.take k = p'.toList.take k := by
  have htake := congrArg (List.take k) h
  rwa [List.take_take, List.take_take, Nat.min_eq_left hk] at htake

theorem SameSent.drop_take (h : SameSent n p p') {i : Nat} (hk : i + k ≤ n) :
    (p.toList.drop i).take k = (p'.toList.drop i).take k := by
  rw [List.take_drop, List.take_drop, h.take hk]

theorem drop_take_infix {l : List UInt8} {i : Nat} (hk : i + k ≤ n) : (l.drop i).take k <:+: l.take n := by
  rw [List.take_drop]
  have hprefix : l.take (i + k) <+: l.take n := List.take_prefix_take_left hk
  exact (List.drop_suffix i _).isInfix.trans hprefix.isInfix

end

/-! ## What the generated parsers leave -/

theorem readUInt16_suffix {x : UInt16} (h : readUInt16 input = some (x, rest)) : rest <:+ input := by
  unfold readUInt16 at h
  split at h
  · cases h
    exact List.drop_suffix 2 input
  · cases h

theorem readUInt32_suffix {x : UInt32} (h : readUInt32 input = some (x, rest)) : rest <:+ input := by
  unfold readUInt32 at h
  split at h
  · cases h
    exact List.drop_suffix 4 input
  · cases h

theorem takeBytes_split {bytes : Vector UInt8 n}
    (h : takeBytes n input = some (bytes, rest)) : bytes.toList ++ rest = input := by
  unfold takeBytes at h
  split at h
  · cases h
    exact List.take_append_drop n input
  · cases h

theorem linkSpecifierParse_suffix {ls : LinkSpecifier}
    (h : linkSpecifierParse input = some (ls, rest)) : rest <:+ input := by
  unfold linkSpecifierParse at h
  split at h
  next lsType lsLen more =>
    split at h
    · cases h
    · obtain ⟨un, -, heq⟩ := Option.map_eq_some_iff.mp h
      cases heq
      have hmore : more.drop lsLen.toNat <:+ more := List.drop_suffix _ _
      exact hmore.trans ((List.suffix_cons lsLen more).trans (List.suffix_cons lsType _))
  · cases h

theorem linkSpecifiersParse_suffix {specs : List LinkSpecifier}
    (h : linkSpecifiersParse n input = some (specs, rest)) : rest <:+ input := by
  induction n generalizing input specs with
  | zero =>
    cases h
    exact List.suffix_rfl
  | succ n ih =>
    simp only [linkSpecifiersParse, Option.bind_eq_bind, Option.bind_eq_some_iff] at h
    obtain ⟨⟨ls, after⟩, hfirst, ⟨more, rest'⟩, hmore, heq⟩ := h
    cases heq
    exact (ih hmore).trans (linkSpecifierParse_suffix hfirst)

theorem extend1CellBodyParse_onionskin {body : Extend1CellBody}
    (h : extend1CellBodyParse input = some (body, rest)) : body.onionskin.toList <:+: input := by
  simp only [extend1CellBodyParse, Option.bind_eq_bind, Option.bind_eq_some_iff] at h
  obtain ⟨⟨addr, input1⟩, haddr, ⟨port, input2⟩, hport, ⟨skin, input3⟩, hskin, ⟨id, input4⟩, -, heq⟩ := h
  cases heq
  have hstart : skin.toList <+: input2 := ⟨input3, takeBytes_split hskin⟩
  have htail : input2 <:+ input := (readUInt16_suffix hport).trans (readUInt32_suffix haddr)
  exact hstart.isInfix.trans htail.isInfix

theorem create2CellBodyParse_data {body : Create2CellBody} (h : create2CellBodyParse input = some (body, rest)) :
    body.handshakeData <:+: input ∧ body.handshakeData.length = body.handshakeLen.toNat := by
  simp only [create2CellBodyParse, Option.bind_eq_bind, Option.bind_eq_some_iff] at h
  obtain ⟨⟨type, input1⟩, htype, ⟨len, input2⟩, hlen, heq⟩ := h
  split at heq
  · cases heq
  next hroom =>
    cases heq
    have hstart : input2.take len.toNat <+: input2 := List.take_prefix _ _
    have htail : input2 <:+ input := (readUInt16_suffix hlen).trans (readUInt16_suffix htype)
    exact ⟨hstart.isInfix.trans htail.isInfix, List.length_take_of_le (Nat.le_of_not_lt hroom)⟩

theorem extend2CellBodyParse_data {body : Extend2CellBody} (h : extend2CellBodyParse input = some (body, rest)) :
    body.create2.handshakeData <:+: input ∧ body.create2.handshakeData.length = body.create2.handshakeLen.toNat := by
  unfold extend2CellBodyParse at h
  split at h
  · cases h
  next nSpec more =>
    simp only [Option.bind_eq_bind, Option.bind_eq_some_iff] at h
    obtain ⟨⟨specs, input1⟩, hspecs, ⟨create2, input2⟩, hcreate2, heq⟩ := h
    cases heq
    obtain ⟨hdata, hlen⟩ := create2CellBodyParse_data hcreate2
    have htail : input1 <:+ nSpec :: more := (linkSpecifiersParse_suffix hspecs).trans (List.suffix_cons nSpec more)
    exact ⟨hdata.trans htail.isInfix, hlen⟩

/-! ## EXTEND and EXTEND2 -/

theorem extend1_handshake (body : Extend1CellBody) :
    (extendCellFromExtend1CellBody body).createCell.handshake <:+: body.onionskin.toList := by
  have hlength : body.onionskin.toList.length = 186 := body.onionskin.length_toList
  simp only [extendCellFromExtend1CellBody]
  split
  · rw [handshake_init (by decide) (by rw [List.length_drop, hlength]; decide)]
    have hprefix := List.take_prefix (UInt16.ofNat NTOR_ONIONSKIN_LEN).toNat (body.onionskin.toList.drop 16)
    exact hprefix.isInfix.trans (List.drop_suffix 16 _).isInfix
  · rw [handshake_init (by decide) (by rw [hlength]; decide)]
    exact (List.take_prefix _ _).isInfix

theorem extend2_handshake {body : Extend2CellBody} {cell : ExtendCell} (h : extendCellFromExtend2CellBody body = some cell)
    (hlen : body.create2.handshakeData.length = body.create2.handshakeLen.toNat) :
    cell.createCell.handshake = body.create2.handshakeData := by
  unfold extendCellFromExtend2CellBody at h
  split at h
  · cases h
  · split at h
    · cases h
    · split at h
      · cases h
      · obtain ⟨createCell, hcreate, rfl⟩ := Option.map_eq_some_iff.mp h
        unfold createCellFromCreate2CellBody at hcreate
        split at hcreate
        · cases hcreate
        next hfits =>
          cases hcreate
          change (createCellInit _ _ _ _).handshake = _
          rw [handshake_init (Nat.le_of_not_lt hfits) (Nat.le_of_eq hlen.symm), ← hlen, List.take_length]

/-- The generated parser is handed the declared bytes. -/
theorem extendCellParse_reads (command : UInt8) (n : Nat) :
    ReadsSent n (extendCellParse command · n) (·.createCell.handshake) where
  same p p' h := by
    unfold extendCellParse
    rw [show p.toList.take n = p'.toList.take n from h]
  within p cell hcell := by
    unfold extendCellParse at hcell
    split at hcell
    · cases hcell
    · obtain ⟨hparse, -⟩ := Option.filter_eq_some_iff.mp hcell
      split at hparse
      · obtain ⟨⟨body, rest⟩, hbody, rfl⟩ := Option.map_eq_some_iff.mp hparse
        exact (extend1_handshake body).trans (extend1CellBodyParse_onionskin hbody)
      · split at hparse
        · obtain ⟨⟨body, rest⟩, hbody, hfrom⟩ := Option.bind_eq_some_iff.mp hparse
          obtain ⟨hdata, hlen⟩ := extend2CellBodyParse_data hbody
          rw [extend2_handshake hfrom hlen]
          exact hdata
        · cases hparse

/-! ## EXTENDED and EXTENDED2 -/

theorem answer_init {cellType : UInt8} {len : UInt16} {src : List UInt8} (hlen : len.toNat ≤ CELL_PAYLOAD_SIZE - 2)
    (hsrc : len.toNat ≤ src.length) : (createdCellInit cellType len src).answer = src.take len.toNat := by
  have htake : (src.take len.toNat).length = len.toNat := List.length_take_of_le hsrc
  rw [CreatedCell.answer, createdCellInit, take_zeroPad (by rw [htake]; exact hlen) (Nat.le_of_eq htake.symm),
    List.take_take, Nat.min_self]

theorem createdCellInit_congr {cellType : UInt8} {len : UInt16} {src src' : List UInt8}
    (h : src.take len.toNat = src'.take len.toNat) : createdCellInit cellType len src = createdCellInit cellType len src' := by
  rw [createdCellInit, h, createdCellInit]

theorem extended_reads (n : Nat) :
    ReadsSent n (extendedCellParse RELAY_COMMAND_EXTENDED · n) (·.createdCell.answer) := by
  by_cases hn : n = TAP_ONIONSKIN_REPLY_LEN
  · subst hn
    have hlen : (UInt16.ofNat TAP_ONIONSKIN_REPLY_LEN).toNat = TAP_ONIONSKIN_REPLY_LEN := by decide
    have hsize : ¬ TAP_ONIONSKIN_REPLY_LEN > RELAY_PAYLOAD_SIZE := by decide
    constructor
    · intro p p' h
      have hinit : createdCellInit CELL_CREATED (UInt16.ofNat TAP_ONIONSKIN_REPLY_LEN) p.toList =
          createdCellInit CELL_CREATED (UInt16.ofNat TAP_ONIONSKIN_REPLY_LEN) p'.toList :=
        createdCellInit_congr (by rw [hlen]; exact h)
      simp only [extendedCellParse, if_true, hinit]
    · intro p cell hcell
      simp only [extendedCellParse, if_neg hsize, if_true, ne_eq, not_true_eq_false, if_false] at hcell
      obtain ⟨hparse, -⟩ := Option.filter_eq_some_iff.mp hcell
      cases hparse
      change (createdCellInit _ _ _).answer <:+: _
      rewrite [answer_init (by decide) (by rw [p.length_toList]; decide), hlen]
      exact List.infix_rfl
  · refine readsSent_none fun p => ?_
    simp only [extendedCellParse, if_true, ne_eq, hn, not_false_eq_true, Option.filter_none, ite_self]

/-- What is declared holds the length, so that the difference does not wrap. -/
theorem extended2_reads (hn : 2 ≤ n) :
    ReadsSent n (extendedCellParse RELAY_COMMAND_EXTENDED2 · n) (·.createdCell.answer) := by
  have hne : ¬ RELAY_COMMAND_EXTENDED2 = RELAY_COMMAND_EXTENDED := by decide
  by_cases hsize : n > RELAY_PAYLOAD_SIZE
  · exact readsSent_none fun p => by rw [extendedCellParse, if_pos hsize]
  · have hle : n ≤ 498 := Nat.le_of_not_lt hsize
    have hwrap : (n + 18446744073709551616 - 2) % 18446744073709551616 = n - 2 := by omega
    constructor
    · intro p p' h
      simp only [extendedCellParse, if_neg hsize, if_neg hne, if_true, hwrap, h.take hn]
      split
      · rfl
      next hfits =>
        have hlen : 2 + (UInt16.ofNat (ofBE (p'.toList.take 2))).toNat ≤ n := by omega
        rw [createdCellInit_congr (h.drop_take hlen)]
    · intro p cell hcell
      simp only [extendedCellParse, if_neg hsize, if_neg hne, if_true, hwrap] at hcell
      obtain ⟨hparse, -⟩ := Option.filter_eq_some_iff.mp hcell
      split at hparse
      · cases hparse
      next hfits =>
        cases hparse
        have hlen : 2 + (UInt16.ofNat (ofBE (p.toList.take 2))).toNat ≤ n := by omega
        have hlength : (p.toList.drop 2).length = 496 :=
          List.length_drop.trans (congrArg (· - 2) p.length_toList)
        have hroom : (UInt16.ofNat (ofBE (p.toList.take 2))).toNat ≤ 496 := by omega
        change (createdCellInit _ _ _).answer <:+: _
        rw [answer_init (Nat.le_trans hroom (by decide)) (by rw [hlength]; exact hroom)]
        exact drop_take_infix hlen

theorem extendedCellParse_other {command : UInt8} (hcmd : command ≠ RELAY_COMMAND_EXTENDED)
    (hcmd2 : command ≠ RELAY_COMMAND_EXTENDED2) (n : Nat) :
    ReadsSent n (extendedCellParse command · n) (·.createdCell.answer) :=
  readsSent_none fun p => by simp only [extendedCellParse, if_neg hcmd, if_neg hcmd2, Option.filter_none, ite_self]

/-- Two payloads that differ in their second byte only. -/
def emptyReply : Vector UInt8 RELAY_PAYLOAD_SIZE := zeroPad _ []

def oneByteReply : Vector UInt8 RELAY_PAYLOAD_SIZE := zeroPad _ [0, 1]

theorem extended2_reads_on (hn : n < 2) : SameSent n emptyReply oneByteReply ∧
    extendedCellParse RELAY_COMMAND_EXTENDED2 emptyReply n ≠ extendedCellParse RELAY_COMMAND_EXTENDED2 oneByteReply n := by
  have hcases : n = 0 ∨ n = 1 := by omega
  rcases hcases with rfl | rfl
  · exact ⟨by simp only [SameSent, List.take_zero], by decide +kernel⟩
  · exact ⟨by unfold SameSent; decide +kernel, by decide +kernel⟩

/-- The parsers read what was sent, but for an EXTENDED2 cell of which less than the length was sent. -/
theorem cell_parsers_read_what_was_sent (command : UInt8) (n : Nat) :
    (ReadsSent n (extendedCellParse command · n) (·.createdCell.answer) ∧
      ReadsSent n (extendCellParse command · n) (·.createCell.handshake)) ↔
    ¬ (command = RELAY_COMMAND_EXTENDED2 ∧ n < 2) := by
  constructor
  · rintro ⟨hreads, -⟩ ⟨rfl, hn⟩
    obtain ⟨hsame, hne⟩ := extended2_reads_on hn
    exact hne (hreads.same _ _ hsame)
  · intro hsent
    refine ⟨?_, extendCellParse_reads command n⟩
    by_cases hcmd : command = RELAY_COMMAND_EXTENDED
    · rw [hcmd]
      exact extended_reads n
    · by_cases hcmd2 : command = RELAY_COMMAND_EXTENDED2
      · rw [hcmd2]
        exact extended2_reads (Nat.le_of_not_lt fun hn => hsent ⟨hcmd2, hn⟩)
      · exact extendedCellParse_other hcmd hcmd2 n

/-- Nothing is declared, and the cell that is accepted has the length and the reply that stood in the buffer. -/
theorem undeclared_reply_is_accepted :
    SameSent 0 emptyReply oneByteReply ∧
    (extendedCellParse RELAY_COMMAND_EXTENDED2 emptyReply 0).map (·.createdCell.handshakeLen) = some 0 ∧
    (extendedCellParse RELAY_COMMAND_EXTENDED2 oneByteReply 0).map (·.createdCell.handshakeLen) = some 1 ∧
    ¬ (0 ≤ RELAY_PAYLOAD_SIZE → ∀ p p', SameSent 0 p p' →
      extendedCellParse RELAY_COMMAND_EXTENDED2 p 0 = extendedCellParse RELAY_COMMAND_EXTENDED2 p' 0) :=
  have hon := extended2_reads_on (Nat.zero_lt_two)
  ⟨hon.1, by decide +kernel, by decide +kernel, fun h => hon.2 (h (Nat.zero_le _) _ _ hon.1)⟩

end Badnet.Cells

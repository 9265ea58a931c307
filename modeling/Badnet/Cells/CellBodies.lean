/-
  Badnet.Cells.CellBodies — the bodies of EXTEND, EXTEND2 and CREATE2 cells (`src/trunnel/ed25519_cert.c`).

  A parser gives a body and the input that follows it, or fails; -1 and -2 are one failure, since no caller tells them
  apart. An encoder fails when its object is not consistent or when the bytes do not fit. What an encoder wrote is
  parsed back, whatever follows (`extend2_parse_encode`).
-/

import Badnet.Lib.Bytes

namespace Badnet.Cells

open Lib

def TAP_ONIONSKIN_CHALLENGE_LEN : Nat := 186

def DIGEST_LEN : Nat := 20

/-! ## EXTEND -/

structure Extend1CellBody where
  ipv4addr : UInt32
  port : UInt16
  onionskin : Vector UInt8 186
  identity : Vector UInt8 20

variable (input : List UInt8)

def extend1CellBodyParse : Option (Extend1CellBody × List UInt8) := do
  let (ipv4addr, input) ← readUInt32 input
  let (port, input) ← readUInt16 input
  let (onionskin, input) ← takeBytes 186 input
  let (identity, input) ← takeBytes 20 input
  some ({ ipv4addr, port, onionskin, identity }, input)

/-- The fields in their order, which is what `extend_cell_format` writes. -/
theorem extend1_parse (body : Extend1CellBody) (rest : List UInt8) :
    extend1CellBodyParse (toBE 4 body.ipv4addr.toNat ++ (toBE 2 body.port.toNat ++
      (body.onionskin.toList ++ (body.identity.toList ++ rest)))) = some (body, rest) := by
  simp [extend1CellBodyParse]

/-! ## Link specifiers -/

def LS_IPV4 : UInt8 := 0

def LS_IPV6 : UInt8 := 1

def LS_LEGACY_ID : UInt8 := 2

def LS_ED25519_ID : UInt8 := 3

/-- The union is chosen by the type. -/
inductive LinkSpecifier where
  | ipv4 (addr : UInt32) (port : UInt16)
  | ipv6 (addr : Vector UInt8 16) (port : UInt16)
  | legacyId (id : Vector UInt8 20)
  | ed25519Id (id : Vector UInt8 32)
  | unrecognized (lsType : UInt8) (bytes : List UInt8)

namespace LinkSpecifier

def lsType : LinkSpecifier → UInt8
  | ipv4 .. => LS_IPV4
  | ipv6 .. => LS_IPV6
  | legacyId _ => LS_LEGACY_ID
  | ed25519Id _ => LS_ED25519_ID
  | unrecognized lsType _ => lsType

def un : LinkSpecifier → List UInt8
  | ipv4 addr port => toBE 4 addr.toNat ++ toBE 2 port.toNat
  | ipv6 addr port => addr.toList ++ toBE 2 port.toNat
  | legacyId id => id.toList
  | ed25519Id id => id.toList
  | unrecognized _ bytes => bytes

/-- One of the types that `extend_cell_format` writes. -/
def Known : LinkSpecifier → Prop
  | unrecognized .. => False
  | _ => True

end LinkSpecifier

/-- The length is written back after the union. -/
def linkSpecifierEncode (avail : Nat) (ls : LinkSpecifier) : Option (List UInt8) :=
  if avail < 2 + ls.un.length then none
  else if 255 < ls.un.length then none
  else some (ls.lsType :: UInt8.ofNat ls.un.length :: ls.un)

/-- All bytes of the union must be used. -/
def linkSpecifierUnParse (lsType : UInt8) (un : List UInt8) : Option LinkSpecifier :=
  if lsType = LS_IPV4 then do
    let (addr, un) ← readUInt32 un
    let (port, un) ← readUInt16 un
    if un.isEmpty then some (.ipv4 addr port) else none
  else if lsType = LS_IPV6 then do
    let (addr, un) ← takeBytes 16 un
    let (port, un) ← readUInt16 un
    if un.isEmpty then some (.ipv6 addr port) else none
  else if lsType = LS_LEGACY_ID then do
    let (id, un) ← takeBytes 20 un
    if un.isEmpty then some (.legacyId id) else none
  else if lsType = LS_ED25519_ID then do
    let (id, un) ← takeBytes 32 un
    if un.isEmpty then some (.ed25519Id id) else none
  else some (.unrecognized lsType un)

def linkSpecifierParse : Option (LinkSpecifier × List UInt8) :=
  match input with
  | lsType :: lsLen :: input =>
    if input.length < lsLen.toNat then none
    else (linkSpecifierUnParse lsType (input.take lsLen.toNat)).map (·, input.drop lsLen.toNat)
  | _ => none

theorem linkSpecifierUnParse_un {ls : LinkSpecifier} (h : ls.Known) : linkSpecifierUnParse ls.lsType ls.un = some ls := by
  have htake : ∀ {n : Nat} (id : Vector UInt8 n), takeBytes n id.toList = some (id, []) := by
    intro n id
    simpa using takeBytes_append id []
  have hport : ∀ port : UInt16, readUInt16 (toBE 2 port.toNat) = some (port, []) := by
    intro port
    simpa using readUInt16_append port []
  cases ls with
  | ipv4 addr port => simp [linkSpecifierUnParse, LinkSpecifier.lsType, LinkSpecifier.un, hport]
  | ipv6 addr port => simp [linkSpecifierUnParse, LinkSpecifier.lsType, LinkSpecifier.un, hport, LS_IPV6, LS_IPV4]
  | legacyId id => simp [linkSpecifierUnParse, LinkSpecifier.lsType, LinkSpecifier.un, htake, LS_LEGACY_ID, LS_IPV6, LS_IPV4]
  | ed25519Id id => simp [linkSpecifierUnParse, LinkSpecifier.lsType, LinkSpecifier.un, htake, LS_ED25519_ID, LS_LEGACY_ID,
      LS_IPV6, LS_IPV4]
  | unrecognized lsType bytes => exact h.elim

variable {avail : Nat} {out : List UInt8}

theorem linkSpecifier_parse_encode {ls : LinkSpecifier} (h : ls.Known)
    (hout : linkSpecifierEncode avail ls = some out) (rest : List UInt8) : linkSpecifierParse (out ++ rest) = some (ls, rest) := by
  unfold linkSpecifierEncode at hout
  split at hout
  · cases hout
  · split at hout
    · cases hout
    next hlen =>
      cases hout
      have hsize : ls.un.length < UInt8.size := Nat.lt_succ_of_le (Nat.le_of_not_lt hlen)
      have hbyte : (UInt8.ofNat ls.un.length).toNat = ls.un.length := UInt8.toNat_ofNat_of_lt' hsize
      simp [linkSpecifierParse, hbyte, linkSpecifierUnParse_un h]

/-! ## CREATE2 and EXTEND2 -/

structure Create2CellBody where
  handshakeType : UInt16
  handshakeLen : UInt16
  handshakeData : List UInt8

def create2CellBodyEncode (avail : Nat) (body : Create2CellBody) : Option (List UInt8) :=
  if body.handshakeData.length ≠ body.handshakeLen.toNat then none
  else if avail < 4 + body.handshakeData.length then none
  else some (toBE 2 body.handshakeType.toNat ++ (toBE 2 body.handshakeLen.toNat ++ body.handshakeData))

def create2CellBodyParse : Option (Create2CellBody × List UInt8) := do
  let (handshakeType, input) ← readUInt16 input
  let (handshakeLen, input) ← readUInt16 input
  if input.length < handshakeLen.toNat then none
  else some ({ handshakeType, handshakeLen, handshakeData := input.take handshakeLen.toNat }, input.drop handshakeLen.toNat)

structure Extend2CellBody where
  nSpec : UInt8
  ls : List LinkSpecifier
  create2 : Create2CellBody

/-- Each specifier gets the room that those before it left. -/
def linkSpecifiersEncode (avail : Nat) : List LinkSpecifier → Option (List UInt8)
  | [] => some []
  | ls :: more =>
    match linkSpecifierEncode avail ls with
    | none => none
    | some out => (linkSpecifiersEncode (avail - out.length) more).map (out ++ ·)

def linkSpecifiersParse : Nat → List UInt8 → Option (List LinkSpecifier × List UInt8)
  | 0, input => some ([], input)
  | n + 1, input => do
    let (ls, input) ← linkSpecifierParse input
    let (more, input) ← linkSpecifiersParse n input
    some (ls :: more, input)

def extend2CellBodyEncode (avail : Nat) (body : Extend2CellBody) : Option (List UInt8) :=
  if body.ls.length ≠ body.nSpec.toNat then none
  else if avail < 1 then none
  else
    match linkSpecifiersEncode (avail - 1) body.ls with
    | none => none
    | some specs => (create2CellBodyEncode (avail - 1 - specs.length) body.create2).map (body.nSpec :: specs ++ ·)

def extend2CellBodyParse : Option (Extend2CellBody × List UInt8) :=
  match input with
  | [] => none
  | nSpec :: input => do
    let (ls, input) ← linkSpecifiersParse nSpec.toNat input
    let (create2, input) ← create2CellBodyParse input
    some ({ nSpec, ls, create2 }, input)

theorem create2_parse_encode {body : Create2CellBody}
    (hout : create2CellBodyEncode avail body = some out) (rest : List UInt8) :
    create2CellBodyParse (out ++ rest) = some (body, rest) := by
  unfold create2CellBodyEncode at hout
  split at hout
  · cases hout
  next hlen =>
    split at hout
    · cases hout
    · cases hout
      have hdata : body.handshakeLen.toNat = body.handshakeData.length := (Decidable.not_not.mp hlen).symm
      simp only [create2CellBodyParse, List.append_assoc, readUInt16_append, Option.bind_eq_bind, Option.bind_some]
      have hroom : ¬ (body.handshakeData ++ rest).length < body.handshakeLen.toNat := by
        rw [List.length_append]
        omega
      rw [if_neg hroom, List.take_left' hdata.symm, List.drop_left' hdata.symm]

theorem linkSpecifiers_parse_encode {specs : List LinkSpecifier} (h : ∀ ls ∈ specs, ls.Known)
    (hout : linkSpecifiersEncode avail specs = some out) (rest : List UInt8) :
    linkSpecifiersParse specs.length (out ++ rest) = some (specs, rest) := by
  induction specs generalizing avail out with
  | nil =>
    cases hout
    rfl
  | cons ls specs ih =>
    simp only [linkSpecifiersEncode] at hout
    split at hout
    · cases hout
    next first hfirst =>
      obtain ⟨others, hothers, rfl⟩ := Option.map_eq_some_iff.mp hout
      have hls := linkSpecifier_parse_encode (h ls List.mem_cons_self) hfirst (others ++ rest)
      simp [linkSpecifiersParse, hls, ih (fun l hl => h l (List.mem_cons_of_mem ls hl)) hothers]

theorem extend2_parse_encode {body : Extend2CellBody} (h : ∀ ls ∈ body.ls, ls.Known)
    (hout : extend2CellBodyEncode avail body = some out) (rest : List UInt8) :
    extend2CellBodyParse (out ++ rest) = some (body, rest) := by
  unfold extend2CellBodyEncode at hout
  split at hout
  · cases hout
  next hlen =>
    split at hout
    · cases hout
    · split at hout
      · cases hout
      next specs hspecs =>
        obtain ⟨create2, hcreate2, rfl⟩ := Option.map_eq_some_iff.mp hout
        have hls := linkSpecifiers_parse_encode h hspecs (create2 ++ rest)
        rw [Decidable.not_not.mp hlen] at hls
        simp [extend2CellBodyParse, hls, create2_parse_encode hcreate2]

/-! ## What was encoded fits -/

theorem create2CellBodyEncode_length {body : Create2CellBody} (hout : create2CellBodyEncode avail body = some out) :
    out.length ≤ avail ∧ out.length = 4 + body.handshakeData.length := by
  unfold create2CellBodyEncode at hout
  split at hout
  · cases hout
  · split at hout
    · cases hout
    · cases hout
      have hlen : (toBE 2 body.handshakeType.toNat ++ (toBE 2 body.handshakeLen.toNat ++ body.handshakeData)).length =
          4 + body.handshakeData.length := by
        simp only [List.length_append, length_toBE]
        omega
      exact ⟨by omega, hlen⟩

theorem extend2CellBodyEncode_length {body : Extend2CellBody} (hout : extend2CellBodyEncode avail body = some out) :
    out.length ≤ avail ∧ 5 + body.create2.handshakeData.length ≤ out.length := by
  unfold extend2CellBodyEncode at hout
  split at hout
  · cases hout
  · split at hout
    · cases hout
    · split at hout
      · cases hout
      next specs hspecs =>
        obtain ⟨create2, hcreate2, rfl⟩ := Option.map_eq_some_iff.mp hout
        obtain ⟨hroom, hdata⟩ := create2CellBodyEncode_length hcreate2
        simp only [List.cons_append, List.length_cons, List.length_append]
        omega

end Badnet.Cells

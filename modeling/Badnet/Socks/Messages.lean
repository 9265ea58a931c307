/-
  Badnet.Socks.Messages — the messages a SOCKS client sends (`trunnel/socks5.c`).

  Each parser goes through the fields in their order, stops at the first value that is not allowed, and says that the
  input is truncated when a field is not there in full. So all of them are steady (`socks4ClientRequestParse_steady` and
  the others), and the three SOCKS5 messages have at most 257, 513 and 262 bytes.
-/

import Badnet.Lib.Bytes
import Badnet.Lib.Incremental

namespace Badnet.Socks

open Lib

def CMD_CONNECT : UInt8 := 1

def CMD_BIND : UInt8 := 2

def CMD_UDP_ASSOCIATE : UInt8 := 3

def CMD_RESOLVE : UInt8 := 240

def CMD_RESOLVE_PTR : UInt8 := 241

def ATYPE_IPV4 : UInt8 := 1

def ATYPE_DOMAINNAME : UInt8 := 3

def ATYPE_IPV6 : UInt8 := 4

/-! ## Fields -/

def u8 : Reader UInt8 UInt8 := Reader.item

def u16 : Reader UInt8 UInt16 := do
  let bytes ← Reader.items 2
  return UInt16.ofNat (ofBE bytes)

def u32 : Reader UInt8 UInt32 := do
  let bytes ← Reader.items 4
  return UInt32.ofNat (ofBE bytes)

/-- A string with its length before it. -/
def counted : Reader UInt8 (List UInt8) := do
  let len ← u8
  Reader.items len.toNat

def nulterm : Reader UInt8 (List UInt8) := Reader.upTo 0

theorem u8_steady : Steady u8 := .item

theorem u16_steady : Steady u16 := (Steady.items 2).bind fun _ => .pure _

theorem u32_steady : Steady u32 := (Steady.items 4).bind fun _ => .pure _

theorem counted_steady : Steady counted := u8_steady.bind fun _ => .items _

theorem nulterm_steady : Steady nulterm := .upTo 0

theorem u8_within : Within 1 u8 := .item

theorem u16_within : Within 2 u16 := (Within.items 2).bind fun _ => .pure _

theorem u32_within : Within 4 u32 := (Within.items 4).bind fun _ => .pure _

theorem counted_within : Within 256 counted :=
  u8_within.bind fun len => (Within.items len.toNat).mono (Nat.le_of_lt_succ len.toNat_lt)

/-! ## SOCKS4 -/

/-- The hostname is there for a SOCKS4a address. -/
structure Socks4ClientRequest where
  version : UInt8
  command : UInt8
  port : UInt16
  addr : UInt32
  username : List UInt8
  hostname : Option (List UInt8)
  deriving DecidableEq

def socks4aHostname (addr : UInt32) : Reader UInt8 (Option (List UInt8)) :=
  if 1 ≤ addr ∧ addr ≤ 255 then do
    let hostname ← nulterm
    return some hostname
  else return none

def socks4ClientRequestParse : Reader UInt8 Socks4ClientRequest := do
  let version ← u8
  Reader.check (version = 4)
  let command ← u8
  Reader.check (command = CMD_BIND ∨ command = CMD_CONNECT ∨ command = CMD_RESOLVE ∨ command = CMD_RESOLVE_PTR)
  let port ← u16
  let addr ← u32
  let username ← nulterm
  let hostname ← socks4aHostname addr
  return { version, command, port, addr, username, hostname }

theorem socks4aHostname_steady (addr : UInt32) : Steady (socks4aHostname addr) := by
  unfold socks4aHostname
  split
  · exact nulterm_steady.bind fun _ => .pure _
  · exact .pure _

theorem socks4ClientRequestParse_steady : Steady socks4ClientRequestParse :=
  u8_steady.bind fun _ => (Steady.check _).bind fun _ => u8_steady.bind fun _ => (Steady.check _).bind fun _ =>
    u16_steady.bind fun _ => u32_steady.bind fun addr => nulterm_steady.bind fun _ =>
      (socks4aHostname_steady addr).bind fun _ => .pure _

/-! ## SOCKS5 -/

structure Socks5ClientVersion where
  version : UInt8
  methods : List UInt8
  deriving DecidableEq

def socks5ClientVersionParse : Reader UInt8 Socks5ClientVersion := do
  let version ← u8
  Reader.check (version = 5)
  let methods ← counted
  return { version, methods }

structure Socks5ClientUserpassAuth where
  version : UInt8
  username : List UInt8
  passwd : List UInt8
  deriving DecidableEq

def socks5ClientUserpassAuthParse : Reader UInt8 Socks5ClientUserpassAuth := do
  let version ← u8
  Reader.check (version = 1)
  let username ← counted
  let passwd ← counted
  return { version, username, passwd }

inductive DestAddr where
  | ipv4 (addr : UInt32)
  | domainname (name : List UInt8)
  | ipv6 (addr : Vector UInt8 16)
  deriving DecidableEq

structure Socks5ClientRequest where
  version : UInt8
  command : UInt8
  atype : UInt8
  destAddr : DestAddr
  destPort : UInt16
  deriving DecidableEq

variable (atype : UInt8)

def destAddrParse : Reader UInt8 DestAddr :=
  if atype = ATYPE_IPV4 then do
    let addr ← u32
    return .ipv4 addr
  else if atype = ATYPE_IPV6 then do
    let addr ← Reader.items 16
    return .ipv6 (zeroPad 16 addr)
  else if atype = ATYPE_DOMAINNAME then do
    let name ← counted
    return .domainname name
  else Reader.refuse

def socks5ClientRequestParse : Reader UInt8 Socks5ClientRequest := do
  let version ← u8
  Reader.check (version = 5)
  let command ← u8
  Reader.check (command = CMD_BIND ∨ command = CMD_CONNECT ∨ command = CMD_RESOLVE ∨ command = CMD_RESOLVE_PTR ∨
    command = CMD_UDP_ASSOCIATE)
  let reserved ← u8
  Reader.check (reserved = 0)
  let atype ← u8
  let destAddr ← destAddrParse atype
  let destPort ← u16
  return { version, command, atype, destAddr, destPort }

theorem socks5ClientVersionParse_steady : Steady socks5ClientVersionParse :=
  u8_steady.bind fun _ => (Steady.check _).bind fun _ => counted_steady.bind fun _ => .pure _

theorem socks5ClientVersionParse_within : Within 257 socks5ClientVersionParse :=
  u8_within.bind fun _ => (Within.check _).bind fun _ => counted_within.bind fun _ => .pure _

theorem socks5ClientUserpassAuthParse_steady : Steady socks5ClientUserpassAuthParse :=
  u8_steady.bind fun _ => (Steady.check _).bind fun _ => counted_steady.bind fun _ => counted_steady.bind fun _ => .pure _

theorem socks5ClientUserpassAuthParse_within : Within 513 socks5ClientUserpassAuthParse :=
  u8_within.bind fun _ => (Within.check _).bind fun _ => counted_within.bind fun _ => counted_within.bind fun _ => .pure _

theorem destAddrParse_steady : Steady (destAddrParse atype) := by
  unfold destAddrParse
  split
  · exact u32_steady.bind fun _ => .pure _
  split
  · exact (Steady.items 16).bind fun _ => .pure _
  split
  · exact counted_steady.bind fun _ => .pure _
  · exact .refuse

theorem destAddrParse_within : Within 256 (destAddrParse atype) := by
  unfold destAddrParse
  split
  · exact (u32_within.bind fun _ => .pure _).mono (by decide)
  split
  · exact ((Within.items 16).bind fun _ => .pure _).mono (by decide)
  split
  · exact counted_within.bind fun _ => .pure _
  · exact Within.refuse.mono (by decide)

theorem socks5ClientRequestParse_steady : Steady socks5ClientRequestParse :=
  u8_steady.bind fun _ => (Steady.check _).bind fun _ => u8_steady.bind fun _ => (Steady.check _).bind fun _ =>
    u8_steady.bind fun _ => (Steady.check _).bind fun _ => u8_steady.bind fun atype =>
      (destAddrParse_steady atype).bind fun _ => u16_steady.bind fun _ => .pure _

theorem socks5ClientRequestParse_within : Within 262 socks5ClientRequestParse :=
  u8_within.bind fun _ => (Within.check _).bind fun _ => u8_within.bind fun _ => (Within.check _).bind fun _ =>
    u8_within.bind fun _ => (Within.check _).bind fun _ => u8_within.bind fun atype =>
      (destAddrParse_within atype).bind fun _ => u16_within.bind fun _ => .pure _

/-! ## Lengths -/

section
variable {input rest : List UInt8}

theorem counted_ok {a : List UInt8} (h : counted input = .ok (a, rest)) :
    input.length = rest.length + a.length + 1 ∧ a.length ≤ 255 := by
  obtain ⟨len, mid, hlen, h⟩ := Reader.bind_ok.mp h
  rw [u8, Reader.item_ok] at hlen
  obtain ⟨rfl, ha⟩ := Reader.items_ok.mp h
  have hlt := len.toNat_lt
  rw [hlen]
  simp only [List.length_cons, List.length_append]
  omega

theorem version_ok {α : Type} {k : UInt8} {f : UInt8 → Reader UInt8 α} {a : α}
    (h : (u8 >>= fun version => Reader.check (version = k) >>= fun _ => f version) input = .ok (a, rest)) :
    ∃ mid, input = k :: mid ∧ f k mid = .ok (a, rest) := by
  obtain ⟨version, mid, hversion, h⟩ := Reader.bind_ok.mp h
  obtain ⟨_, mid', hcheck, h⟩ := Reader.bind_ok.mp h
  obtain ⟨rfl, rfl⟩ := Reader.check_ok.mp hcheck
  exact ⟨mid, Reader.item_ok.mp hversion, h⟩

theorem methods_length {t : Socks5ClientVersion} (h : socks5ClientVersionParse input = .ok (t, rest)) :
    input.length = rest.length + t.methods.length + 2 ∧ input.head? = some 5 := by
  obtain ⟨mid, rfl, hmid⟩ := version_ok h
  obtain ⟨methods, mid', hmethods, h⟩ := Reader.bind_ok.mp hmid
  cases h
  have hlen := (counted_ok hmethods).1
  refine ⟨?_, rfl⟩
  simp only [List.length_cons]
  omega

theorem userpass_length {t : Socks5ClientUserpassAuth} (h : socks5ClientUserpassAuthParse input = .ok (t, rest)) :
    input.length = rest.length + t.username.length + t.passwd.length + 3 ∧ input.head? = some 1 ∧
    t.username.length ≤ 255 ∧ t.passwd.length ≤ 255 := by
  obtain ⟨mid, rfl, hmid⟩ := version_ok h
  obtain ⟨username, mid', husername, h⟩ := Reader.bind_ok.mp hmid
  obtain ⟨passwd, mid'', hpasswd, h⟩ := Reader.bind_ok.mp h
  cases h
  have hu := counted_ok husername
  have hp := counted_ok hpasswd
  refine ⟨?_, rfl, hu.2, hp.2⟩
  simp only [List.length_cons]
  omega

theorem request_version {t : Socks5ClientRequest} (h : socks5ClientRequestParse input = .ok (t, rest)) :
    t.version = 5 ∧ input.head? = some 5 := by
  obtain ⟨mid, rfl, hmid⟩ := version_ok h
  obtain ⟨command, mid1, _, h⟩ := Reader.bind_ok.mp hmid
  obtain ⟨_, mid2, _, h⟩ := Reader.bind_ok.mp h
  obtain ⟨reserved, mid3, _, h⟩ := Reader.bind_ok.mp h
  obtain ⟨_, mid4, _, h⟩ := Reader.bind_ok.mp h
  obtain ⟨atype, mid5, _, h⟩ := Reader.bind_ok.mp h
  obtain ⟨destAddr, mid₆, _, h⟩ := Reader.bind_ok.mp h
  obtain ⟨destPort, mid₇, _, h⟩ := Reader.bind_ok.mp h
  cases h
  exact ⟨rfl, rfl⟩

theorem counted_ne_bad : counted input ≠ .error .bad := by
  rw [counted, Reader.bind_apply]
  intro h
  cases input with
  | nil => cases h
  | cons len input =>
    simp only [u8, Reader.item, Reader.items] at h
    split at h <;> cases h

/-- From the version on nothing is refused. -/
theorem userpass_ne_bad (h : input.head? = some 1) : socks5ClientUserpassAuthParse input ≠ .error .bad := by
  obtain ⟨tail, rfl⟩ : ∃ tail, input = 1 :: tail := by
    cases input with
    | nil => cases h
    | cons b tail =>
      cases h
      exact ⟨tail, rfl⟩
  intro hbad
  simp only [socks5ClientUserpassAuthParse, Reader.bind_apply, u8, Reader.item, Reader.check, if_true] at hbad
  split at hbad
  next username mid _ =>
    split at hbad
    next => cases hbad
    next hread =>
      cases hbad
      exact counted_ne_bad hread
  next hread =>
    cases hbad
    exact counted_ne_bad hread

/-- The bytes that the hostname takes. -/
def Socks4ClientRequest.hostnameSize (t : Socks4ClientRequest) : Nat := t.hostname.elim 0 (·.length + 1)

theorem socks4_length {t : Socks4ClientRequest} (h : socks4ClientRequestParse input = .ok (t, rest)) :
    input.length = rest.length + t.hostnameSize + t.username.length + 9 ∧ input.head? = some 4 ∧
    (t.hostname.isSome ↔ 1 ≤ t.addr ∧ t.addr ≤ 255) := by
  obtain ⟨mid, rfl, hmid⟩ := version_ok h
  obtain ⟨command, mid1, hcommand, h⟩ := Reader.bind_ok.mp hmid
  obtain ⟨_, mid2, hcheck, h⟩ := Reader.bind_ok.mp h
  obtain ⟨port, mid3, hport, h⟩ := Reader.bind_ok.mp h
  obtain ⟨addr, mid4, haddr, h⟩ := Reader.bind_ok.mp h
  obtain ⟨username, mid5, husername, h⟩ := Reader.bind_ok.mp h
  obtain ⟨hostname, mid₆, hhostname, h⟩ := Reader.bind_ok.mp h
  cases h
  obtain ⟨two, _, htwo, hport⟩ := Reader.bind_ok.mp hport
  obtain ⟨four, _, hfour, haddr⟩ := Reader.bind_ok.mp haddr
  cases hport
  cases haddr
  obtain ⟨-, rfl⟩ := Reader.check_ok.mp hcheck
  obtain ⟨rfl, hlen2⟩ := Reader.items_ok.mp htwo
  obtain ⟨rfl, hlen4⟩ := Reader.items_ok.mp hfour
  have hcommand := Reader.item_ok.mp hcommand
  have husername := Reader.upTo_ok husername
  have hend : mid5.length = rest.length + hostname.elim 0 (·.length + 1) ∧
      (hostname.isSome ↔ 1 ≤ UInt32.ofNat (ofBE four) ∧ UInt32.ofNat (ofBE four) ≤ 255) := by
    unfold socks4aHostname at hhostname
    split at hhostname
    next h4a =>
      obtain ⟨word, _, hword, h⟩ := Reader.bind_ok.mp hhostname
      cases h
      have hword := Reader.upTo_ok hword
      refine ⟨?_, by simp [h4a]⟩
      rw [hword]
      simp only [List.length_append, List.length_cons, Option.elim_some]
      omega
    next h4a =>
      cases hhostname
      exact ⟨rfl, by simp [h4a]⟩
  refine ⟨?_, rfl, hend.2⟩
  rw [hcommand, husername]
  simp only [List.length_cons, List.length_append, Socks4ClientRequest.hostnameSize]
  omega

end

end Badnet.Socks

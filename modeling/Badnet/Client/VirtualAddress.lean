/-
  Badnet.Client.VirtualAddress — addresses that are made up to stand for others (`feature/client/addressmap.c`).

  The address map sends a virtual address to the address it stands for; `virtaddress_reversemap` has, under an address,
  the virtual addresses that stand for it, one of each type. What `crypto_rand` writes is a parameter of a call, one
  draw for each attempt, and so is the order of a loop over the keys. A call stops where it reads a string that is not
  there (`badRead`), at an assertion, or when it needs more draws than there are.
-/

import Badnet.Client.Addressmap
import Badnet.Encoding.Base32
import Mathlib.Logic.Function.Basic

namespace Badnet.Client

open Encoding Net

inductive Stop where
  | badRead
  | assertion
  | unfinished
  deriving DecidableEq

/-! ## The virtual networks -/

structure VirtualAddrConf where
  addr : TorAddr
  bits : UInt8

/-- `virtaddr_conf_ipv4` and `virtaddr_conf_ipv6` -/
structure VirtaddrConf where
  ipv4 : VirtualAddrConf
  ipv6 : VirtualAddrConf

/-- `strcasecmpend` finds no difference. -/
def endsWithNoCase (s suffix : Text) : Bool := endsWith (torStrlower s) (torStrlower suffix)

variable (conf : VirtaddrConf)

def addressIsInVirtualRange (address : Text) : Bool :=
  if endsWithNoCase address ".virtual".toList then true
  else
    match torAddrParse address with
    | some addr =>
      let conf := if torAddrFamily addr = .AF_INET6 then conf.ipv6 else conf.ipv4
      decide (torAddrCompareMasked addr conf.addr conf.bits .CMP_EXACT = 0)
    | none => false

/-- The bytes of a network, in network order. -/
def addrBytes : TorAddr → List UInt8
  | .inet6 a => a.toList
  | .inet a => [(a >>> 24).toUInt8, (a >>> 16).toUInt8, (a >>> 8).toUInt8, a.toUInt8]
  | .unspec => [0, 0, 0, 0]

/-- A byte of a random address: the first bits are those of the network. -/
def virtualByte (conf : VirtualAddrConf) (draw : Nat → UInt8) (i : Nat) : UInt8 :=
  let bits := conf.bits.toNat
  let mask : UInt8 := 0xff >>> UInt8.ofNat (bits % 8)
  if i < bits / 8 then (addrBytes conf.addr).getD i 0
  else if i = bits / 8 ∧ bits % 8 ≠ 0 then draw i &&& mask ||| ((addrBytes conf.addr).getD i 0 &&& ~~~mask)
  else draw i

def getRandomVirtualAddr (conf : VirtualAddrConf) (draw : Nat → UInt8) : Except Stop TorAddr :=
  let byte := virtualByte conf draw
  let addrOut : TorAddr :=
    if torAddrFamily conf.addr = .AF_INET6 then .inet6 (Vector.ofFn fun i => byte i)
    else .inet ((byte 0).toUInt32 <<< 24 ||| (byte 1).toUInt32 <<< 16 ||| (byte 2).toUInt32 <<< 8 ||| (byte 3).toUInt32)
  if conf.bits.toNat > (addrBytes conf.addr).length * 8 then .error .assertion
  else if torAddrCompareMasked addrOut conf.addr conf.bits .CMP_EXACT ≠ 0 then .error .assertion
  else .ok addrOut

/-! ## Drawing a virtual address -/

def RESOLVED_TYPE_HOSTNAME : Int := 0
def RESOLVED_TYPE_IPV4 : Int := 4
def RESOLVED_TYPE_IPV6 : Int := 6

/-- Until the name is not mapped. -/
def drawHostname (map : Addressmap) : List (Nat → UInt8) → Except Stop (Option Text)
  | [] => .error .unfinished
  | draw :: draws =>
    match base32Encode 64 ((List.range 10).map draw) with
    | .error _ => .error .assertion
    | .ok buf =>
      let buf := strlcat buf ".virtual".toList 64
      if (map buf).isSome then drawHostname map draws else .ok (some buf)

/-- No .0 and no .255 address is handed out. -/
def isHandedOut (ipv6 : Bool) (addr : TorAddr) : Bool :=
  ipv6 ||
    match addr with
    | .inet a => decide (a &&& 0xff ≠ 0 ∧ a &&& 0xff ≠ 0xff)
    | _ => false

variable (map : Addressmap)

/-- The text of an address, if it is not mapped and its undecorated text is not either. -/
def unusedText (ipv6 : Bool) (addr : TorAddr) : Option Text :=
  if !isHandedOut ipv6 addr then none
  else
    match torAddrToStr addr true, torAddrToStr addr false with
    | some buf, some tmp => if (map buf).isSome || (map tmp).isSome then none else some buf
    | _, _ => none

/-- `attempts` are left. -/
def drawAddress (map : Addressmap) (conf : VirtualAddrConf) (ipv6 : Bool) :
    Nat → List (Nat → UInt8) → Except Stop (Option Text)
  | 0, _ => .ok none
  | _ + 1, [] => .error .unfinished
  | attempts + 1, draw :: draws =>
    match getRandomVirtualAddr conf draw with
    | .error stop => .error stop
    | .ok addr =>
      match unusedText map ipv6 addr with
      | some buf => .ok (some buf)
      | none => drawAddress map conf ipv6 attempts draws

/-- Without an address for a type that is none of the three, or after a thousand attempts. -/
def addressmapGetVirtualAddress (type : Int) (draws : List (Nat → UInt8)) : Except Stop (Option Text) :=
  if type = RESOLVED_TYPE_HOSTNAME then drawHostname map draws
  else if type = RESOLVED_TYPE_IPV4 then drawAddress map conf.ipv4 false 1000 draws
  else if type = RESOLVED_TYPE_IPV6 then drawAddress map conf.ipv6 true 1000 draws
  else .ok none

/-! ## The two maps -/

structure VirtaddressEntry where
  ipv4Address : Option Text
  ipv6Address : Option Text
  hostnameAddress : Option Text
  deriving DecidableEq

/-- The map may still point to an entry that was freed. -/
inductive ReverseCell where
  | live (ve : VirtaddressEntry)
  | freed
  deriving DecidableEq

abbrev VirtaddressReversemap := Text → Option ReverseCell

structure AddressMaps where
  addressmap : Addressmap
  virtaddressReversemap : VirtaddressReversemap

def addressmapInit : AddressMaps := ⟨fun _ => none, fun _ => none⟩

/-- `strcmp` reads both strings; a field that is no different is freed. -/
def freeIfSame (address field : Option Text) : Except Stop (Option Text) :=
  match address, field with
  | some address, some field => .ok (if address = field then none else some field)
  | _, _ => .error .badRead

def VirtaddressEntry.without (ve : VirtaddressEntry) (address : Option Text) : Except Stop VirtaddressEntry := do
  let ipv4Address ← freeIfSame address ve.ipv4Address
  let ipv6Address ← freeIfSame address ve.ipv6Address
  let hostnameAddress ← freeIfSame address ve.hostnameAddress
  return { ipv4Address, ipv6Address, hostnameAddress }

/-- An entry that has no address left goes. -/
def VirtaddressEntry.cell (ve : VirtaddressEntry) : Option ReverseCell :=
  if ve = ⟨none, none, none⟩ then none else some (.live ve)

variable (rev : VirtaddressReversemap)

/-- The address may have been freed; then there is none. -/
def addressmapVirtaddressRemove (address : Option Text) (ent : AddressmapEntry) : Except Stop VirtaddressReversemap :=
  match ent.newAddress with
  | none => .ok rev
  | some newAddress =>
    if !addressIsInVirtualRange conf newAddress then .ok rev
    else
      match rev newAddress with
      | none => .ok rev
      | some .freed => .error .badRead
      | some (.live ve) => do
        let ve ← ve.without address
        return Function.update rev newAddress ve.cell

/-- The entry is freed then. -/
def addressmapEntRemove (address : Option Text) (ent : AddressmapEntry) : Except Stop VirtaddressReversemap :=
  addressmapVirtaddressRemove conf rev address ent

variable (s : AddressMaps)

/-- The entry of `key` is removed from both maps, and `key` may have been freed before. -/
def removeMapping (keyFreed : Bool) (key : Text) (ent : AddressmapEntry) : Except Stop AddressMaps := do
  let rev ← addressmapEntRemove conf s.virtaddressReversemap (if keyFreed then none else some key) ent
  return ⟨Function.update s.addressmap key none, rev⟩

/-! ## Registering a mapping -/

variable (address : Text)

def unregister : Except Stop AddressMaps :=
  match s.addressmap address with
  | none => .ok s
  | some ent => removeMapping conf s false address ent

/-- The old mapping is cleaned up. -/
def overwriteMapping (ent : AddressmapEntry) (oldAddress : Text) (new : AddressmapEntry) (expires : Int) :
    Except Stop AddressMaps :=
  if addressIsInVirtualRange conf oldAddress && expires ≠ 2 then do
    let rev ← addressmapVirtaddressRemove conf s.virtaddressReversemap (some address) ent
    return ⟨Function.update s.addressmap address (some new), rev⟩
  else .ok { s with addressmap := Function.update s.addressmap address (some new) }

def setMapping (new : AddressmapEntry) (expires : Int) : Except Stop AddressMaps :=
  match s.addressmap address with
  | none => .ok { s with addressmap := Function.update s.addressmap address (some new) }
  | some ent =>
    match ent.newAddress with
    -- a resolve is in progress
    | none => .ok { s with addressmap := Function.update s.addressmap address (some new) }
    | some oldAddress => if expires > 1 then .ok s else overwriteMapping conf s address ent oldAddress new expires

def addressmapRegister (newAddress : Option Text) (expires : Int) (source : AddressmapEntrySource)
    (wildcardAddr wildcardNewAddr : Int) : Except Stop AddressMaps :=
  if wildcardNewAddr ≠ 0 ∧ wildcardAddr = 0 then .error .assertion
  else
    match newAddress with
    | none => unregister conf s address
    | some newAddress =>
      if sameCase address newAddress ∧ wildcardAddr = wildcardNewAddr then unregister conf s address
      else
        let new : AddressmapEntry :=
          { newAddress := some newAddress
            expires := if expires = 2 then 1 else expires
            source
            srcWildcard := decide (wildcardAddr ≠ 0)
            dstWildcard := decide (wildcardNewAddr ≠ 0) }
        setMapping conf s address new expires

/-! ## Registering a virtual address -/

variable (vent : VirtaddressEntry) (type : Int)

/-- `*addrp` -/
def VirtaddressEntry.addrp : Option Text :=
  if type = RESOLVED_TYPE_IPV4 then vent.ipv4Address
  else if type = RESOLVED_TYPE_IPV6 then vent.ipv6Address
  else vent.hostnameAddress

def VirtaddressEntry.setAddrp (addr : Text) : VirtaddressEntry :=
  if type = RESOLVED_TYPE_IPV4 then { vent with ipv4Address := some addr }
  else if type = RESOLVED_TYPE_IPV6 then { vent with ipv6Address := some addr }
  else { vent with hostnameAddress := some addr }

/-- Whether the address map has `addr` for `newAddress`. -/
def mapsTo (addr newAddress : Text) : Bool :=
  match map addr with
  | none => false
  | some ent =>
    match ent.newAddress with
    | none => false
    | some target => sameCase newAddress target

/-- A drawn address is entered in both maps. Where none was drawn the entry is freed, and stays in the map if it was
    there. -/
def assignVirtualAddress (newAddress : Text) (draws : List (Nat → UInt8)) :
    Except Stop (Option Text × AddressMaps) := do
  match ← addressmapGetVirtualAddress conf s.addressmap type draws with
  | none =>
    let left := (s.virtaddressReversemap newAddress).map fun _ => ReverseCell.freed
    return (none, { s with virtaddressReversemap := Function.update s.virtaddressReversemap newAddress left })
  | some addr =>
    let cell := some (ReverseCell.live (vent.setAddrp type addr))
    let s := { s with virtaddressReversemap := Function.update s.virtaddressReversemap newAddress cell }
    let s ← addressmapRegister conf s addr (some newAddress) 2 .AUTOMAP 0 0
    return (some addr, s)

/-- With what the function returns. -/
def addressmapRegisterVirtualAddress (newAddress : Text) (draws : List (Nat → UInt8)) :
    Except Stop (Option Text × AddressMaps) :=
  match s.virtaddressReversemap newAddress with
  | none => assignVirtualAddress conf s ⟨none, none, none⟩ type newAddress draws
  | some .freed => .error .badRead
  | some (.live vent) =>
    match vent.addrp type with
    | none => assignVirtualAddress conf s vent type newAddress draws
    | some addr =>
      if mapsTo s.addressmap addr newAddress then .ok (some addr, s)
      -- "Internal confusion", "a harmless bug"
      else assignVirtualAddress conf s vent type newAddress draws

/-! ## Removing mappings -/

/-- A loop over the address map that removes the entries `removeThis` says. -/
def removeEach (conf : VirtaddrConf) (removeThis : Text → AddressmapEntry → Except Stop Bool) (keyFreed : Bool) :
    List Text → AddressMaps → Except Stop AddressMaps
  | [], s => .ok s
  | key :: keys, s =>
    match s.addressmap key with
    | none => removeEach conf removeThis keyFreed keys s
    | some ent => do
      match ← removeThis key ent with
      | false => removeEach conf removeThis keyFreed keys s
      | true =>
        let s ← removeMapping conf s keyFreed key ent
        removeEach conf removeThis keyFreed keys s

def expiresWithin (minExpires maxExpires : Int) (_ : Text) (val : AddressmapEntry) : Except Stop Bool :=
  .ok (decide (val.expires ≥ minExpires ∧ val.expires ≤ maxExpires))

/-- Without a list: the mappings are removed. `strmap_iter_next_rmv` frees the key before `addressmap_ent_remove` reads
    it. -/
def addressmapGetMappings (minExpires maxExpires : Int) (keys : List Text) (s : AddressMaps) :
    Except Stop AddressMaps :=
  removeEach conf (expiresWithin minExpires maxExpires) true keys s

def addressmapClearConfigured (keys : List Text) (s : AddressMaps) : Except Stop AddressMaps :=
  addressmapGetMappings conf 0 0 keys s

def addressmapClearTransient (keys : List Text) (s : AddressMaps) : Except Stop AddressMaps :=
  addressmapGetMappings conf 2 TIME_MAX keys s

def addressmapClean (now : Int) (keys : List Text) (s : AddressMaps) : Except Stop AddressMaps :=
  addressmapGetMappings conf 2 now keys s

structure AutomapOptions where
  automapHostsOnResolve : Bool
  automapHostsSuffixes : Option (List Text)

variable (options : AutomapOptions)

def addressmapAddressShouldAutomap : Bool :=
  match options.automapHostsSuffixes with
  | none => false
  | some suffixes => suffixes.any fun suffix => decide (suffix = ['.']) || endsWithNoCase address suffix

/-- `remove_this`; the range is asked for an address that must be there. -/
def invalidAutomap (srcAddress : Text) (ent : AddressmapEntry) : Except Stop Bool :=
  if ent.source ≠ .AUTOMAP then .ok false
  else if !options.automapHostsOnResolve || options.automapHostsSuffixes.isNone then .ok true
  else if !addressmapAddressShouldAutomap srcAddress options then .ok true
  else
    match ent.newAddress with
    | none => .error .assertion
    | some newAddress => .ok (!addressIsInVirtualRange conf newAddress)

def addressmapClearInvalidAutomaps (keys : List Text) (s : AddressMaps) : Except Stop AddressMaps :=
  removeEach conf (invalidAutomap conf options) false keys s

/-! ## Calls -/

inductive AddressmapOp where
  | register (address : Text) (newAddress : Option Text) (expires : Int) (source : AddressmapEntrySource)
      (wildcardAddr wildcardNewAddr : Int)
  | registerVirtualAddress (type : Int) (newAddress : Text) (draws : List (Nat → UInt8))
  | clean (now : Int) (keys : List Text)
  | clearConfigured (keys : List Text)
  | clearTransient (keys : List Text)
  | clearInvalidAutomaps (options : AutomapOptions) (keys : List Text)

/-- A call, with the networks as they are configured then. -/
structure Call where
  conf : VirtaddrConf
  op : AddressmapOp

/-- What a call returns, which is none but for a virtual address, and the maps after it. -/
def perform (call : Call) : Except Stop (Option Text × AddressMaps) :=
  match call.op with
  | .register address newAddress expires source wildcardAddr wildcardNewAddr =>
    (addressmapRegister call.conf s address newAddress expires source wildcardAddr wildcardNewAddr).map (none, ·)
  | .registerVirtualAddress type newAddress draws => addressmapRegisterVirtualAddress call.conf s type newAddress draws
  | .clean now keys => (addressmapClean call.conf now keys s).map (none, ·)
  | .clearConfigured keys => (addressmapClearConfigured call.conf keys s).map (none, ·)
  | .clearTransient keys => (addressmapClearTransient call.conf keys s).map (none, ·)
  | .clearInvalidAutomaps options keys => (addressmapClearInvalidAutomaps call.conf options keys s).map (none, ·)

/-- A call that stops ends the run. -/
def nextMaps (call : Call) : Option AddressMaps :=
  match perform s call with
  | .ok (_, s') => some s'
  | .error _ => none

end Badnet.Client

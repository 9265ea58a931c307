/-
  Badnet.Net.AddrPattern — address patterns: an address, a mask and a range of ports (`tor_addr_parse_mask_ports`,
  `parse_port_range` and `addr_mask_get_bits` of `lib/net/address.c`).

  A pointer for a result may be NULL: then the part must be absent from the pattern. The outer `none` is a failed
  assertion, the inner one a rejected pattern. The prefix length of an accepted pattern fits its family, and its ports
  are a range within 1 to 65535 exactly when the port is not a lone zero (`torAddrParseMaskPorts_ok`).
-/

import Badnet.Net.Inaddr

namespace Badnet.Net

open Encoding

/-! ## Patterns -/

/-- The `TAPMP_` flags. -/
structure TapmpFlags where
  extendedStar : Bool
  starIpv4Only : Bool
  starIpv6Only : Bool
  deriving DecidableEq, Repr

/-- Which of `port_min_out` and `port_max_out` are not NULL. -/
inductive PortsOut where
  | none
  | one
  | range
  deriving DecidableEq, Repr

structure AddrPattern where
  addr : TorAddr
  maskbits : Option UInt8
  ports : Option (UInt16 × UInt16)
  deriving DecidableEq, Repr

/-- `addr_mask_get_bits`; `none` is -1. -/
def addrMaskGetBits (mask : UInt32) : Option Nat :=
  if mask = 0 then some 0
  else if mask = 0xFFFFFFFF then some 32
  else (List.range' 1 32).find? fun i => mask = ~~~((1 <<< UInt32.ofNat (32 - i)) - 1)

variable (s : Text)

/-- A colon and what follows it. -/
def splitPort : Text × Option Text :=
  let port := s.dropWhile (· ≠ ':')
  (s.takeWhile (· ≠ ':'), if port = [] then none else some port.tail)

structure Parts where
  address : Text
  mask : Option Text
  port : Option Text

/-- What stands between a bracket and the mask or the port is skipped. -/
def splitPattern : Option Parts :=
  let bracketed := s.head? = some '['
  let rest := if bracketed then s.tail.dropWhile (· ≠ ']') else s
  if bracketed ∧ rest = [] then none
  else
    let address := s.tail.takeWhile (· ≠ ']')
    let fromMask := rest.dropWhile (· ≠ '/')
    if fromMask = [] then
      let (before, port) := splitPort rest
      some ⟨if bracketed then address else before, none, port⟩
    else
      let (mask, port) := splitPort fromMask
      some ⟨if bracketed then address else rest.takeWhile (· ≠ '/'), some mask.tail, port⟩

def nilBytes : Vector UInt8 16 := Vector.replicate 16 0

variable (flags : TapmpFlags)

/-- The address, and whether it is a wildcard. -/
def parseAddress (address : Text) : Option (TorAddr × Bool) :=
  if address = ['*'] then
    if flags.extendedStar then
      if flags.starIpv4Only then some (.inet 0, true)
      else if flags.starIpv6Only then some (.inet6 nilBytes, true)
      else some (.unspec, true)
    else some (.inet 0, true)
  else if address = ['*', '4'] ∧ flags.extendedStar then some (.inet 0, true)
  else if address = ['*', '6'] ∧ flags.extendedStar then some (.inet6 nilBytes, true)
  else
    match torInetPton6 address with
    | some a => some (.inet6 a, false)
    | none => (torInetAton address).map (.inet ·, false)

/-- The number of bits that a mask of the pattern says. -/
def maskNumber (addr : TorAddr) (mask : Text) : Option Nat :=
  let (r, endptr, _) := strtol mask
  let bits := r.bmod (2 ^ 32)
  if endptr = [] then
    if bits < 0 ∨ bits > 128 ∨ (torAddrFamily addr = .AF_INET ∧ bits > 32) then none else some bits.toNat
  else (torInetAton mask).bind addrMaskGetBits

def parseMask (addr : TorAddr) (anyFlag : Bool) : Option Text → Option Nat
  | some mask =>
    match maskNumber addr mask with
    | none => none
    | some bits =>
      if torAddrFamily addr = .AF_INET6 ∧ torAddrIsV4 addr ∧ bits > 32 ∧ bits < 96 then none
      else if anyFlag then none
      else some (if torAddrFamily addr = .AF_INET6 ∧ torAddrIsV4 addr then 96 + bits % 32 else bits)
  | none =>
    if anyFlag then some 0
    else match torAddrFamily addr with
      | .AF_INET => some 32
      | .AF_INET6 => some 128
      | .AF_UNSPEC => some 0

def parsePortRange (port : Option Text) : Option (UInt16 × UInt16) :=
  match port with
  | none | some [] | some ['*'] => some (1, 65535)
  | some port =>
    match torParseLongNext port 0 65535 with
    | none => none
    | some (portMin, endptr) =>
      let portMax := if endptr.head? = some '-' then (torParseLongNext endptr.tail 1 65535).map (·.1) else some portMin
      match portMax with
      | none => none
      | some portMax =>
        if portMin > portMax then none
        else
          let portMin := if portMin < 1 then 1 else portMin
          let portMax := if portMax > 65535 then 65535 else portMax
          some (UInt16.ofNat portMin.toNat, UInt16.ofNat portMax.toNat)

def MAX_ADDRESS_LENGTH : Nat := TOR_ADDR_BUF_LEN + 2 + (1 + INET_NTOA_BUF_LEN) + 12 + 1

/-- `port_min_out` and what is stored there, with `port_max_out` faked for one port. -/
def parsePorts (out : PortsOut) (port : Option Text) : Option (Option (UInt16 × UInt16)) :=
  match out with
  | .none => if port = none then some none else none
  | .one => (parsePortRange port).bind fun r => if r.1 ≠ r.2 then none else some (some r)
  | .range => (parsePortRange port).map some

/-- `maskbits_out`; a mask nobody asks for is an error. -/
def parseMaskOut (out : Bool) (addr : TorAddr) (anyFlag : Bool) (mask : Option Text) : Option (Option UInt8) :=
  if out then (parseMask addr anyFlag mask).map fun bits => some (UInt8.ofNat bits)
  else if mask = none then some none
  else none

def parsePattern (maskbitsOut : Bool) (portsOut : PortsOut) : Option AddrPattern :=
  if s.length > MAX_ADDRESS_LENGTH then none
  else do
    let parts ← splitPattern s
    let (addr, anyFlag) ← parseAddress flags parts.address
    let maskbits ← parseMaskOut maskbitsOut addr anyFlag parts.mask
    let ports ← parsePorts portsOut parts.port
    return ⟨addr, maskbits, ports⟩

def torAddrParseMaskPorts (maskbitsOut : Bool) (portsOut : PortsOut) : Option (Option AddrPattern) :=
  if flags.starIpv4Only ∧ flags.starIpv6Only then none else some (parsePattern s flags maskbitsOut portsOut)

/-! ## Prefix lengths -/

/-- The prefix length is one of the family. -/
def MaskFits (addr : TorAddr) (bits : Nat) : Prop :=
  match torAddrFamily addr with
  | .AF_INET => bits ≤ 32
  | .AF_INET6 => bits ≤ 128
  | .AF_UNSPEC => bits = 0

variable {bits : Nat} {addr : TorAddr}

theorem addrMaskGetBits_le {mask : UInt32} (h : addrMaskGetBits mask = some bits) : bits ≤ 32 := by
  unfold addrMaskGetBits at h
  split at h
  · cases h; decide
  split at h
  · cases h; decide
  · have hmem := List.mem_of_find?_eq_some h
    rw [List.mem_range'_1] at hmem
    omega

theorem maskNumber_le {mask : Text} (h : maskNumber addr mask = some bits) :
    bits ≤ 128 ∧ (torAddrFamily addr = .AF_INET → bits ≤ 32) := by
  unfold maskNumber at h
  split at h
  next r endptr _ _ =>
    dsimp only at h
    split at h
    · split at h
      · cases h
      next hin =>
        cases h
        exact ⟨by omega, fun hf => by simp only [hf, true_and, not_or] at hin; omega⟩
    · obtain ⟨v4mask, -, hbits⟩ := Option.bind_eq_some_iff.mp h
      have hle := addrMaskGetBits_le hbits
      exact ⟨by omega, fun _ => hle⟩

theorem parseMask_fits {anyFlag : Bool} {mask : Option Text}
    (hunspec : torAddrFamily addr = .AF_UNSPEC → anyFlag = true) (h : parseMask addr anyFlag mask = some bits) :
    MaskFits addr bits ∧ bits ≤ 128 := by
  cases mask with
  | none =>
    rw [parseMask] at h
    unfold MaskFits
    split at h
    · cases h
      split <;> simp
    next hany =>
      cases hf : torAddrFamily addr with
      | AF_UNSPEC => exact absurd (hunspec hf) hany
      | AF_INET | AF_INET6 => rw [hf] at h; cases h; simp
  | some mask =>
    rw [parseMask] at h
    split at h
    · cases h
    next n hn =>
      obtain ⟨hle, hle4⟩ := maskNumber_le hn
      split at h
      · cases h
      split at h
      · cases h
      next hany =>
        cases h
        unfold MaskFits
        cases hf : torAddrFamily addr with
        | AF_UNSPEC => exact absurd (hunspec hf) hany
        | AF_INET => simp [hle4 hf, hle]
        | AF_INET6 =>
          dsimp only
          split <;> omega

theorem parseAddress_unspec {flags : TapmpFlags} {address : Text} {anyFlag : Bool}
    (h : parseAddress flags address = some (addr, anyFlag)) (hf : torAddrFamily addr = .AF_UNSPEC) : anyFlag = true := by
  unfold parseAddress at h
  split at h
  · split at h
    · split at h
      · cases h; rfl
      split at h <;> (cases h; rfl)
    · cases h; rfl
  split at h
  · cases h; rfl
  split at h
  · cases h; rfl
  split at h
  · cases h; cases hf
  · obtain ⟨a, -, ha⟩ := Option.map_eq_some_iff.mp h
    cases ha
    cases hf

/-! ## Ports -/

theorem torParseLongNext_some {s endptr : Text} {min max r : Int} (h : torParseLongNext s min max = some (r, endptr)) :
    r = (strtol s).1 ∧ endptr = (strtol s).2.1 ∧ endptr.length ≠ s.length ∧ min ≤ r ∧ r ≤ max := by
  unfold torParseLongNext at h
  split at h
  next r' endptr' erange hs =>
    split at h
    · cases h
    next hok =>
      cases h
      simp only [not_or] at hok
      rw [hs]
      exact ⟨rfl, rfl, hok.2.1, by omega, by omega⟩

/-- The port is a zero, and no range starts there. -/
def loneZero (port : Option Text) : Bool :=
  match port with
  | none => false
  | some port => (strtol port).1 = 0 ∧ (strtol port).2.1.length ≠ port.length ∧ (strtol port).2.1.head? ≠ some '-'

/-- A range within 1 to 65535. -/
def PortsOk (lo hi : UInt16) : Prop := 1 ≤ lo.toNat ∧ lo.toNat ≤ hi.toNat ∧ hi.toNat ≤ 65535

instance (lo hi : UInt16) : Decidable (PortsOk lo hi) := inferInstanceAs (Decidable (_ ∧ _ ∧ _))

theorem parsePortRange_ok {port : Option Text} {lo hi : UInt16} (h : parsePortRange port = some (lo, hi)) :
    PortsOk lo hi ↔ loneZero port = false := by
  unfold parsePortRange at h
  split at h
  · cases h; decide
  · cases h; decide
  · cases h; decide
  next port _ _ =>
    split at h
    · cases h
    next portMin endptr hmin =>
      obtain ⟨hr, he, hlen, hlo, hhi⟩ := torParseLongNext_some hmin
      have hzero : loneZero (some port) = false ↔ portMin ≠ 0 ∨ endptr.head? = some '-' := by
        rw [loneZero, ← hr, ← he, decide_eq_false_iff_not]
        simp only [hlen, ne_eq, not_false_eq_true, true_and]
        rw [Classical.not_and_iff_not_or_not, Classical.not_not]
      dsimp only at h
      split at h
      · cases h
      next portMax hmax =>
        have hmax : portMax ≤ 65535 ∧ (portMin = 0 → (1 ≤ portMax ↔ endptr.head? = some '-')) := by
          split at hmax
          next hdash =>
            obtain ⟨⟨r, e⟩, hparse, rfl⟩ := Option.map_eq_some_iff.mp hmax
            obtain ⟨-, -, -, hlo', hhi'⟩ := torParseLongNext_some hparse
            exact ⟨hhi', fun _ => ⟨fun _ => hdash, fun _ => hlo'⟩⟩
          next hdash =>
            cases hmax
            exact ⟨hhi, fun h0 => ⟨fun h1 => by omega, fun hd => absurd hd hdash⟩⟩
        split at h
        · cases h
        next hle =>
          rw [hzero]
          rw [Option.some.injEq, Prod.mk.injEq] at h
          obtain ⟨rfl, rfl⟩ := h
          rw [PortsOk, UInt16.toNat_ofNat', UInt16.toNat_ofNat']
          by_cases h0 : portMin = 0
          · rw [← hmax.2 h0]
            simp only [h0]
            have hmod : ((if portMax > 65535 then 65535 else portMax).toNat) % 2 ^ 16 = portMax.toNat := by
              rw [if_neg (by omega)]
              omega
            rw [hmod]
            simp
            omega
          · have hpos : ¬ portMin < 1 := by omega
            rw [if_neg hpos, if_neg (by omega)]
            have hlo' : portMin.toNat % 2 ^ 16 = portMin.toNat := by omega
            have hhi' : portMax.toNat % 2 ^ 16 = portMax.toNat := by omega
            rw [hlo', hhi']
            simp only [h0, ne_eq, not_false_eq_true, true_or, iff_true]
            omega

/-- A lone zero gives the empty range from 1 to 0. -/
theorem parsePortRange_zero {port : Option Text} {lo hi : UInt16} (h : parsePortRange port = some (lo, hi))
    (hzero : loneZero port = true) : lo = 1 ∧ hi = 0 := by
  unfold parsePortRange at h
  split at h
  · cases hzero
  · exact absurd hzero (by decide)
  · exact absurd hzero (by decide)
  next port _ _ =>
    obtain ⟨hvalue, hlen, hdash⟩ := of_decide_eq_true hzero
    split at h
    · cases h
    next portMin endptr hmin =>
      obtain ⟨hr, he, -, -, -⟩ := torParseLongNext_some hmin
      rw [← he] at hdash
      have hr : portMin = 0 := hr.trans hvalue
      subst hr
      dsimp only at h
      rw [if_neg hdash] at h
      dsimp only at h
      rw [if_neg (by decide), Option.some.injEq, Prod.mk.injEq] at h
      exact ⟨h.1.symm, h.2.symm⟩

/-- The port of the pattern. -/
def patternPort : Option Text := (splitPattern s).bind (·.port)

/-- An accepted pattern: the prefix length fits, and the ports are a range unless the port is a lone zero. -/
theorem torAddrParseMaskPorts_ok {s : Text} {flags : TapmpFlags} {p : AddrPattern}
    (h : torAddrParseMaskPorts s flags true .range = some (some p)) :
    ∃ bits lo hi, p.maskbits = some bits ∧ p.ports = some (lo, hi) ∧ MaskFits p.addr bits.toNat ∧
      (PortsOk lo hi ↔ loneZero (patternPort s) = false) ∧ (loneZero (patternPort s) = true → lo = 1 ∧ hi = 0) := by
  unfold torAddrParseMaskPorts at h
  split at h
  · cases h
  have h := Option.some.inj h
  unfold parsePattern at h
  split at h
  · cases h
  obtain ⟨parts, hparts, h⟩ := Option.bind_eq_some_iff.mp h
  obtain ⟨⟨addr, anyFlag⟩, haddr, h⟩ := Option.bind_eq_some_iff.mp h
  obtain ⟨maskbits, hmask, h⟩ := Option.bind_eq_some_iff.mp h
  obtain ⟨ports, hports, h⟩ := Option.bind_eq_some_iff.mp h
  cases h
  obtain ⟨bits, hbits, rfl⟩ := Option.map_eq_some_iff.mp hmask
  obtain ⟨⟨lo, hi⟩, hrange, rfl⟩ := Option.map_eq_some_iff.mp hports
  obtain ⟨hfits, hle⟩ := parseMask_fits (parseAddress_unspec haddr) hbits
  refine ⟨UInt8.ofNat bits, lo, hi, rfl, rfl, ?_, ?_⟩
  · rwa [UInt8.toNat_ofNat_of_lt' (show bits < 256 by omega)]
  · rw [patternPort, hparts]
    exact ⟨parsePortRange_ok hrange, parsePortRange_zero hrange⟩

example : torAddrParseMaskPorts "[fe80::]/10:80-443".toList ⟨false, false, false⟩ true .range =
    some (some ⟨.inet6 (wordsToBytes [0xfe80]), some 10, some (80, 443)⟩) := by
  decide +kernel

end Badnet.Net

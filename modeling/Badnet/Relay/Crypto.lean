/-
  Badnet.Relay.Crypto — the crypto of relay cells (`core/crypto/relay_crypto.c`, with `relay_header_pack` and
  `relay_header_unpack` of `core/or/relay.c`).

  A cipher is a keystream and the position in it, a digest the bytes added so far and the function that takes four bytes
  of it. A check of the digest that fails leaves digest and payload as they were (`relayDigestMatches_of_not_matches`);
  on what `relay_set_digest` made it succeeds and gives the payload back (`relayDigestMatches_tag`).
-/

import Mathlib.Logic.Function.Basic

namespace Badnet.Relay

/-! ## Cells -/

abbrev CELL_PAYLOAD_SIZE : Nat := 509

abbrev Payload := Vector UInt8 CELL_PAYLOAD_SIZE

structure RelayHeader where
  command : UInt8
  recognized : UInt16
  streamId : UInt16
  integrity : Vector UInt8 4
  length : UInt16
  deriving DecidableEq

/-- `ntohs` of two bytes. -/
def ntohs (hi lo : UInt8) : UInt16 := UInt16.ofNat (256 * hi.toNat + lo.toNat)

variable (x : UInt16)

/-- The two bytes of `htons`. -/
def htonsHi : UInt8 := UInt8.ofNat (x.toNat / 256)

def htonsLo : UInt8 := UInt8.ofNat (x.toNat % 256)

def relayHeaderPack (dest : Payload) (src : RelayHeader) : Payload :=
  let dest := dest.set 0 src.command
  let dest := (dest.set 1 (htonsHi src.recognized)).set 2 (htonsLo src.recognized)
  let dest := (dest.set 3 (htonsHi src.streamId)).set 4 (htonsLo src.streamId)
  let dest := (((dest.set 5 src.integrity[0]).set 6 src.integrity[1]).set 7 src.integrity[2]).set 8 src.integrity[3]
  (dest.set 9 (htonsHi src.length)).set 10 (htonsLo src.length)

def relayHeaderUnpack (src : Payload) : RelayHeader where
  command := src[0]
  recognized := ntohs src[1] src[2]
  streamId := ntohs src[3] src[4]
  integrity := #v[src[5], src[6], src[7], src[8]]
  length := ntohs src[9] src[10]

theorem ntohs_htons : ntohs (htonsHi x) (htonsLo x) = x := by
  have hx := x.toNat_lt
  apply UInt16.toNat_inj.mp
  simp only [ntohs, htonsHi, htonsLo, UInt16.toNat_ofNat', UInt8.toNat_ofNat']
  omega

theorem htonsHi_ntohs (hi lo : UInt8) : htonsHi (ntohs hi lo) = hi := by
  have h1 := hi.toNat_lt
  have h2 := lo.toNat_lt
  apply UInt8.toNat_inj.mp
  simp only [ntohs, htonsHi, UInt16.toNat_ofNat', UInt8.toNat_ofNat']
  omega

theorem htonsLo_ntohs (hi lo : UInt8) : htonsLo (ntohs hi lo) = lo := by
  have h2 := lo.toNat_lt
  apply UInt8.toNat_inj.mp
  simp only [ntohs, htonsLo, UInt16.toNat_ofNat', UInt8.toNat_ofNat']
  omega

variable (p : Payload)

@[simp] theorem unpack_pack (h : RelayHeader) : relayHeaderUnpack (relayHeaderPack p h) = h := by
  have hint : #v[h.integrity[0], h.integrity[1], h.integrity[2], h.integrity[3]] = h.integrity := by
    ext i hi
    match i, hi with
    | 0, _ | 1, _ | 2, _ | 3, _ => rfl
  unfold relayHeaderUnpack relayHeaderPack
  simp [ntohs_htons, hint]

theorem getElem_pack (h : RelayHeader) {i : Nat} (hi : i < CELL_PAYLOAD_SIZE) (h11 : 11 ≤ i) :
    (relayHeaderPack p h)[i] = p[i] := by
  unfold relayHeaderPack
  simp only [Vector.getElem_set]
  repeat rw [if_neg (by omega)]

@[simp] theorem pack_unpack : relayHeaderPack p (relayHeaderUnpack p) = p := by
  apply Vector.ext
  intro i hi
  by_cases h11 : 11 ≤ i
  · exact getElem_pack p _ hi h11
  · unfold relayHeaderPack relayHeaderUnpack
    match i, h11 with
    | 0, _ | 1, _ | 2, _ | 3, _ | 4, _ | 5, _ | 6, _ | 7, _ | 8, _ | 9, _ | 10, _ =>
      simp [htonsHi_ntohs, htonsLo_ntohs]
    | i + 11, h => exact absurd (by omega) h

@[simp] theorem pack_pack (h h' : RelayHeader) : relayHeaderPack (relayHeaderPack p h) h' = relayHeaderPack p h' := by
  apply Vector.ext
  intro i hi
  by_cases h11 : 11 ≤ i
  · rw [getElem_pack _ _ hi h11, getElem_pack _ _ hi h11, getElem_pack _ _ hi h11]
  · unfold relayHeaderPack
    match i, h11 with
    | 0, _ | 1, _ | 2, _ | 3, _ | 4, _ | 5, _ | 6, _ | 7, _ | 8, _ | 9, _ | 10, _ => simp
    | i + 11, h => exact absurd (by omega) h

/-! ## Digests -/

/-- `hash` is what `crypto_digest_get_digest` gives of the bytes added, four of them. -/
structure CryptoDigest where
  hash : List UInt8 → Vector UInt8 4
  added : List UInt8

variable (digest : CryptoDigest)

section

variable (payload : Payload)

def cryptoDigestAddBytes : CryptoDigest :=
  { digest with added := digest.added ++ payload.toList }

def cryptoDigestGetDigest : Vector UInt8 4 := digest.hash digest.added

def relaySetDigest : CryptoDigest × Payload :=
  let digest := cryptoDigestAddBytes digest payload
  let integrity := cryptoDigestGetDigest digest
  let rh := { relayHeaderUnpack payload with integrity := integrity }
  (digest, relayHeaderPack payload rh)

def relayDigestMatches : Bool × CryptoDigest × Payload :=
  let backupDigest := digest
  let rh := relayHeaderUnpack payload
  let receivedIntegrity := rh.integrity
  let rh := { rh with integrity := #v[0, 0, 0, 0] }
  let payload := relayHeaderPack payload rh
  let digest := cryptoDigestAddBytes digest payload
  let calculatedIntegrity := cryptoDigestGetDigest digest
  if calculatedIntegrity ≠ receivedIntegrity then
    let rh := { rh with integrity := receivedIntegrity }
    (false, backupDigest, relayHeaderPack payload rh)
  else (true, digest, payload)

/-- The payload with the integrity part set to 0. -/
def untag : Payload :=
  relayHeaderPack payload { relayHeaderUnpack payload with integrity := #v[0, 0, 0, 0] }

/-- What looks like a cell for the owner of the digest. -/
def Matches : Prop :=
  (relayHeaderUnpack payload).recognized = 0 ∧
    digest.hash (digest.added ++ (untag payload).toList) = (relayHeaderUnpack payload).integrity

/-- As `relay_encrypt_cell_outbound` and `relay_encrypt_cell_inbound` want it: the
    recognized and the integrity field are 0. -/
def Fresh : Prop :=
  (relayHeaderUnpack payload).recognized = 0 ∧ (relayHeaderUnpack payload).integrity = #v[0, 0, 0, 0]

instance (digest : CryptoDigest) (payload : Payload) : Decidable (Matches digest payload) :=
  inferInstanceAs (Decidable (_ ∧ _))

instance (payload : Payload) : Decidable (Fresh payload) := inferInstanceAs (Decidable (_ ∧ _))

/-- The payload with the digest in it. -/
def tag : Payload := (relaySetDigest digest payload).2

theorem relaySetDigest_eq :
    relaySetDigest digest payload = (cryptoDigestAddBytes digest payload, tag digest payload) := rfl

theorem unpack_tag :
    relayHeaderUnpack (tag digest payload) =
      { relayHeaderUnpack payload with integrity := digest.hash (digest.added ++ payload.toList) } := unpack_pack _ _

end

variable {payload : Payload}

theorem untag_tag (digest : CryptoDigest) (h : Fresh payload) : untag (tag digest payload) = payload := by
  unfold untag
  rw [unpack_tag]
  have hpack : relayHeaderPack (tag digest payload) { relayHeaderUnpack payload with integrity := #v[0, 0, 0, 0] } =
      relayHeaderPack payload { relayHeaderUnpack payload with integrity := #v[0, 0, 0, 0] } := pack_pack _ _ _
  rw [← h.2, pack_unpack] at hpack
  rw [← h.2]
  exact hpack

/-- A tagged cell is recognized with the digest it was tagged with. -/
theorem matches_tag (digest : CryptoDigest) (h : Fresh payload) : Matches digest (tag digest payload) := by
  unfold Matches
  rw [untag_tag digest h, unpack_tag]
  exact ⟨h.1, rfl⟩

theorem relayDigestMatches_eq (payload : Payload) :
    relayDigestMatches digest payload =
      if digest.hash (digest.added ++ (untag payload).toList) = (relayHeaderUnpack payload).integrity then
        (true, cryptoDigestAddBytes digest (untag payload), untag payload)
      else (false, digest, payload) := by
  show (if digest.hash (digest.added ++ (untag payload).toList) ≠ (relayHeaderUnpack payload).integrity then
      (false, digest, relayHeaderPack (untag payload) (relayHeaderUnpack payload))
    else (true, cryptoDigestAddBytes digest (untag payload), untag payload)) = _
  have hback : relayHeaderPack (untag payload) (relayHeaderUnpack payload) = payload := by
    unfold untag
    rw [pack_pack, pack_unpack]
  by_cases h : digest.hash (digest.added ++ (untag payload).toList) = (relayHeaderUnpack payload).integrity
  · rw [if_neg (not_not.mpr h), if_pos h]
  · rw [if_pos h, if_neg h, hback]

/-- The digest goes on and the payload is as it was before the tag. -/
theorem relayDigestMatches_tag (digest : CryptoDigest) (h : Fresh payload) :
    relayDigestMatches digest (tag digest payload) = (true, cryptoDigestAddBytes digest payload, payload) := by
  rw [relayDigestMatches_eq, if_pos (matches_tag digest h).2, untag_tag digest h]

/-- A failed check restores the digest and the payload. -/
theorem relayDigestMatches_of_not_matches {digest : CryptoDigest}
    (h0 : (relayHeaderUnpack payload).recognized = 0) (h : ¬ Matches digest payload) :
    relayDigestMatches digest payload = (false, digest, payload) := by
  rw [relayDigestMatches_eq, if_neg fun e => h ⟨h0, e⟩]

/-! ## Ciphers -/

/-- A keystream and how much of it is used. -/
structure CryptoCipher where
  stream : Nat → UInt8
  pos : Nat

variable (cipher : CryptoCipher)

def cryptPayload (payload : Payload) : Payload :=
  Vector.ofFn fun i => payload[i] ^^^ cipher.stream (cipher.pos + i)

/-- `relay_crypt_one_payload`, in place. -/
def relayCryptOnePayload (payload : Payload) : CryptoCipher × Payload :=
  ({ cipher with pos := cipher.pos + CELL_PAYLOAD_SIZE }, cryptPayload cipher payload)

@[simp] theorem cryptPayload_cryptPayload (payload : Payload) :
    cryptPayload cipher (cryptPayload cipher payload) = payload := by
  apply Vector.ext
  intro i hi
  unfold cryptPayload
  rw [Vector.getElem_ofFn, Fin.getElem_fin, Vector.getElem_ofFn, UInt8.xor_assoc, UInt8.xor_self, UInt8.xor_zero]
  rfl

-- nothing else is used of it
attribute [irreducible] cryptPayload

/-! ## Relays and the origin -/

structure RelayCrypto where
  fCrypto : CryptoCipher
  bCrypto : CryptoCipher
  fDigest : CryptoDigest
  bDigest : CryptoDigest

inductive CpathState where
  | CLOSED
  | AWAITING_KEYS
  | OPEN
  deriving DecidableEq, Repr

structure CryptPath where
  state : CpathState
  pvtCrypto : RelayCrypto

/-- The hops of an origin circuit by their number, the first one being 0. -/
abbrev Cpath := Nat → CryptPath

/-- The check of a decrypted cell, with what it leaves: recognized or not. -/
def recognize (payload : Payload) : Bool × CryptoDigest × Payload :=
  if (relayHeaderUnpack payload).recognized = 0 then relayDigestMatches digest payload else (false, digest, payload)

theorem recognize_tag (digest : CryptoDigest) (h : Fresh payload) :
    recognize digest (tag digest payload) = (true, cryptoDigestAddBytes digest payload, payload) := by
  rw [recognize, if_pos (matches_tag digest h).1, relayDigestMatches_tag digest h]

theorem recognize_of_not_matches {digest : CryptoDigest} (h : ¬ Matches digest payload) :
    recognize digest payload = (false, digest, payload) := by
  unfold recognize
  split
  · rename_i h0
    exact relayDigestMatches_of_not_matches h0 h
  · rfl

variable (crypto : RelayCrypto)

/-- `relay_decrypt_cell` on a cell away from the origin: one layer, and the check. -/
def relayDecryptCellOut (payload : Payload) : RelayCrypto × Payload × Bool :=
  let (fCrypto, payload) := relayCryptOnePayload crypto.fCrypto payload
  let (recognized, fDigest, payload) := recognize crypto.fDigest payload
  ({ crypto with fCrypto, fDigest }, payload, recognized)

/-- `relay_decrypt_cell` in the middle on a cell to the origin: one layer more. -/
def relayDecryptCellIn (payload : Payload) : RelayCrypto × Payload :=
  let (bCrypto, payload) := relayCryptOnePayload crypto.bCrypto payload
  ({ crypto with bCrypto }, payload)

/-- The loop of `relay_decrypt_cell` at the origin, from a hop on; `none` for -1. The hop
    after the last one is the first one again. -/
def decryptLayers (n : Nat) (cpath : Cpath) (payload : Payload) (thishop : Nat) : Cpath × Payload × Option Nat :=
  let hop := cpath thishop
  let (bCrypto, payload) := relayCryptOnePayload hop.pvtCrypto.bCrypto payload
  let (recognized, bDigest, payload) := recognize hop.pvtCrypto.bDigest payload
  let cpath := Function.update cpath thishop { hop with pvtCrypto := { hop.pvtCrypto with bCrypto, bDigest } }
  if recognized then (cpath, payload, some thishop)
  else if thishop + 1 < n ∧ (cpath (thishop + 1)).state = .OPEN then decryptLayers n cpath payload (thishop + 1)
  else (cpath, payload, none)
termination_by n - thishop

/-- `relay_decrypt_cell` at the origin: the hop that recognized the cell, or `none`. -/
def relayDecryptCellOrigin (n : Nat) (cpath : Cpath) (payload : Payload) : Cpath × Payload × Option Nat :=
  if (cpath 0).state ≠ .OPEN then (cpath, payload, none) else decryptLayers n cpath payload 0

/-- The loop of `relay_encrypt_cell_outbound`, from a hop down to the first one. -/
def encryptLayers (cpath : Cpath) (payload : Payload) (thishop : Nat) : Cpath × Payload :=
  let hop := cpath thishop
  let (fCrypto, payload) := relayCryptOnePayload hop.pvtCrypto.fCrypto payload
  let cpath := Function.update cpath thishop { hop with pvtCrypto := { hop.pvtCrypto with fCrypto } }
  match thishop with
  | 0 => (cpath, payload)
  | prev + 1 => encryptLayers cpath payload prev

def relayEncryptCellOutbound (cpath : Cpath) (layerHint : Nat) (payload : Payload) : Cpath × Payload :=
  let hop := cpath layerHint
  let (fDigest, payload) := relaySetDigest hop.pvtCrypto.fDigest payload
  let cpath := Function.update cpath layerHint { hop with pvtCrypto := { hop.pvtCrypto with fDigest } }
  encryptLayers cpath payload layerHint

def relayEncryptCellInbound (payload : Payload) : RelayCrypto × Payload :=
  let (bDigest, payload) := relaySetDigest crypto.bDigest payload
  let (bCrypto, payload) := relayCryptOnePayload crypto.bCrypto payload
  ({ crypto with bDigest, bCrypto }, payload)

end Badnet.Relay

/-
  Badnet.Relay.Circuit — a circuit of relays with cells on the way in both directions.

  Between two hops there is a link for each direction that delivers in order. A step is one call of
  `relay_encrypt_cell_outbound`, `relay_encrypt_cell_inbound` or `relay_decrypt_cell`. The cells that go through a hop
  before a cell determine the state of both ends for the hop (`half`) and the layers and the digest of the cell
  (`wire`).
-/

import Badnet.Lib.Run
import Badnet.Relay.Crypto

namespace Badnet.Relay

open Lib

/-! ## The circuit -/

/-- Cipher and digest of one direction. -/
abbrev Half := CryptoCipher × CryptoDigest

def RelayCrypto.fwd (crypto : RelayCrypto) : Half := (crypto.fCrypto, crypto.fDigest)

def RelayCrypto.bwd (crypto : RelayCrypto) : Half := (crypto.bCrypto, crypto.bDigest)

/-- A cell as it was sent: the hop it is for or from, the payload, and the state of the
    sender for this hop afterwards. -/
structure Cell where
  hop : Nat
  payload : Payload
  sender : Half

/-- A cell on a link. The code sees `wire` only. -/
structure Msg where
  wire : Payload
  cell : Cell

/-- What a receiver made of a cell: the hop it reported if any, the payload and its state
    for this hop afterwards. -/
structure Report where
  cell : Cell
  layer : Option Nat
  payload : Payload
  receiver : Half

/-- `outLink j` are the cells on the way to relay `j`, `inLink j` those on the way from it.
    The last four fields are the history: what the origin sent, what relay `j` put on its
    link towards the origin, and the reports of the relays and of the origin. -/
structure Circuit where
  n : Nat
  cpath : Cpath
  relays : Nat → RelayCrypto
  outLink : Nat → List Msg
  inLink : Nat → List Msg
  markedForClose : Bool
  outSent : List Cell
  inPut : Nat → List Cell
  outLog : Nat → List Report
  inLog : List Report

/-- All hops are open, and relay and origin have the same state for a hop. -/
def start (n : Nat) (init : Nat → RelayCrypto) : Circuit where
  n := n
  cpath := fun j => ⟨.OPEN, init j⟩
  relays := init
  outLink := fun _ => []
  inLink := fun _ => []
  markedForClose := false
  outSent := []
  inPut := fun _ => []
  outLog := fun _ => []
  inLog := []

namespace Circuit

open Function

variable (c : Circuit)

/-- The origin packages a cell for a hop. -/
def sendOut (hop : Nat) (payload : Payload) : Circuit :=
  let (cpath, wire) := relayEncryptCellOutbound c.cpath hop payload
  let cell := ⟨hop, payload, (cpath hop).pvtCrypto.fwd⟩
  { c with
    cpath := cpath
    outLink := update c.outLink 0 (c.outLink 0 ++ [⟨wire, cell⟩])
    outSent := c.outSent ++ [cell] }

/-- Relay `j` takes a cell from its link: it is for the relay, or it is passed on. After
    the last relay there is no channel, and the circuit is closed. -/
def recvOut (j : Nat) (m : Msg) (rest : List Msg) : Circuit :=
  let (crypto, payload, recognized) := relayDecryptCellOut (c.relays j) m.wire
  let report := ⟨m.cell, if recognized then some j else none, payload, crypto.fwd⟩
  let c := { c with
    relays := update c.relays j crypto
    outLink := update c.outLink j rest
    outLog := update c.outLog j (c.outLog j ++ [report]) }
  if recognized then c
  else if j + 1 < c.n then { c with outLink := update c.outLink (j + 1) (c.outLink (j + 1) ++ [⟨payload, m.cell⟩]) }
  else { c with markedForClose := true }

/-- Relay `j` packages a cell for the origin. -/
def sendIn (j : Nat) (payload : Payload) : Circuit :=
  let (crypto, wire) := relayEncryptCellInbound (c.relays j) payload
  let cell := ⟨j, payload, crypto.bwd⟩
  { c with
    relays := update c.relays j crypto
    inLink := update c.inLink j (c.inLink j ++ [⟨wire, cell⟩])
    inPut := update c.inPut j (c.inPut j ++ [cell]) }

/-- Relay `j` passes a cell on to the origin. -/
def relayIn (j : Nat) (m : Msg) (rest : List Msg) : Circuit :=
  let (crypto, wire) := relayDecryptCellIn (c.relays j) m.wire
  { c with
    relays := update c.relays j crypto
    inLink := update (update c.inLink (j + 1) rest) j (c.inLink j ++ [⟨wire, m.cell⟩])
    inPut := update c.inPut j (c.inPut j ++ [m.cell]) }

/-- The origin takes a cell; one that no hop recognizes closes the circuit. -/
def recvIn (m : Msg) (rest : List Msg) : Circuit :=
  let (cpath, payload, layer) := relayDecryptCellOrigin c.n c.cpath m.wire
  let report := ⟨m.cell, layer, payload, (cpath (layer.getD 0)).pvtCrypto.bwd⟩
  { c with
    cpath := cpath
    inLink := update c.inLink 0 rest
    inLog := c.inLog ++ [report]
    markedForClose := layer.isNone }

end Circuit

inductive Action where
  | sendOut (hop : Nat) (payload : Payload)
  | recvOut (j : Nat)
  | sendIn (j : Nat) (payload : Payload)
  | relayIn (j : Nat)
  | recvIn

/-- `none` where there is no cell to take, no such hop, or the fields of a new cell are
    not 0. -/
def step (c : Circuit) (a : Action) : Option Circuit :=
  if c.markedForClose then none
  else
    match a with
    | .sendOut hop payload => if hop < c.n ∧ Fresh payload then some (c.sendOut hop payload) else none
    | .recvOut j =>
      match c.outLink j with
      | m :: rest => if j < c.n then some (c.recvOut j m rest) else none
      | [] => none
    | .sendIn j payload => if j < c.n ∧ Fresh payload then some (c.sendIn j payload) else none
    | .relayIn j =>
      match c.inLink (j + 1) with
      | m :: rest => if j + 1 < c.n then some (c.relayIn j m rest) else none
      | [] => none
    | .recvIn =>
      match c.inLink 0 with
      | m :: rest => some (c.recvIn m rest)
      | [] => none

/-- The payload after the layers of the hops up to `j` are taken off. -/
def peeled (cpath : Cpath) (payload : Payload) : Nat → Payload
  | 0 => cryptPayload (cpath 0).pvtCrypto.bCrypto payload
  | j + 1 => cryptPayload (cpath (j + 1)).pvtCrypto.bCrypto (peeled cpath payload j)

/-- The next step does not decrypt a cell for another hop that has a zero recognized field
    and a matching digest. -/
def NoCollision (c : Circuit) : Action → Prop
  | .recvOut j =>
    ∀ m ∈ (c.outLink j).head?, m.cell.hop ≠ j → ¬ Matches (c.relays j).fDigest (cryptPayload (c.relays j).fCrypto m.wire)
  | .recvIn =>
    ∀ m ∈ (c.inLink 0).head?, ∀ j < m.cell.hop, ¬ Matches (c.cpath j).pvtCrypto.bDigest (peeled c.cpath m.wire j)
  | _ => True

/-! ## States and layers, by the cells before -/

def CryptoCipher.advance (cipher : CryptoCipher) : CryptoCipher := { cipher with pos := cipher.pos + CELL_PAYLOAD_SIZE }

theorem relayCryptOnePayload_eq (cipher : CryptoCipher) (payload : Payload) :
    relayCryptOnePayload cipher payload = (cipher.advance, cryptPayload cipher payload) := rfl

/-- The state for hop `j` after the cells: the ones for it and beyond take a layer, the ones
    for it go into the digest. -/
def half (init : Nat → Half) (cells : List Cell) (j : Nat) : Half :=
  ({ (init j).1 with pos := (init j).1.pos + CELL_PAYLOAD_SIZE * cells.countP fun x => j ≤ x.hop },
    { (init j).2 with added := (init j).2.added ++ (cells.filter fun x => x.hop = j).flatMap fun x => x.payload.toList })

section

variable {init : Nat → Half} {cells : List Cell} {x : Cell} {j : Nat}

theorem half_nil : half init [] j = init j := by
  simp [half]

theorem half_snoc_lt (h : x.hop < j) : half init (cells ++ [x]) j = half init cells j := by
  simp [half, List.countP_append, List.filter_append, show ¬ j ≤ x.hop by omega, show x.hop ≠ j by omega]

theorem half_snoc_gt (h : j < x.hop) :
    half init (cells ++ [x]) j = ((half init cells j).1.advance, (half init cells j).2) := by
  simp [half, CryptoCipher.advance, List.countP_append, List.filter_append, show j ≤ x.hop by omega,
    show x.hop ≠ j by omega, Nat.mul_add, Nat.add_assoc]

theorem half_snoc_self (h : x.hop = j) :
    half init (cells ++ [x]) j =
      ((half init cells j).1.advance, cryptoDigestAddBytes (half init cells j).2 x.payload) := by
  simp [half, CryptoCipher.advance, cryptoDigestAddBytes, List.countP_append, List.filter_append, h, Nat.mul_add,
    Nat.add_assoc, List.append_assoc]

/-- The cells for hops up to `i` are nothing to the hops after it. -/
theorem half_filter {i : Nat} (h : i < j) : half init (cells.filter fun x => i < x.hop) j = half init cells j := by
  have hcount : (cells.filter fun x => i < x.hop).countP (fun x => j ≤ x.hop) = cells.countP fun x => j ≤ x.hop := by
    rw [List.countP_filter]
    congr 1
    funext x
    by_cases hx : j ≤ x.hop
    · simp [hx, show i < x.hop by omega]
    · simp [hx]
  have hfilter : (cells.filter fun x => i < x.hop).filter (fun x => x.hop = j) = cells.filter fun x => x.hop = j := by
    rw [List.filter_filter]
    congr 1
    funext x
    by_cases hx : x.hop = j
    · simp [hx, h]
    · simp [hx]
  simp only [half, hcount, hfilter]

end

/-- The cell as it is on the link of hop `j`, if the cells `before` went before it. -/
def wire (init : Nat → Half) (before : List Cell) (cell : Cell) (j : Nat) : Payload :=
  cryptPayload (half init before j).1
    (if j < cell.hop then wire init before cell (j + 1) else tag (half init before cell.hop).2 cell.payload)
termination_by cell.hop - j

/-- What is under the layer of hop `j`. -/
def inner (init : Nat → Half) (before : List Cell) (cell : Cell) (j : Nat) : Payload :=
  if j < cell.hop then wire init before cell (j + 1) else tag (half init before cell.hop).2 cell.payload

section

variable {init : Nat → Half} {before : List Cell} {cell : Cell} {j : Nat}

theorem wire_eq : wire init before cell j = cryptPayload (half init before j).1 (inner init before cell j) := by
  rw [wire, inner]

theorem crypt_wire : cryptPayload (half init before j).1 (wire init before cell j) = inner init before cell j := by
  rw [wire_eq, cryptPayload_cryptPayload]

theorem inner_lt (h : j < cell.hop) : inner init before cell j = wire init before cell (j + 1) := if_pos h

theorem inner_self (h : cell.hop = j) : inner init before cell j = tag (half init before j).2 cell.payload := by
  subst h
  exact if_neg (Nat.lt_irrefl _)

theorem wire_filter {i : Nat} (hij : i < j) (hj : j ≤ cell.hop) :
    wire init (before.filter fun x => i < x.hop) cell j = wire init before cell j := by
  induction hd : cell.hop - j generalizing j with
  | zero =>
    have hself : cell.hop = j := by omega
    rw [wire_eq, wire_eq, inner_self hself, inner_self hself, half_filter hij]
  | succ d ih =>
    have hlt : j < cell.hop := by omega
    rw [wire_eq, wire_eq, inner_lt hlt, inner_lt hlt, half_filter hij, ih (by omega) (by omega) (by omega)]

end

/-- The link has the cells as they are after the cells `base`, one after the other, and the
    senders' states. -/
def Carries (init : Nat → Half) (j : Nat) : List Cell → List Msg → Prop
  | _, [] => True
  | base, m :: link =>
    (m.wire = wire init base m.cell j ∧ m.cell.sender = half init (base ++ [m.cell]) m.cell.hop) ∧
      Carries init j (base ++ [m.cell]) link

theorem carries_snoc {init : Nat → Half} {j : Nat} {base : List Cell} {link : List Msg} {m : Msg}
    (h : Carries init j base link) (hw : m.wire = wire init (base ++ link.map Msg.cell) m.cell j)
    (hs : m.cell.sender = half init (base ++ link.map Msg.cell ++ [m.cell]) m.cell.hop) :
    Carries init j base (link ++ [m]) := by
  induction link generalizing base with
  | nil =>
    rw [List.map_nil, List.append_nil] at hw hs
    exact ⟨⟨hw, hs⟩, trivial⟩
  | cons x link ih =>
    refine ⟨h.1, ih h.2 ?_ ?_⟩
    · rw [List.append_assoc]
      exact hw
    · rw [List.append_assoc base]
      exact hs

/-! ## The functions on what is on the links -/

section

variable {init : Nat → Half}

theorem encryptLayers_fst (cpath : Cpath) (payload : Payload) (k j : Nat) :
    (encryptLayers cpath payload k).1 j =
      if j ≤ k then
        { cpath j with pvtCrypto := { (cpath j).pvtCrypto with fCrypto := (cpath j).pvtCrypto.fCrypto.advance } }
      else cpath j := by
  induction k generalizing cpath payload with
  | zero =>
    rw [encryptLayers]
    by_cases hj : j = 0
    · subst hj
      simp [relayCryptOnePayload_eq]
    · simp [relayCryptOnePayload_eq, hj]
  | succ k ih =>
    rw [encryptLayers]
    simp only [relayCryptOnePayload_eq, ih]
    by_cases hj : j = k + 1
    · subst hj
      simp
    · rw [Function.update_of_ne hj]
      by_cases hle : j ≤ k
      · rw [if_pos hle, if_pos (by omega)]
      · rw [if_neg hle, if_neg (by omega)]

variable {cell : Cell} {cpath : Cpath} {j n : Nat} {crypto : RelayCrypto} {received : List Cell}

/-- The layers from the one of hop `k` on, over what is under it. -/
theorem encryptLayers_snd {before : List Cell} {k : Nat} (hk : k ≤ cell.hop)
    (hc : ∀ j ≤ k, (cpath j).pvtCrypto.fCrypto = (half init before j).1) :
    (encryptLayers cpath (inner init before cell k) k).2 = wire init before cell 0 := by
  induction k generalizing cpath with
  | zero =>
    rw [encryptLayers]
    simp only [relayCryptOnePayload_eq, hc 0 (Nat.le_refl _)]
    rw [wire_eq]
  | succ k ih =>
    rw [encryptLayers]
    simp only [relayCryptOnePayload_eq, hc (k + 1) (Nat.le_refl _)]
    rw [← wire_eq, ← inner_lt (show k < cell.hop by omega)]
    apply ih (by omega)
    intro j hj
    rw [Function.update_of_ne (by omega)]
    exact hc j (by omega)

/-- Sending keeps the other direction as it is. -/
theorem outbound_frame (cpath : Cpath) (k : Nat) (payload : Payload) (j : Nat) :
    ((relayEncryptCellOutbound cpath k payload).1 j).state = (cpath j).state ∧
      ((relayEncryptCellOutbound cpath k payload).1 j).pvtCrypto.bwd = (cpath j).pvtCrypto.bwd := by
  unfold relayEncryptCellOutbound
  simp only [relaySetDigest_eq, encryptLayers_fst]
  by_cases hj : j = k
  · subst hj
    simp [RelayCrypto.bwd]
  · rw [Function.update_of_ne hj]
    split
    · exact ⟨rfl, rfl⟩
    · exact ⟨rfl, rfl⟩

theorem outbound_fwd {sent : List Cell} (cell : Cell) (hc : (cpath j).pvtCrypto.fwd = half init sent j) :
    ((relayEncryptCellOutbound cpath cell.hop cell.payload).1 j).pvtCrypto.fwd = half init (sent ++ [cell]) j := by
  unfold relayEncryptCellOutbound
  simp only [relaySetDigest_eq, encryptLayers_fst]
  rcases Nat.lt_trichotomy j cell.hop with hj | hj | hj
  · rw [Function.update_of_ne (Nat.ne_of_lt hj), if_pos (Nat.le_of_lt hj), half_snoc_gt hj, ← hc]
    rfl
  · subst hj
    rw [Function.update_self, if_pos (Nat.le_refl _), half_snoc_self rfl, ← hc]
    rfl
  · rw [Function.update_of_ne (Nat.ne_of_gt hj), if_neg (Nat.not_le.mpr hj), half_snoc_lt hj, ← hc]

/-- The origin puts the cell on the first link as it belongs there. -/
theorem outbound_wire {sent : List Cell} (cell : Cell)
    (hc : ∀ j ≤ cell.hop, (cpath j).pvtCrypto.fwd = half init sent j) :
    (relayEncryptCellOutbound cpath cell.hop cell.payload).2 = wire init sent cell 0 := by
  have htag : tag (cpath cell.hop).pvtCrypto.fDigest cell.payload = inner init sent cell cell.hop := by
    rw [inner_self rfl, ← hc cell.hop (Nat.le_refl _)]
    rfl
  unfold relayEncryptCellOutbound
  simp only [relaySetDigest_eq, htag]
  apply encryptLayers_snd (Nat.le_refl _)
  intro j hj
  rw [← hc j hj]
  by_cases hjk : j = cell.hop
  · subst hjk
    rw [Function.update_self]
    rfl
  · rw [Function.update_of_ne hjk]
    rfl

/-- A relay recognizes a cell for it, and its state goes on as the sender's did. -/
theorem decryptOut_self {seen : List Cell} (hf : Fresh cell.payload) (hc : crypto.fwd = half init seen cell.hop) :
    relayDecryptCellOut crypto (wire init seen cell cell.hop) =
      ({ crypto with
          fCrypto := (half init (seen ++ [cell]) cell.hop).1
          fDigest := (half init (seen ++ [cell]) cell.hop).2 }, cell.payload, true) := by
  have h1 : crypto.fCrypto = (half init seen cell.hop).1 := congrArg Prod.fst hc
  have h2 : crypto.fDigest = (half init seen cell.hop).2 := congrArg Prod.snd hc
  unfold relayDecryptCellOut
  simp only [relayCryptOnePayload_eq, h1, h2, crypt_wire, inner_self rfl, recognize_tag _ hf, half_snoc_self rfl]

/-- It takes a layer off of another one that does not look like one for it. -/
theorem decryptOut_lt {seen : List Cell} (hj : j < cell.hop)
    (hc : crypto.fwd = half init seen j) (hno : ¬ Matches crypto.fDigest (cryptPayload crypto.fCrypto (wire init seen cell j))) :
    relayDecryptCellOut crypto (wire init seen cell j) =
      ({ crypto with
          fCrypto := (half init (seen ++ [cell]) j).1
          fDigest := (half init (seen ++ [cell]) j).2 }, wire init seen cell (j + 1), false) := by
  have h1 : crypto.fCrypto = (half init seen j).1 := congrArg Prod.fst hc
  have h2 : crypto.fDigest = (half init seen j).2 := congrArg Prod.snd hc
  rw [h1, h2, crypt_wire, inner_lt hj] at hno
  unfold relayDecryptCellOut
  simp only [relayCryptOnePayload_eq, h1, h2, crypt_wire, inner_lt hj, recognize_of_not_matches hno, half_snoc_gt hj]

/-- A relay puts a new cell on its link as it belongs there. -/
theorem inbound_eq {put : List Cell} (cell : Cell) (hc : crypto.bwd = half init put cell.hop) :
    relayEncryptCellInbound crypto cell.payload =
      ({ crypto with
          bCrypto := (half init (put ++ [cell]) cell.hop).1
          bDigest := (half init (put ++ [cell]) cell.hop).2 }, wire init put cell cell.hop) := by
  have h1 : crypto.bCrypto = (half init put cell.hop).1 := congrArg Prod.fst hc
  have h2 : crypto.bDigest = (half init put cell.hop).2 := congrArg Prod.snd hc
  unfold relayEncryptCellInbound
  simp only [relayCryptOnePayload_eq, relaySetDigest_eq, h1, h2, half_snoc_self rfl]
  rw [wire_eq, inner_self rfl]

/-- And so it does with one from a relay after it. -/
theorem decryptIn_eq {put : List Cell} (hj : j < cell.hop) (hc : crypto.bwd = half init put j) :
    relayDecryptCellIn crypto (wire init put cell (j + 1)) =
      ({ crypto with
          bCrypto := (half init (put ++ [cell]) j).1
          bDigest := (half init (put ++ [cell]) j).2 }, wire init put cell j) := by
  have h1 : crypto.bCrypto = (half init put j).1 := congrArg Prod.fst hc
  have h2 : crypto.bDigest = (half init put j).2 := congrArg Prod.snd hc
  unfold relayDecryptCellIn
  have hw : wire init put cell j = cryptPayload (half init put j).1 (wire init put cell (j + 1)) := by
    rw [wire_eq, inner_lt hj]
  simp only [relayCryptOnePayload_eq, h1, half_snoc_gt hj, ← h2, hw]

theorem peeled_wire (hn : cell.hop < n)
    (hc : ∀ i < n, (cpath i).pvtCrypto.bwd = half init received i) (hj : j ≤ cell.hop) :
    peeled cpath (wire init received cell 0) j = inner init received cell j := by
  have hb : ∀ i ≤ cell.hop, (cpath i).pvtCrypto.bCrypto = (half init received i).1 := by
    intro i hi
    rw [← hc i (by omega)]
    rfl
  induction j with
  | zero => rw [peeled, hb 0 hj, crypt_wire]
  | succ j ih => rw [peeled, hb (j + 1) hj, ih (by omega), inner_lt (by omega), crypt_wire]

/-- The hop with another state for cells to the origin. -/
def setBwd (cpath : Cpath) (j : Nat) (h : Half) : Cpath :=
  Function.update cpath j { cpath j with pvtCrypto := { (cpath j).pvtCrypto with bCrypto := h.1, bDigest := h.2 } }

theorem setBwd_self (cpath : Cpath) (j : Nat) (h : Half) : (setBwd cpath j h j).pvtCrypto.bwd = h := by
  rw [setBwd, Function.update_self]
  rfl

theorem setBwd_ne (cpath : Cpath) {i : Nat} (h : Half) (hij : i ≠ j) : setBwd cpath j h i = cpath i :=
  Function.update_of_ne hij _ _

theorem setBwd_frame (cpath : Cpath) (j : Nat) (h : Half) (i : Nat) :
    (setBwd cpath j h i).state = (cpath i).state ∧ (setBwd cpath j h i).pvtCrypto.fwd = (cpath i).pvtCrypto.fwd := by
  by_cases hi : i = j
  · subst hi
    rw [setBwd, Function.update_self]
    exact ⟨rfl, rfl⟩
  · rw [setBwd_ne cpath h hi]
    exact ⟨rfl, rfl⟩

/-- The turn of the loop for the hop the cell is from. -/
theorem decryptLayers_self (hf : Fresh cell.payload)
    (hc : (cpath cell.hop).pvtCrypto.bwd = half init received cell.hop) :
    decryptLayers n cpath (wire init received cell cell.hop) cell.hop =
      (setBwd cpath cell.hop (half init (received ++ [cell]) cell.hop), cell.payload, some cell.hop) := by
  have h1 : (cpath cell.hop).pvtCrypto.bCrypto = (half init received cell.hop).1 := congrArg Prod.fst hc
  have h2 : (cpath cell.hop).pvtCrypto.bDigest = (half init received cell.hop).2 := congrArg Prod.snd hc
  rw [decryptLayers]
  simp only [relayCryptOnePayload_eq, h1, h2, crypt_wire, inner_self rfl, recognize_tag _ hf, if_true, half_snoc_self rfl]
  rfl

/-- The turns before. -/
theorem decryptLayers_lt (hj : j < cell.hop) (hn : cell.hop < n) (hopen : ∀ i < n, (cpath i).state = .OPEN)
    (hc : (cpath j).pvtCrypto.bwd = half init received j)
    (hno : ¬ Matches (half init received j).2 (inner init received cell j)) :
    decryptLayers n cpath (wire init received cell j) j =
      decryptLayers n (setBwd cpath j (half init (received ++ [cell]) j)) (wire init received cell (j + 1)) (j + 1) := by
  have h1 : (cpath j).pvtCrypto.bCrypto = (half init received j).1 := congrArg Prod.fst hc
  have h2 : (cpath j).pvtCrypto.bDigest = (half init received j).2 := congrArg Prod.snd hc
  have hnext : j + 1 < n ∧ (setBwd cpath j (half init (received ++ [cell]) j) (j + 1)).state = .OPEN := by
    refine ⟨by omega, ?_⟩
    rw [(setBwd_frame _ _ _ _).1]
    exact hopen (j + 1) (by omega)
  rw [inner_lt hj] at hno
  rw [decryptLayers]
  rw [half_snoc_gt hj] at hnext ⊢
  simp only [relayCryptOnePayload_eq, h1, h2, crypt_wire, inner_lt hj, recognize_of_not_matches hno]
  rw [if_neg (by simp)]
  exact if_pos hnext

/-- The origin takes the layers off up to the hop the cell is from, and the state for each
    of these hops goes on as the relay's did. -/
theorem decryptLayers_eq (hj : j ≤ cell.hop)
    (hn : cell.hop < n) (hf : Fresh cell.payload) (hopen : ∀ i < n, (cpath i).state = .OPEN)
    (hc : ∀ i < n, j ≤ i → (cpath i).pvtCrypto.bwd = half init received i)
    (hno : ∀ i, j ≤ i → i < cell.hop → ¬ Matches (half init received i).2 (inner init received cell i)) :
    ∃ cpath', decryptLayers n cpath (wire init received cell j) j = (cpath', cell.payload, some cell.hop) ∧
      (∀ i < n, j ≤ i → (cpath' i).pvtCrypto.bwd = half init (received ++ [cell]) i) ∧ (∀ i < j, cpath' i = cpath i) ∧
      ∀ i, (cpath' i).state = (cpath i).state ∧ (cpath' i).pvtCrypto.fwd = (cpath i).pvtCrypto.fwd := by
  induction hd : cell.hop - j generalizing j cpath with
  | zero =>
    have hself : j = cell.hop := by omega
    subst hself
    refine ⟨_, decryptLayers_self hf (hc _ hn (Nat.le_refl _)), fun i hi hji => ?_, fun i hi => ?_, fun i => ?_⟩
    · by_cases hij : i = cell.hop
      · subst hij
        exact setBwd_self _ _ _
      · rw [setBwd_ne _ _ hij, half_snoc_lt (by omega)]
        exact hc i hi hji
    · exact setBwd_ne _ _ (by omega)
    · exact setBwd_frame _ _ _ _
  | succ d ih =>
    have hlt : j < cell.hop := by omega
    rw [decryptLayers_lt hlt hn hopen (hc j (by omega) (Nat.le_refl _)) (hno j (Nat.le_refl _) hlt)]
    obtain ⟨cpath', heq, hbwd, hbefore, hframe⟩ := @ih (setBwd cpath j (half init (received ++ [cell]) j)) (j + 1) (by omega)
      (fun i hi => by rw [(setBwd_frame _ _ _ _).1]; exact hopen i hi)
      (fun i hi hji => by rw [setBwd_ne _ _ (by omega)]; exact hc i hi (by omega))
      (fun i hji => hno i (by omega)) (by omega)
    refine ⟨cpath', heq, fun i hi hji => ?_, fun i hi => ?_, fun i => ?_⟩
    · by_cases hij : i = j
      · subst hij
        rw [hbefore i (by omega), setBwd_self]
      · exact hbwd i hi (by omega)
    · rw [hbefore i (by omega), setBwd_ne _ _ (by omega)]
    · rw [(hframe i).1, (hframe i).2]
      exact setBwd_frame _ _ _ _

/-- The same, for all layers. -/
theorem decryptOrigin_eq (hn : cell.hop < n) (hf : Fresh cell.payload) (hopen : ∀ i < n, (cpath i).state = .OPEN)
    (hc : ∀ i < n, (cpath i).pvtCrypto.bwd = half init received i)
    (hno : ∀ j < cell.hop, ¬ Matches (cpath j).pvtCrypto.bDigest (peeled cpath (wire init received cell 0) j)) :
    ∃ cpath', relayDecryptCellOrigin n cpath (wire init received cell 0) = (cpath', cell.payload, some cell.hop) ∧
      (∀ i < n, (cpath' i).pvtCrypto.bwd = half init (received ++ [cell]) i) ∧
      ∀ i, (cpath' i).state = (cpath i).state ∧ (cpath' i).pvtCrypto.fwd = (cpath i).pvtCrypto.fwd := by
  have hno' : ∀ i, 0 ≤ i → i < cell.hop → ¬ Matches (half init received i).2 (inner init received cell i) := by
    intro i _ hi
    have h := hno i hi
    rw [peeled_wire hn hc (Nat.le_of_lt hi)] at h
    rw [← hc i (by omega)]
    exact h
  obtain ⟨cpath', heq, hbwd, -, hframe⟩ := decryptLayers_eq (Nat.zero_le _) hn hf hopen (fun i hi _ => hc i hi) hno'
  refine ⟨cpath', ?_, fun i hi => hbwd i hi (Nat.zero_le _), hframe⟩
  rw [relayDecryptCellOrigin, if_neg (not_not.mpr (hopen 0 (by omega))), heq]

end

end Badnet.Relay

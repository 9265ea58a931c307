/-
  Badnet.Relay.Delivery — every cell of a circuit reaches its hop.

  On each link are the cells that one end put there and the other did not take yet, with the layers that belong to the
  cells before them (`OutInv`, `InInv`). Where no cell for another hop looks like one for the hop that decrypts it, each
  relay recognizes exactly the cells for it, in order, and the origin each cell as one of the relay that sent it
  (`cells_reach_their_hops`).
-/

import Badnet.Relay.Circuit

namespace Badnet.Relay

open Lib Function

theorem filter_lt_filter_le (cells : List Cell) (j : Nat) :
    ((cells.filter fun x => j ≤ x.hop).filter fun x => j < x.hop) = cells.filter fun x => j + 1 ≤ x.hop := by
  rw [List.filter_filter]
  congr 1
  funext x
  by_cases hx : j < x.hop
  · simp [hx, Nat.le_of_lt hx, Nat.succ_le_of_lt hx]
  · simp [hx, show ¬ j + 1 ≤ x.hop by omega]

theorem relay_eq_update {init relay : Nat → Half} {seen : Nat → List Cell} {n j : Nat}
    (h : ∀ i < n, relay i = half init (seen i) i) (cells : List Cell) :
    ∀ i < n, update relay j (half init cells j) i = half init (update seen j cells i) i := by
  intro i hi
  by_cases hij : i = j
  · subst hij
    rw [update_self, update_self]
  · rw [update_of_ne hij, update_of_ne hij]
    exact h i hi

/-! ## Cells away from the origin -/

/-- `seen j` are the cells relay `j` took. -/
structure OutInv (init : Nat → Half) (n : Nat) (origin relay : Nat → Half) (link : Nat → List Msg) (sent : List Cell)
    (seen : Nat → List Cell) : Prop where
  origin_eq : ∀ j < n, origin j = half init sent j
  relay_eq : ∀ j < n, relay j = half init (seen j) j
  first : seen 0 ++ (link 0).map Msg.cell = sent
  next : ∀ j, j + 1 < n → seen (j + 1) ++ (link (j + 1)).map Msg.cell = (seen j).filter fun x => j < x.hop
  cells : ∀ x ∈ sent, x.hop < n ∧ Fresh x.payload
  carries : ∀ j < n, Carries init j (seen j) (link j)

namespace OutInv

variable {init : Nat → Half} {n : Nat} {origin relay : Nat → Half} {link : Nat → List Msg} {sent : List Cell}
  {seen : Nat → List Cell}

variable {j : Nat} {m : Msg} {rest : List Msg}

/-- What relay `j` took is the first part of what was sent for it and beyond. -/
theorem seen_prefix (h : OutInv init n origin relay link sent seen) (hj : j < n) :
    seen j ++ (link j).map Msg.cell <+: sent.filter fun x => j ≤ x.hop := by
  induction j with
  | zero =>
    have hall : sent.filter (fun x => 0 ≤ x.hop) = sent := List.filter_eq_self.mpr (by simp)
    exact (h.first.trans hall.symm) ▸ List.prefix_refl _
  | succ j ih =>
    have hseen : seen j <+: sent.filter fun x => j ≤ x.hop := (List.prefix_append _ _).trans (ih (by omega))
    rw [h.next j hj, ← filter_lt_filter_le]
    exact hseen.filter _

theorem head_cell (h : OutInv init n origin relay link sent seen) (hj : j < n)
    (hl : link j = m :: rest) : j ≤ m.cell.hop ∧ m.cell.hop < n ∧ Fresh m.cell.payload := by
  have hmem : m.cell ∈ seen j ++ (link j).map Msg.cell := by simp [hl]
  obtain ⟨hsent, hle⟩ := List.mem_filter.mp ((h.seen_prefix hj).subset hmem)
  exact ⟨of_decide_eq_true hle, h.cells _ hsent⟩

theorem start (init : Nat → Half) (n : Nat) : OutInv init n init init (fun _ => []) [] (fun _ => []) where
  origin_eq _ _ := half_nil.symm
  relay_eq _ _ := half_nil.symm
  first := rfl
  next _ _ := rfl
  cells _ hx := nomatch hx
  carries _ _ := trivial

section

variable (h : OutInv init n origin relay link sent seen)
include h

/-- The origin sends a cell. -/
theorem send (hn : m.cell.hop < n) (hf : Fresh m.cell.payload) {origin' : Nat → Half}
    (ho : ∀ j < n, origin' j = half init (sent ++ [m.cell]) j) (hw : m.wire = wire init sent m.cell 0)
    (hs : m.cell.sender = half init (sent ++ [m.cell]) m.cell.hop) :
    OutInv init n origin' relay (update link 0 (link 0 ++ [m])) (sent ++ [m.cell]) seen where
  origin_eq := ho
  relay_eq := h.relay_eq
  first := by
    rw [update_self, List.map_append, ← List.append_assoc, h.first]
    rfl
  next j hj := by
    rw [update_of_ne (by omega)]
    exact h.next j hj
  cells x hx := by
    rcases List.mem_append.mp hx with hx | hx
    · exact h.cells x hx
    · rw [List.mem_singleton.mp hx]
      exact ⟨hn, hf⟩
  carries j hj := by
    by_cases h0 : j = 0
    · subst h0
      rw [update_self]
      apply carries_snoc (h.carries 0 hj)
      · rw [h.first]
        exact hw
      · rw [h.first]
        exact hs
    · rw [update_of_ne h0]
      exact h.carries j hj

theorem took_first (hl : link j = m :: rest) :
    update seen j (seen j ++ [m.cell]) 0 ++ (update link j rest 0).map Msg.cell = sent := by
  by_cases h0 : j = 0
  · subst h0
    rw [update_self, update_self, ← h.first, hl]
    simp
  · rw [update_of_ne (Ne.symm h0), update_of_ne (Ne.symm h0)]
    exact h.first

theorem took_carries (hl : link j = m :: rest) (i : Nat) (hi : i < n) :
    Carries init i (update seen j (seen j ++ [m.cell]) i) (update link j rest i) := by
  by_cases hij : i = j
  · subst hij
    have hc := h.carries i hi
    rw [hl] at hc
    rw [update_self, update_self]
    exact hc.2
  · rw [update_of_ne hij, update_of_ne hij]
    exact h.carries i hi

/-- Relay `j` takes a cell and keeps it: it is for no relay after it. -/
theorem take (hl : link j = m :: rest) (hm : m.cell.hop = j) :
    OutInv init n origin (update relay j (half init (seen j ++ [m.cell]) j)) (update link j rest) sent
      (update seen j (seen j ++ [m.cell])) where
  origin_eq := h.origin_eq
  relay_eq := relay_eq_update h.relay_eq _
  first := h.took_first hl
  next i hi := by
    have hnext := h.next i hi
    have hseen : ((update seen j (seen j ++ [m.cell])) i).filter (fun x => i < x.hop) = (seen i).filter fun x => i < x.hop := by
      by_cases hij : i = j
      · subst hij
        rw [update_self, List.filter_append]
        simp [hm]
      · rw [update_of_ne hij]
    rw [hseen, ← hnext]
    by_cases hij : i + 1 = j
    · subst hij
      rw [update_self, update_self, hl]
      simp
    · rw [update_of_ne hij, update_of_ne hij]
  cells := h.cells
  carries := h.took_carries hl

/-- Relay `j` takes a cell and passes it on. -/
theorem pass (hj : j + 1 < n) (hl : link j = m :: rest) (hm : j < m.cell.hop) :
    OutInv init n origin (update relay j (half init (seen j ++ [m.cell]) j))
      (update (update link j rest) (j + 1) (link (j + 1) ++ [⟨wire init (seen j) m.cell (j + 1), m.cell⟩])) sent
      (update seen j (seen j ++ [m.cell])) where
  origin_eq := h.origin_eq
  relay_eq := relay_eq_update h.relay_eq _
  first := by
    rw [update_of_ne (Nat.zero_ne_add_one j)]
    exact h.took_first hl
  next i hi := by
    have hnext := h.next i hi
    by_cases hij : i = j
    · subst hij
      rw [update_self, update_self, update_of_ne (by omega), List.map_append, ← List.append_assoc, hnext, List.filter_append]
      simp [hm]
    · rw [update_of_ne (show i + 1 ≠ j + 1 by omega), update_of_ne hij, ← hnext]
      by_cases hij' : i + 1 = j
      · subst hij'
        rw [update_self, update_self, hl]
        simp
      · rw [update_of_ne hij', update_of_ne hij']
  cells := h.cells
  carries i hi := by
    by_cases hij : i = j + 1
    · subst hij
      have hlink := h.carries j (by omega)
      rw [hl] at hlink
      rw [update_self, update_of_ne (by omega)]
      apply carries_snoc (h.carries (j + 1) hi)
      · rw [h.next j hj, wire_filter (Nat.lt_succ_self j) hm]
      · have hfilter : ((seen j).filter fun x => j < x.hop) ++ [m.cell] = (seen j ++ [m.cell]).filter fun x => j < x.hop := by
          rw [List.filter_append]
          simp [hm]
        rw [h.next j hj, hfilter, half_filter hm]
        exact hlink.1.2
    · rw [update_of_ne hij]
      exact h.took_carries hl i hi

/-- When nothing is on the way up to relay `j`, it took all that was sent for it and
    beyond. -/
theorem seen_eq (hj : j < n) (hempty : ∀ i ≤ j, link i = []) : seen j = sent.filter fun x => j ≤ x.hop := by
  induction j with
  | zero =>
    have hfirst := h.first
    rw [hempty 0 (Nat.le_refl _), List.map_nil, List.append_nil] at hfirst
    rw [hfirst, List.filter_eq_self.mpr (by simp)]
  | succ j ih =>
    have hnext := h.next j hj
    rw [hempty (j + 1) (Nat.le_refl _), List.map_nil, List.append_nil, ih (by omega) fun i hi => hempty i (by omega)] at hnext
    rw [hnext, filter_lt_filter_le]

end

end OutInv

/-! ## Cells to the origin -/

/-- `put j` are the cells relay `j` put on its link. -/
structure InInv (init : Nat → Half) (n : Nat) (origin relay : Nat → Half) (link : Nat → List Msg) (received : List Cell)
    (put : Nat → List Cell) : Prop where
  origin_eq : ∀ j < n, origin j = half init received j
  relay_eq : ∀ j < n, relay j = half init (put j) j
  first : received ++ (link 0).map Msg.cell = put 0
  next : ∀ j, j + 1 < n → ((put j).filter fun x => j < x.hop) ++ (link (j + 1)).map Msg.cell = put (j + 1)
  cells : ∀ j < n, ∀ x ∈ put j, j ≤ x.hop ∧ x.hop < n ∧ Fresh x.payload
  carriesFirst : Carries init 0 received (link 0)
  carriesNext : ∀ j, j + 1 < n → Carries init (j + 1) ((put j).filter fun x => j < x.hop) (link (j + 1))

namespace InInv

variable {init : Nat → Half} {n : Nat} {origin relay : Nat → Half} {link : Nat → List Msg} {received : List Cell}
  {put : Nat → List Cell}

theorem start (init : Nat → Half) (n : Nat) : InInv init n init init (fun _ => []) [] (fun _ => []) where
  origin_eq _ _ := half_nil.symm
  relay_eq _ _ := half_nil.symm
  first := rfl
  next _ _ := rfl
  cells _ _ _ hx := nomatch hx
  carriesFirst := trivial
  carriesNext _ _ := trivial

section

variable (h : InInv init n origin relay link received put)
include h

/-- The first cell of a link from relay `j + 1`. -/
theorem head_cell {j : Nat} (hj : j + 1 < n) {m : Msg} {rest : List Msg} (hl : link (j + 1) = m :: rest) :
    j < m.cell.hop ∧ m.cell.hop < n ∧ Fresh m.cell.payload := by
  have hmem : m.cell ∈ put (j + 1) := by
    rw [← h.next j hj, hl]
    simp
  obtain ⟨hle, hrest⟩ := h.cells (j + 1) hj _ hmem
  exact ⟨hle, hrest⟩

/-- Relay `j` puts a cell on its link: one of its own, or the first one of the link of the
    relay after it. -/
theorem put_cell {j : Nat} (hj : j < n) {cell : Cell} (hle : j ≤ cell.hop) (hn : cell.hop < n)
    (hf : Fresh cell.payload) (hs : cell.sender = half init (put j ++ [cell]) cell.hop) {link' : Nat → List Msg}
    (hself : link' j = link j ++ [⟨wire init (put j) cell j, cell⟩])
    (hother : ∀ i, i ≠ j → i ≠ j + 1 → link' i = link i)
    (hafter : if j < cell.hop then ∃ w, link (j + 1) = ⟨w, cell⟩ :: link' (j + 1) else link' (j + 1) = link (j + 1)) :
    InInv init n origin (update relay j (half init (put j ++ [cell]) j)) link' received (update put j (put j ++ [cell])) where
  origin_eq := h.origin_eq
  relay_eq := relay_eq_update h.relay_eq _
  first := by
    by_cases h0 : j = 0
    · subst h0
      rw [update_self, hself, List.map_append, ← List.append_assoc, h.first]
      rfl
    · rw [update_of_ne (Ne.symm h0), hother 0 (Ne.symm h0) (by omega)]
      exact h.first
  next i hi := by
    have hnext := h.next i hi
    by_cases hij : i = j
    · -- what relay `j` put goes over from the link after it, or is its own
      subst hij
      rw [update_self, update_of_ne (by omega), ← hnext, List.filter_append]
      split at hafter
      · rename_i hlt
        obtain ⟨w, hw⟩ := hafter
        rw [hw]
        simp [hlt]
      · rename_i hlt
        rw [hafter]
        simp [hlt]
    · rw [update_of_ne hij]
      by_cases hij' : i + 1 = j
      · subst hij'
        rw [update_self, hself, List.map_append, ← List.append_assoc, hnext]
        rfl
      · rw [update_of_ne hij', hother (i + 1) hij' (by omega)]
        exact hnext
  cells i hi x hx := by
    by_cases hij : i = j
    · subst hij
      rw [update_self] at hx
      rcases List.mem_append.mp hx with hx | hx
      · exact h.cells i hi x hx
      · rw [List.mem_singleton.mp hx]
        exact ⟨hle, hn, hf⟩
    · rw [update_of_ne hij] at hx
      exact h.cells i hi x hx
  carriesFirst := by
    by_cases h0 : j = 0
    · subst h0
      rw [hself]
      apply carries_snoc h.carriesFirst
      · rw [h.first]
      · rw [h.first]
        exact hs
    · rw [hother 0 (Ne.symm h0) (by omega)]
      exact h.carriesFirst
  carriesNext i hi := by
    have hc := h.carriesNext i hi
    by_cases hij : i = j
    · subst hij
      rw [update_self, List.filter_append]
      split at hafter
      · rename_i hlt
        obtain ⟨w, hw⟩ := hafter
        rw [hw] at hc
        simpa [hlt] using hc.2
      · rename_i hlt
        rw [hafter]
        simpa [hlt] using hc
    · rw [update_of_ne hij]
      by_cases hij' : i + 1 = j
      · subst hij'
        rw [hself]
        apply carries_snoc hc
        · rw [h.next i hi]
        · rw [h.next i hi]
          exact hs
      · rw [hother (i + 1) hij' (by omega)]
        exact hc

/-- The origin takes a cell. -/
theorem take {m : Msg} {rest : List Msg} (hl : link 0 = m :: rest) {origin' : Nat → Half}
    (ho : ∀ j < n, origin' j = half init (received ++ [m.cell]) j) :
    InInv init n origin' relay (update link 0 rest) (received ++ [m.cell]) put where
  origin_eq := ho
  relay_eq := h.relay_eq
  first := by
    rw [update_self, ← h.first, hl]
    simp
  next i hi := by
    rw [update_of_ne (by omega)]
    exact h.next i hi
  cells := h.cells
  carriesFirst := by
    have hc := h.carriesFirst
    rw [hl] at hc
    rw [update_self]
    exact hc.2
  carriesNext i hi := by
    rw [update_of_ne (by omega)]
    exact h.carriesNext i hi

/-- What relay `k` put on its link and the origin took of it. -/
theorem received_prefix {k : Nat} (hk : k < n) : (received.filter fun x => k ≤ x.hop) <+: put k := by
  induction k with
  | zero =>
    rw [List.filter_eq_self.mpr (by simp), ← h.first]
    exact List.prefix_append _ _
  | succ k ih =>
    rw [← filter_lt_filter_le, ← h.next k hk]
    exact ((ih (by omega)).filter _).trans (List.prefix_append _ _)

theorem received_eq {k : Nat} (hk : k < n) (hempty : ∀ i ≤ k, link i = []) :
    (received.filter fun x => k ≤ x.hop) = put k := by
  induction k with
  | zero =>
    have hfirst := h.first
    rw [hempty 0 (Nat.le_refl _), List.map_nil, List.append_nil] at hfirst
    rw [List.filter_eq_self.mpr (by simp), hfirst]
  | succ k ih =>
    have hnext := h.next k hk
    rw [hempty (k + 1) (Nat.le_refl _), List.map_nil, List.append_nil] at hnext
    rw [← filter_lt_filter_le, ih (by omega) fun i hi => hempty i (by omega), hnext]

end

end InInv

/-! ## Every run -/

/-- The relay recognizes the cells for it and no others, with what was sent, and is then
    where the origin was. -/
def GoodOut (j : Nat) (r : Report) : Prop :=
  (r.layer = if r.cell.hop = j then some j else none) ∧
    (r.cell.hop = j → r.payload = r.cell.payload ∧ r.receiver = r.cell.sender)

/-- The origin recognizes the cell as one of the relay it is from, and is then where the
    relay was. -/
def GoodIn (r : Report) : Prop := r.layer = some r.cell.hop ∧ r.payload = r.cell.payload ∧ r.receiver = r.cell.sender

structure Inv (n : Nat) (init : Nat → RelayCrypto) (c : Circuit) : Prop where
  size : c.n = n
  alive : c.markedForClose = false
  hopsOpen : ∀ j < n, (c.cpath j).state = .OPEN
  outInv : OutInv (fun j => (init j).fwd) n (fun j => (c.cpath j).pvtCrypto.fwd) (fun j => (c.relays j).fwd) c.outLink
    c.outSent fun j => (c.outLog j).map Report.cell
  inInv : InInv (fun j => (init j).bwd) n (fun j => (c.cpath j).pvtCrypto.bwd) (fun j => (c.relays j).bwd) c.inLink
    (c.inLog.map Report.cell) c.inPut
  outGood : ∀ j < n, ∀ r ∈ c.outLog j, GoodOut j r
  inGood : ∀ r ∈ c.inLog, GoodIn r

theorem inv_start (n : Nat) (init : Nat → RelayCrypto) : Inv n init (start n init) where
  size := rfl
  alive := rfl
  hopsOpen _ _ := rfl
  outInv := OutInv.start _ _
  inInv := InInv.start _ _
  outGood _ _ _ hr := nomatch hr
  inGood _ hr := nomatch hr

section

variable {n : Nat} {init : Nat → RelayCrypto} {c : Circuit}

theorem inv_sendOut (h : Inv n init c) {hop : Nat} {payload : Payload} (hn : hop < n) (hf : Fresh payload) :
    Inv n init (c.sendOut hop payload) := by
  have hframe := outbound_frame c.cpath hop payload
  let cell : Cell := ⟨hop, payload, ((relayEncryptCellOutbound c.cpath hop payload).1 hop).pvtCrypto.fwd⟩
  have ho : ∀ j < n, ((relayEncryptCellOutbound c.cpath hop payload).1 j).pvtCrypto.fwd =
      half (fun j => (init j).fwd) (c.outSent ++ [cell]) j :=
    fun j hj => outbound_fwd cell (h.outInv.origin_eq j hj)
  have hw := outbound_wire cell fun j hj => h.outInv.origin_eq j (Nat.lt_of_le_of_lt hj hn)
  refine ⟨h.size, h.alive, fun j hj => ?_, ?_, ?_, h.outGood, h.inGood⟩
  · exact (hframe j).1.trans (h.hopsOpen j hj)
  · exact h.outInv.send (m := ⟨_, cell⟩) hn hf ho hw (ho hop hn)
  · have hb : (fun j => ((c.sendOut hop payload).cpath j).pvtCrypto.bwd) = fun j => (c.cpath j).pvtCrypto.bwd :=
      funext fun j => (hframe j).2
    rw [hb]
    exact h.inInv

/-- The state of relay `j` alone changes. -/
theorem half_update (g : RelayCrypto → Half) (relays : Nat → RelayCrypto) (j : Nat) (crypto : RelayCrypto) :
    (fun i => g (update relays j crypto i)) = update (fun i => g (relays i)) j (g crypto) :=
  funext fun i => apply_update (fun _ => g) relays j crypto i

theorem map_cell_update (log : Nat → List Report) (j : Nat) (r : Report) :
    (fun i => (update log j (log j ++ [r]) i).map Report.cell) =
      update (fun i => (log i).map Report.cell) j ((log j).map Report.cell ++ [r.cell]) := by
  funext i
  by_cases hij : i = j
  · subst hij
    simp
  · rw [update_of_ne hij, update_of_ne hij]

variable {j : Nat} {m : Msg} {rest : List Msg}

section

variable (h : Inv n init c)
include h

theorem outGood_snoc {r : Report} (hr : GoodOut j r) :
    ∀ i < n, ∀ x ∈ update c.outLog j (c.outLog j ++ [r]) i, GoodOut i x := by
  intro i hi x hx
  by_cases hij : i = j
  · subst hij
    rw [update_self] at hx
    rcases List.mem_append.mp hx with hx | hx
    · exact h.outGood i hi x hx
    · rw [List.mem_singleton.mp hx]
      exact hr
  · rw [update_of_ne hij] at hx
    exact h.outGood i hi x hx

theorem inv_recvOut (hj : j < n) (hl : c.outLink j = m :: rest)
    (hno : m.cell.hop ≠ j → ¬ Matches (c.relays j).fDigest (cryptPayload (c.relays j).fCrypto m.wire)) :
    Inv n init (c.recvOut j m rest) := by
  obtain ⟨hle, hn, hf⟩ := h.outInv.head_cell hj hl
  have hc := h.outInv.carries j hj
  rw [hl] at hc
  obtain ⟨⟨hw, hs⟩, -⟩ := hc
  have hrelay := h.outInv.relay_eq j hj
  have hsame : ∀ (f : CryptoCipher) (d : CryptoDigest),
      update (fun i => (c.relays i).bwd) j { c.relays j with fCrypto := f, fDigest := d }.bwd = fun i => (c.relays i).bwd :=
    fun f d => update_eq_self j fun i => (c.relays i).bwd
  unfold Circuit.recvOut
  by_cases hself : m.cell.hop = j
  · -- the cell is for this relay
    rw [hw, ← hself, decryptOut_self hf (by rw [hself]; exact hrelay), hself]
    simp only [if_true]
    refine ⟨h.size, h.alive, h.hopsOpen, ?_, ?_, ?_, h.inGood⟩
    · simp only [map_cell_update, half_update]
      exact h.outInv.take hl hself
    · simp only [half_update, hsame]
      exact h.inInv
    · apply outGood_snoc h
      refine ⟨by rw [if_pos hself], fun _ => ⟨rfl, ?_⟩⟩
      rw [hs, hself]
      rfl
  · have hlt : j < m.cell.hop := by omega
    have hnot := hno hself
    rw [hw] at hnot ⊢
    rw [decryptOut_lt hlt hrelay hnot]
    simp only [Bool.false_eq_true, if_false, h.size, if_pos (show j + 1 < n by omega)]
    refine ⟨rfl, h.alive, h.hopsOpen, ?_, ?_, ?_, h.inGood⟩
    · simp only [map_cell_update, half_update, update_of_ne (show j + 1 ≠ j by omega)]
      exact h.outInv.pass (by omega) hl hlt
    · simp only [half_update, hsame]
      exact h.inInv
    · apply outGood_snoc h
      exact ⟨by rw [if_neg hself], fun e => absurd e hself⟩

/-- Relay `j` with another state for cells to the origin, and a cell put on its link. -/
theorem inv_put (hj : j < n) (cell : Cell) (hle : j ≤ cell.hop) (hn : cell.hop < n) (hf : Fresh cell.payload)
    (hs : cell.sender = half (fun j => (init j).bwd) (c.inPut j ++ [cell]) cell.hop) {link' : Nat → List Msg}
    (hself : link' j = c.inLink j ++ [⟨wire (fun j => (init j).bwd) (c.inPut j) cell j, cell⟩])
    (hother : ∀ i, i ≠ j → i ≠ j + 1 → link' i = c.inLink i)
    (hafter : if j < cell.hop then ∃ w, c.inLink (j + 1) = ⟨w, cell⟩ :: link' (j + 1) else link' (j + 1) = c.inLink (j + 1))
    {crypto : RelayCrypto} (hfwd : crypto.fwd = (c.relays j).fwd)
    (hbwd : crypto.bwd = half (fun j => (init j).bwd) (c.inPut j ++ [cell]) j) :
    Inv n init { c with
      relays := update c.relays j crypto
      inLink := link'
      inPut := update c.inPut j (c.inPut j ++ [cell]) } := by
  refine ⟨h.size, h.alive, h.hopsOpen, ?_, ?_, h.outGood, h.inGood⟩
  · simp only [half_update RelayCrypto.fwd, hfwd]
    rw [update_eq_self j fun i => (c.relays i).fwd]
    exact h.outInv
  · simp only [half_update RelayCrypto.bwd, hbwd]
    exact h.inInv.put_cell hj hle hn hf hs hself hother hafter

theorem inv_sendIn {payload : Payload} (hj : j < n) (hf : Fresh payload) : Inv n init (c.sendIn j payload) := by
  let cell : Cell := ⟨j, payload, (relayEncryptCellInbound (c.relays j) payload).1.bwd⟩
  have heq := inbound_eq cell (h.inInv.relay_eq j hj)
  have hbwd := congrArg (fun r => r.1.bwd) heq
  have hfwd := congrArg (fun r => r.1.fwd) heq
  have hw := congrArg Prod.snd heq
  refine inv_put h hj cell (Nat.le_refl _) hj hf hbwd ?_ (fun i hi _ => update_of_ne hi _ _) ?_ hfwd hbwd
  · rw [update_self]
    exact congrArg (fun w => c.inLink j ++ [⟨w, cell⟩]) hw
  · rw [if_neg (Nat.lt_irrefl _), update_of_ne (by omega)]

theorem inv_relayIn (hj : j + 1 < n) (hl : c.inLink (j + 1) = m :: rest) : Inv n init (c.relayIn j m rest) := by
  obtain ⟨hlt, hn, hf⟩ := h.inInv.head_cell hj hl
  have hc := h.inInv.carriesNext j hj
  rw [hl] at hc
  obtain ⟨⟨hw, hs⟩, -⟩ := hc
  have hfilter : ((c.inPut j).filter fun x => j < x.hop) ++ [m.cell] = (c.inPut j ++ [m.cell]).filter fun x => j < x.hop := by
    rw [List.filter_append]
    simp [hlt]
  rw [wire_filter (Nat.lt_succ_self j) hlt] at hw
  rw [hfilter, half_filter hlt] at hs
  have heq := decryptIn_eq hlt (h.inInv.relay_eq j (by omega))
  rw [← hw] at heq
  unfold Circuit.relayIn
  rw [heq]
  refine inv_put h (by omega) m.cell (Nat.le_of_lt hlt) hn hf hs ?_ (fun i hi hi' => ?_) ?_ rfl rfl
  · rw [update_self]
  · rw [update_of_ne hi, update_of_ne hi']
  · rw [if_pos hlt, update_of_ne (by omega), update_self]
    exact ⟨m.wire, hl⟩

theorem inv_recvIn (hn : 0 < n) (hl : c.inLink 0 = m :: rest)
    (hno : ∀ j < m.cell.hop, ¬ Matches (c.cpath j).pvtCrypto.bDigest (peeled c.cpath m.wire j)) :
    Inv n init (c.recvIn m rest) := by
  have hmem : m.cell ∈ c.inPut 0 := by
    rw [← h.inInv.first, hl]
    simp
  obtain ⟨-, hhop, hf⟩ := h.inInv.cells 0 hn _ hmem
  have hc := h.inInv.carriesFirst
  rw [hl] at hc
  obtain ⟨⟨hw, hs⟩, -⟩ := hc
  rw [hw] at hno
  obtain ⟨cpath', heq, hbwd, hframe⟩ := decryptOrigin_eq hhop hf h.hopsOpen h.inInv.origin_eq hno
  have hfwd : (fun j => (cpath' j).pvtCrypto.fwd) = fun j => (c.cpath j).pvtCrypto.fwd := funext fun j => (hframe j).2
  unfold Circuit.recvIn
  rw [hw, h.size, heq]
  refine ⟨rfl, rfl, fun j hj => ?_, ?_, ?_, h.outGood, ?_⟩
  · exact (hframe j).1.trans (h.hopsOpen j hj)
  · simp only [hfwd]
    exact h.outInv
  · simp only [List.map_append, List.map_cons, List.map_nil]
    exact h.inInv.take hl hbwd
  · intro r hr
    rcases List.mem_append.mp hr with hr | hr
    · exact h.inGood r hr
    · rw [List.mem_singleton.mp hr]
      refine ⟨rfl, rfl, ?_⟩
      rw [hs]
      exact hbwd _ hhop

end

theorem inv_step (hn : 0 < n) (h : Inv n init c) {a : Action} (hno : NoCollision c a) {c' : Circuit} (hstep : step c a = some c') :
    Inv n init c' := by
  unfold step at hstep
  rw [h.alive, if_neg (by simp)] at hstep
  cases a with
  | sendOut hop payload =>
    simp only at hstep
    split at hstep
    · rename_i hok
      rw [h.size] at hok
      cases hstep
      exact inv_sendOut h hok.1 hok.2
    · cases hstep
  | recvOut j =>
    simp only at hstep
    cases hl : c.outLink j with
    | nil => simp [hl] at hstep
    | cons m rest =>
      simp only [hl, h.size] at hstep
      split at hstep
      · rename_i hj
        cases hstep
        exact inv_recvOut h hj hl (hno m (by simp [hl]))
      · cases hstep
  | sendIn j payload =>
    simp only at hstep
    split at hstep
    · rename_i hok
      rw [h.size] at hok
      cases hstep
      exact inv_sendIn h hok.1 hok.2
    · cases hstep
  | relayIn j =>
    simp only at hstep
    cases hl : c.inLink (j + 1) with
    | nil => simp [hl] at hstep
    | cons m rest =>
      simp only [hl, h.size] at hstep
      split at hstep
      · rename_i hj
        cases hstep
        exact inv_relayIn h hj hl
      · cases hstep
  | recvIn =>
    simp only at hstep
    cases hl : c.inLink 0 with
    | nil => simp [hl] at hstep
    | cons m rest =>
      simp only [hl] at hstep
      cases hstep
      exact inv_recvIn h hn hl (hno m (by simp [hl]))

end

/-- The cells relay `k` sent to the origin. -/
def Circuit.sentBy (c : Circuit) (k : Nat) : List Cell := (c.inPut k).filter fun x => x.hop = k

/-- In every run without an accidental match the circuit stays open, each relay has recognized exactly the cells for
it, and the origin has recognized each cell as one of the relay that sent it. What is not taken yet is on the way. -/
theorem cells_reach_their_hops {n : Nat} (hn : 1 ≤ n) (init : Nat → RelayCrypto) {acts : List Action} {c : Circuit}
    (hrun : run step (start n init) acts = some c) (hno : AllSteps step NoCollision (start n init) acts) :
    c.markedForClose = false ∧
    (∀ j < n, (∀ r ∈ c.outLog j, GoodOut j r) ∧
      ((c.outLog j).map Report.cell <+: c.outSent.filter fun x => j ≤ x.hop) ∧
      ((∀ i ≤ j, c.outLink i = []) → (c.outLog j).map Report.cell = c.outSent.filter fun x => j ≤ x.hop)) ∧
    (∀ r ∈ c.inLog, GoodIn r) ∧
    ∀ k < n, ((c.inLog.map Report.cell).filter (fun x => x.hop = k) <+: c.sentBy k) ∧
      ((∀ i ≤ k, c.inLink i = []) → (c.inLog.map Report.cell).filter (fun x => x.hop = k) = c.sentBy k) := by
  have h := run_inv_steps (fun s a t hs ha ht => inv_step hn hs ha ht) (inv_start n init) hno hrun
  have hfilter : ∀ (cells : List Cell) (k : Nat),
      (cells.filter fun x => k ≤ x.hop).filter (fun x => x.hop = k) = cells.filter fun x => x.hop = k := by
    intro cells k
    rw [List.filter_filter]
    congr 1
    funext x
    by_cases hx : x.hop = k
    · simp [hx]
    · simp [hx]
  refine ⟨h.alive, fun j hj => ⟨h.outGood j hj, ?_, fun hempty => ?_⟩, h.inGood, fun k hk => ⟨?_, fun hempty => ?_⟩⟩
  · exact (List.prefix_append _ _).trans (h.outInv.seen_prefix hj)
  · exact h.outInv.seen_eq hj hempty
  · rw [← hfilter]
    exact (h.inInv.received_prefix hk).filter _
  · rw [← hfilter, h.inInv.received_eq hk hempty]
    rfl

/-- Two hops with digests of their own. -/
def twoHops (j : Nat) : RelayCrypto :=
  let cipher : CryptoCipher := ⟨fun _ => 0, 0⟩
  let digest : CryptoDigest := ⟨fun _ => if j = 0 then #v[1, 1, 1, 1] else #v[2, 2, 2, 2], []⟩
  ⟨cipher, cipher, digest, digest⟩

/-- A cell with nothing in it. -/
def blank : Payload := Vector.replicate CELL_PAYLOAD_SIZE 0

theorem fresh_blank : Fresh blank := by
  constructor
  · simp only [relayHeaderUnpack, blank, Vector.getElem_replicate]
    decide
  · simp only [relayHeaderUnpack, blank, Vector.getElem_replicate]

theorem cryptPayload_zero {cipher : CryptoCipher} (h : ∀ i, cipher.stream i = 0) (payload : Payload) :
    cryptPayload cipher payload = payload := by
  apply Vector.ext
  intro i hi
  unfold cryptPayload
  simp [h]

theorem recvOut_outLink (c : Circuit) (j : Nat) (m : Msg) (rest : List Msg) : (c.recvOut j m rest).outLink j = rest := by
  unfold Circuit.recvOut
  simp only
  split
  · exact update_self _ _ _
  · split
    · simp
    · exact update_self _ _ _

/-- The cell for the second relay does not look like one for the first. -/
theorem twoHops_not_matches {cell : Cell} (h : cell.hop = 1) :
    ¬ Matches (twoHops 0).fDigest (cryptPayload (twoHops 0).fCrypto (wire (fun j => (twoHops j).fwd) [] cell 0)) := by
  have hcipher : (twoHops 0).fCrypto = (half (fun j => (twoHops j).fwd) [] 0).1 := by
    rw [half_nil]
    rfl
  have hzero : ∀ i, (half (fun j => (twoHops j).fwd) [] 1).1.stream i = 0 := fun i => rfl
  rw [hcipher, crypt_wire, inner_lt (by omega), wire_eq, inner_self h, cryptPayload_zero hzero, half_nil]
  rintro ⟨-, hmatch⟩
  rw [unpack_tag] at hmatch
  exact absurd hmatch (by simp [twoHops, RelayCrypto.fwd])

/-- A cell for the second relay goes through the first one, and one for the first relay
    behind it. -/
theorem two_cells_reach_their_hops :
    ∃ c, run step (start 2 twoHops) [.sendOut 1 blank, .sendOut 0 blank, .recvOut 0, .recvOut 0] = some c ∧
      c.markedForClose = false ∧ (c.outLog 0).map Report.cell = c.outSent ∧ ∀ r ∈ c.outLog 0, GoodOut 0 r := by
  have hsend : ∀ {c : Circuit} (_ : Inv 2 twoHops c) {hop : Nat} (_ : hop < 2),
      step c (.sendOut hop blank) = some (c.sendOut hop blank) := by
    intro c h hop hhop
    simp [step, h.alive, h.size, hhop, fresh_blank]
  have hrecv : ∀ {c : Circuit} (_ : Inv 2 twoHops c) {m : Msg} {rest : List Msg} (_ : c.outLink 0 = m :: rest),
      step c (.recvOut 0) = some (c.recvOut 0 m rest) := by
    intro c h m rest hl
    simp [step, h.alive, h.size, hl]
  have h0 := inv_start 2 twoHops
  have h1 := inv_sendOut h0 (show 1 < 2 by decide) fresh_blank
  have h2 := inv_sendOut h1 (show 0 < 2 by decide) fresh_blank
  obtain ⟨m, m', hl, hm, hm'⟩ : ∃ m m', ((((start 2 twoHops).sendOut 1 blank).sendOut 0 blank).outLink 0 = [m, m']) ∧
      m.cell.hop = 1 ∧ m'.cell.hop = 0 := ⟨_, _, rfl, rfl, rfl⟩
  have hw := (h2.outInv.carries 0 (by decide))
  rw [hl] at hw
  have hno : ¬ Matches (twoHops 0).fDigest (cryptPayload (twoHops 0).fCrypto m.wire) := by
    rw [hw.1.1]
    exact twoHops_not_matches hm
  have h3 := inv_recvOut h2 (show 0 < 2 by decide) hl fun _ => hno
  have hl' := recvOut_outLink (((start 2 twoHops).sendOut 1 blank).sendOut 0 blank) 0 m [m']
  have hrun : run step (start 2 twoHops) [.sendOut 1 blank, .sendOut 0 blank, .recvOut 0, .recvOut 0] =
      some (((((start 2 twoHops).sendOut 1 blank).sendOut 0 blank).recvOut 0 m [m']).recvOut 0 m' []) := by
    simp only [run_cons, run_nil, hsend h0 (show 1 < 2 by decide), hsend h1 (show 0 < 2 by decide), hrecv h2 hl,
      hrecv h3 hl', Option.bind_some]
  have hall : AllSteps step NoCollision (start 2 twoHops) [.sendOut 1 blank, .sendOut 0 blank, .recvOut 0, .recvOut 0] := by
    rw [allSteps_cons (hsend h0 (by decide)), allSteps_cons (hsend h1 (by decide)), allSteps_cons (hrecv h2 hl),
      allSteps_cons (hrecv h3 hl')]
    refine ⟨trivial, trivial, ?_, ?_, allSteps_nil⟩
    · intro x hx _
      rw [hl] at hx
      cases hx
      exact hno
    · intro x hx hne
      rw [hl'] at hx
      cases hx
      exact absurd hm' hne
  obtain ⟨halive, hout, -, -⟩ := cells_reach_their_hops (by decide) twoHops hrun hall
  obtain ⟨hgood, -, heq⟩ := hout 0 (by decide)
  refine ⟨_, hrun, halive, ?_, hgood⟩
  rw [heq, List.filter_eq_self.mpr (by simp)]
  intro i hi
  rw [Nat.le_zero.mp hi]
  exact recvOut_outLink _ _ _ _

end Badnet.Relay

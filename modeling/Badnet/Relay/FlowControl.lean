/-
  Badnet.Relay.FlowControl — circuit-level flow control between two ends loses nothing.

  Every hundredth DATA cell is marked (`marks`). An end answers exactly the marked cells it received, and expects
  exactly the answers to the marked cells it sent that it did not get yet (`EndInv`). So windows, DATA cells and SENDMEs
  on the way add up to 1000 in every state of every run, the list of digests is what the SENDMEs on the way and the next
  ones have in them, and no SENDME is refused (`flow_control`).
-/

import Mathlib.Data.List.Infix
import Badnet.Relay.Sendme

namespace Badnet.Relay.Sendme

open Lib Function

/-! ## Marked cells -/

def dataCount (cells : List Cell) : Nat := cells.countP Cell.isData

def Cell.sendmePayload : Cell → Option (List UInt8)
  | .sendme payload => some payload
  | _ => none

def sendmes (cells : List Cell) : List (List UInt8) := cells.filterMap Cell.sendmePayload

variable (digest : List Cell → Digest) (cells : List Cell)

/-- The digests up to every hundredth DATA cell. -/
def marks : List Digest :=
  (cells.inits.filter fun pre => pre.getLast?.any Cell.isData ∧ dataCount pre % 100 = 0).map digest

theorem dataCount_snoc (cell : Cell) :
    dataCount (cells ++ [cell]) = dataCount cells + if cell.isData then 1 else 0 := by
  rw [dataCount, List.countP_append, List.countP_singleton]
  rfl

theorem sendmes_append (xs ys : List Cell) : sendmes (xs ++ ys) = sendmes xs ++ sendmes ys := List.filterMap_append

theorem marks_snoc (cell : Cell) :
    marks digest (cells ++ [cell]) =
      marks digest cells ++
        if cell.isData ∧ (dataCount cells + 1) % 100 = 0 then [digest (cells ++ [cell])] else [] := by
  have hinits : (cells ++ [cell]).inits = cells.inits ++ [cells ++ [cell]] := by
    simp [List.inits_append]
  unfold marks
  rw [hinits, List.filter_append, List.map_append, List.append_cancel_left_eq]
  cases hd : cell.isData with
  | true =>
    have hcount : dataCount (cells ++ [cell]) = dataCount cells + 1 := by simp [dataCount_snoc, hd]
    by_cases hm : (dataCount cells + 1) % 100 = 0
    · rw [List.filter_cons_of_pos (by simp [hcount, hm, hd]), if_pos ⟨rfl, hm⟩]
      rfl
    · rw [List.filter_cons_of_neg (by simp [hcount, hm]), if_neg fun h => hm h.2]
      rfl
  | false =>
    rw [List.filter_cons_of_neg (by simp [hd]), if_neg (by simp)]
    rfl

theorem marks_initial (xs ys : List Cell) : marks digest xs <+: marks digest (xs ++ ys) := by
  induction ys using List.reverseRecOn with
  | nil => rw [List.append_nil]
  | append_singleton ys y ih =>
    rw [← List.append_assoc, marks_snoc]
    exact ih.trans (List.prefix_append _ _)

theorem length_marks : (marks digest cells).length = dataCount cells / 100 := by
  induction cells using List.reverseRecOn with
  | nil => rfl
  | append_singleton cells cell ih =>
    rw [marks_snoc, List.length_append, ih, dataCount_snoc]
    cases cell.isData with
    | true =>
      by_cases hm : (dataCount cells + 1) % 100 = 0
      · simp only [hm, and_self, if_true, List.length_singleton]
        omega
      · simp only [hm, and_false, if_false, List.length_nil, if_true]
        omega
    | false => simp

/-! ## One end -/

structure EndInv (p : Params) (s : Side) (e : Endpoint) : Prop where
  package : e.packageWindow = 1000 - dataCount e.sent + 100 * (sendmes e.received).length
  deliver : e.deliverWindow = 1000 - dataCount e.received + 100 * (sendmes e.sent).length
  nonneg : 0 ≤ e.packageWindow
  answers : sendmes e.sent = (marks (p.digest s.peer) e.received).map buildCellPayloadV1
  pending : e.sendmeLastDigests = (marks (p.digest s) e.sent).drop (sendmes e.received).length

/-- Before a cell that ends a hundred. -/
theorem isNext_iff {window : Int} {n k : Nat} (hw : window = 1000 - n + 100 * k) (h0 : 0 < window) :
    circuitSendmeCellIsNext window = true ↔ (n + 1) % 100 = 0 := by
  unfold circuitSendmeCellIsNext CIRCWINDOW_START CIRCWINDOW_INCREMENT
  rw [Int.tmod_eq_emod_of_nonneg (by omega)]
  by_cases h : window = 1000
  · simp [h]
    omega
  · rw [if_neg h, decide_eq_true_eq]
    omega

namespace EndInv

variable {p : Params} {s : Side} {e : Endpoint}

theorem start (p : Params) (s : Side) : EndInv p s (Sendme.start.ends s) where
  package := rfl
  deliver := rfl
  nonneg := by
    show (0 : Int) ≤ 1000
    decide
  answers := rfl
  pending := rfl

theorem sendmes_length (h : EndInv p s e) : (sendmes e.sent).length = dataCount e.received / 100 := by
  rw [h.answers, List.length_map, length_marks]

/-- The deliver window tells how many DATA cells there were since the last answer. -/
theorem deliver_eq (h : EndInv p s e) : e.deliverWindow = 1000 - (dataCount e.received % 100 : Nat) := by
  rw [h.deliver, h.sendmes_length]
  omega

/-- Sending a cell that is no DATA cell and no SENDME. -/
theorem sendOther (h : EndInv p s e) (payload : List UInt8) : EndInv p s (relaySendCommandFromEdge p s e (.other payload)) := by
  rw [relaySend_eq]
  have hs : sendmes (e.sent ++ [.other payload]) = sendmes e.sent := by simp [sendmes, Cell.sendmePayload]
  have hm : marks (p.digest s) (e.sent ++ [.other payload]) = marks (p.digest s) e.sent := by simp [marks_snoc, Cell.isData]
  have hd : dataCount (e.sent ++ [.other payload]) = dataCount e.sent := by simp [dataCount_snoc, Cell.isData]
  refine ⟨?_, ?_, h.nonneg, ?_, ?_⟩
  · rw [hd]
    exact h.package
  · rw [hs]
    exact h.deliver
  · rw [hs]
    exact h.answers
  · rw [hm]
    simpa [Cell.isData] using h.pending

/-- Packaging a DATA cell: the mark and the note are made at the same cells. -/
theorem sendData (h : EndInv p s e) (hpos : 0 < e.packageWindow)
    (hgot : (sendmes e.received).length ≤ (marks (p.digest s) e.sent).length) (payload : List UInt8) :
    EndInv p s
      { relaySendCommandFromEdge p s e (.data payload) with
        packageWindow := (relaySendCommandFromEdge p s e (.data payload)).packageWindow - 1 } := by
  rw [relaySend_eq]
  have hs : sendmes (e.sent ++ [.data payload]) = sendmes e.sent := by simp [sendmes, Cell.sendmePayload]
  have hd : dataCount (e.sent ++ [.data payload]) = dataCount e.sent + 1 := by simp [dataCount_snoc, Cell.isData]
  have hp := h.package
  refine ⟨?_, ?_, ?_, ?_, ?_⟩
  · show e.packageWindow - 1 = 1000 - dataCount (e.sent ++ [.data payload]) + 100 * (sendmes e.received).length
    rw [hd]
    omega
  · rw [hs]
    exact h.deliver
  · show 0 ≤ e.packageWindow - 1
    omega
  · rw [hs]
    exact h.answers
  · rw [marks_snoc, List.drop_append_of_le_length hgot, ← h.pending]
    simp only [Cell.isData, true_and, isNext_iff hp hpos]

/-- Taking a cell in that is no DATA cell and no SENDME. -/
theorem receiveOther (h : EndInv p s e) (payload : List UInt8) :
    EndInv p s (sendmeRecordReceivedCellDigest p s { e with received := e.received ++ [.other payload] }) := by
  have hs : sendmes (e.received ++ [.other payload]) = sendmes e.received := by simp [sendmes, Cell.sendmePayload]
  have hm : marks (p.digest s.peer) (e.received ++ [.other payload]) = marks (p.digest s.peer) e.received := by
    simp [marks_snoc, Cell.isData]
  have hd : dataCount (e.received ++ [.other payload]) = dataCount e.received := by simp [dataCount_snoc, Cell.isData]
  have hinv : EndInv p s { e with received := e.received ++ [.other payload] } := by
    refine ⟨?_, ?_, h.nonneg, ?_, ?_⟩
    · rw [hs]
      exact h.package
    · rw [hd]
      exact h.deliver
    · rw [hm]
      exact h.answers
    · rw [hs]
      exact h.pending
  unfold sendmeRecordReceivedCellDigest
  split
  · exact ⟨hinv.package, hinv.deliver, hinv.nonneg, hinv.answers, hinv.pending⟩
  · exact hinv

end EndInv

/-- Only the place for the digest changes. -/
theorem recordReceived_eq (p : Params) (s : Side) (e : Endpoint) :
    ∃ d, sendmeRecordReceivedCellDigest p s e = { e with sendmeDigest := d } := by
  unfold sendmeRecordReceivedCellDigest
  split
  · exact ⟨_, rfl⟩
  · exact ⟨e.sendmeDigest, rfl⟩

/-! ## Considering a SENDME -/

theorem consider_none {p : Params} {s : Side} {e : Endpoint} (h : 900 < e.deliverWindow) :
    sendmeCircuitConsiderSending p s e = (e, [], false) := by
  unfold sendmeCircuitConsiderSending
  rw [considerSending, if_neg]
  unfold CIRCWINDOW_START CIRCWINDOW_INCREMENT
  omega

/-- One SENDME opens the window again, so there is no second one. -/
theorem consider_one {p : Params} {s : Side} {e : Endpoint} (h : e.deliverWindow ≤ 900) (h' : 800 < e.deliverWindow) :
    sendmeCircuitConsiderSending p s e =
      (relaySendCommandFromEdge p s { e with deliverWindow := e.deliverWindow + 100 } (sendmeCell p e.sendmeDigest),
        [sendmeCell p e.sendmeDigest], false) := by
  have hstop : ¬ (relaySendCommandFromEdge p s { e with deliverWindow := e.deliverWindow + 100 }
      (sendmeCell p e.sendmeDigest)).deliverWindow ≤ CIRCWINDOW_START - CIRCWINDOW_INCREMENT := by
    rw [relaySend_eq]
    unfold CIRCWINDOW_START CIRCWINDOW_INCREMENT
    simp only
    omega
  unfold sendmeCircuitConsiderSending
  rw [considerSending, if_pos (by unfold CIRCWINDOW_START CIRCWINDOW_INCREMENT; omega)]
  simp only
  rw [show CIRCWINDOW_INCREMENT = 100 from rfl, considerSending, if_neg hstop]
  rfl

namespace EndInv

variable {p : Params} {s : Side} {e : Endpoint}

/-- The end after a DATA cell, before it considers a SENDME. -/
def afterData (p : Params) (s : Side) (e : Endpoint) (payload : List UInt8) : Endpoint :=
  let e := sendmeRecordReceivedCellDigest p s { e with received := e.received ++ [.data payload] }
  { e with deliverWindow := e.deliverWindow - 1 }

theorem afterData_eq (p : Params) (s : Side) (e : Endpoint) (payload : List UInt8) :
    afterData p s e payload =
      { e with
        received := e.received ++ [.data payload]
        sendmeDigest := if circuitSendmeCellIsNext e.deliverWindow then p.digest s.peer (e.received ++ [.data payload])
          else e.sendmeDigest
        deliverWindow := e.deliverWindow - 1 } := by
  unfold afterData sendmeRecordReceivedCellDigest
  by_cases hn : circuitSendmeCellIsNext e.deliverWindow = true
  · simp [hn]
  · simp [hn]

/-- A DATA cell is answered exactly if it is marked, with the digest up to it. -/
theorem receiveData (h : EndInv p s e) (hv : p.emitMinVersion = 1) (payload : List UInt8) :
    0 ≤ (afterData p s e payload).deliverWindow ∧
      ∃ e' cells, sendmeCircuitConsiderSending p s (afterData p s e payload) = (e', cells, false) ∧ EndInv p s e' ∧
        e'.sent = e.sent ++ cells ∧ e'.received = e.received ++ [.data payload] ∧ cells.length ≤ 1 := by
  have hdw := h.deliver_eq
  have hlen := h.sendmes_length
  have hpos : 0 < e.deliverWindow := by omega
  have hs : sendmes (e.received ++ [.data payload]) = sendmes e.received := by simp [sendmes, Cell.sendmePayload]
  have hd : dataCount (e.received ++ [.data payload]) = dataCount e.received + 1 := by simp [dataCount_snoc, Cell.isData]
  have hnext := isNext_iff h.deliver hpos
  rw [afterData_eq]
  refine ⟨by simp only; omega, ?_⟩
  by_cases hm : (dataCount e.received + 1) % 100 = 0
  · -- the window is at 901 before the cell and at 1000 after the SENDME
    have hslot := hnext.mpr hm
    rw [consider_one (by simp only; omega) (by simp only; omega)]
    refine ⟨_, _, rfl, ?_, ?_, ?_, Nat.le_refl _⟩
    · simp only [relaySend_eq, if_pos hslot, sendmeCell, if_pos hv]
      have hs' : ∀ x, sendmes (e.sent ++ [.sendme x]) = sendmes e.sent ++ [x] := by
        intro x
        simp [sendmes, Cell.sendmePayload]
      have hd' : ∀ x, dataCount (e.sent ++ [.sendme x]) = dataCount e.sent := by
        intro x
        simp [dataCount_snoc, Cell.isData]
      refine ⟨?_, ?_, h.nonneg, ?_, ?_⟩
      · simp only [hs, hd']
        exact h.package
      · simp only [hs', hd, List.length_append, List.length_singleton]
        omega
      · simp only [hs', marks_snoc, Cell.isData, hm, and_self, if_true, List.map_append, h.answers]
        rfl
      · simp only [hs, marks_snoc, Cell.isData, Bool.false_eq_true, false_and, if_false, List.append_nil]
        exact h.pending
    · rw [relaySend_eq]
    · rw [relaySend_eq]
  · have hslot : ¬ circuitSendmeCellIsNext e.deliverWindow = true := fun hn => hm (hnext.mp hn)
    rw [consider_none (by simp only; omega)]
    refine ⟨_, _, rfl, ?_, (List.append_nil _).symm, rfl, Nat.zero_le _⟩
    refine ⟨?_, ?_, h.nonneg, ?_, ?_⟩
    · simp only [hs]
      exact h.package
    · have := h.deliver
      simp only [hd]
      omega
    · simp only [marks_snoc, hm, and_false, if_false, List.append_nil]
      exact h.answers
    · simp only [hs]
      exact h.pending

theorem sendmeIsValid_build (hv : p.acceptMinVersion ≤ 1) {d : Digest} {rest : List Digest}
    (hnext : e.sendmeLastDigests = d :: rest) :
    sendmeIsValid p e (buildCellPayloadV1 d) = some { e with sendmeLastDigests := rest } := by
  have hversion : cellVersionCanBeHandled p 1 = true := by
    unfold cellVersionCanBeHandled SENDME_MAX_SUPPORTED_VERSION
    simp only [decide_eq_true_eq]
    omega
  unfold sendmeIsValid
  rw [if_neg (by simp [buildCellPayloadV1]), sendmeCellParse_build]
  simp [hversion, hnext]

/-- A SENDME with the digest that is expected next. -/
theorem receiveSendme (h : EndInv p s e) (hv : p.acceptMinVersion ≤ 1) {d : Digest} {rest : List Digest}
    (hnext : e.sendmeLastDigests = d :: rest) (hroom : e.packageWindow + 100 ≤ 1000) :
    ∃ e', sendmeProcessCircuitLevel p
        (sendmeRecordReceivedCellDigest p s { e with received := e.received ++ [.sendme (buildCellPayloadV1 d)] })
        (buildCellPayloadV1 d) = some e' ∧ EndInv p s e' ∧ e'.sent = e.sent ∧
      e'.received = e.received ++ [.sendme (buildCellPayloadV1 d)] := by
  obtain ⟨slot, hslot⟩ := recordReceived_eq p s { e with received := e.received ++ [.sendme (buildCellPayloadV1 d)] }
  have hs : sendmes (e.received ++ [.sendme (buildCellPayloadV1 d)]) = sendmes e.received ++ [buildCellPayloadV1 d] := by
    simp [sendmes, Cell.sendmePayload]
  have hd : dataCount (e.received ++ [.sendme (buildCellPayloadV1 d)]) = dataCount e.received := by
    simp [dataCount_snoc, Cell.isData]
  rw [hslot]
  unfold sendmeProcessCircuitLevel
  rw [sendmeIsValid_build hv (by exact hnext)]
  simp only
  rw [if_neg (by unfold CIRCWINDOW_INCREMENT CIRCWINDOW_START_MAX; omega)]
  refine ⟨_, rfl, ⟨?_, ?_, ?_, ?_, ?_⟩, rfl, rfl⟩
  · have := h.package
    simp only [hs, List.length_append, List.length_singleton, show CIRCWINDOW_INCREMENT = 100 from rfl]
    omega
  · simp only [hd]
    exact h.deliver
  · have := h.nonneg
    simp only [show CIRCWINDOW_INCREMENT = 100 from rfl]
    omega
  · simp only [marks_snoc, Cell.isData, Bool.false_eq_true, false_and, if_false, List.append_nil]
    exact h.answers
  · have hpending := h.pending
    rw [hnext] at hpending
    simp only [hs, List.length_append, List.length_singleton]
    rw [← List.drop_drop, ← hpending]
    rfl

end EndInv

/-! ## Both ends -/

structure Inv (p : Params) (c : Circuit) : Prop where
  alive : c.closed = false
  sound : c.bug = false
  ends : ∀ s, EndInv p s (c.ends s)
  fifo : ∀ s : Side, (c.ends s.peer).received ++ c.link s.peer = (c.ends s).sent

@[simp] theorem peer_peer (s : Side) : s.peer.peer = s := by
  cases s <;> rfl

theorem inv_start (p : Params) : Inv p start where
  alive := rfl
  sound := rfl
  ends s := EndInv.start p s
  fifo _ := rfl

section

variable {p : Params} {c : Circuit}

/-- The answers an end got are the first ones to the marked cells it sent. -/
theorem answers_initial (h : Inv p c) (s : Side) :
    sendmes (c.ends s).received ++ sendmes (c.link s) <+:
      (marks (p.digest s) (c.ends s).sent).map buildCellPayloadV1 := by
  have hback := h.fifo s.peer
  have hans := (h.ends s.peer).answers
  rw [peer_peer] at hback hans
  rw [← sendmes_append, hback, hans, ← h.fifo s]
  exact (marks_initial _ _ _).map _

theorem got_le (h : Inv p c) (s : Side) :
    (sendmes (c.ends s).received).length ≤ (marks (p.digest s) (c.ends s).sent).length := by
  have hle := (answers_initial h s).length_le
  rw [List.length_append, List.length_map] at hle
  omega

variable {s : Side} {rest cells : List Cell} {e : Endpoint}

section

variable (h : Inv p c)
include h

/-- A SENDME on the way has the digest that is expected next, and there is room for it. -/
theorem next_sendme {payload : List UInt8} (hl : c.link s = .sendme payload :: rest) :
    ∃ d ds, (c.ends s).sendmeLastDigests = d :: ds ∧ payload = buildCellPayloadV1 d ∧
      (c.ends s).packageWindow + 100 ≤ 1000 := by
  have hpre := answers_initial h s
  have hlink : sendmes (c.link s) = payload :: sendmes rest := by
    rw [hl]
    rfl
  rw [hlink] at hpre
  obtain ⟨more, hmore⟩ := hpre
  have hdrop := congrArg (List.drop (sendmes (c.ends s).received).length) hmore
  rw [List.append_assoc, List.drop_left, ← List.map_drop, ← (h.ends s).pending] at hdrop
  have hlen := congrArg List.length hmore
  simp only [List.length_append, List.length_cons, List.length_map, length_marks] at hlen
  have hpackage := (h.ends s).package
  cases hd : (c.ends s).sendmeLastDigests with
  | nil =>
    rw [hd] at hdrop
    cases hdrop
  | cons d ds =>
    rw [hd] at hdrop
    exact ⟨d, ds, rfl, (List.cons.inj hdrop).1, by omega⟩

/-- The digests expected: of the SENDMEs on the way, then of the marked cells on the way. -/
theorem pending_eq (s : Side) :
    (c.ends s).sendmeLastDigests.map buildCellPayloadV1 =
      sendmes (c.link s) ++
        ((marks (p.digest s) ((c.ends s.peer).received ++ c.link s.peer)).drop
          (marks (p.digest s) (c.ends s.peer).received).length).map buildCellPayloadV1 := by
  have hback := h.fifo s.peer
  have hanswers := (h.ends s.peer).answers
  rw [peer_peer] at hback hanswers
  rw [← hback, sendmes_append] at hanswers
  have hlen := congrArg List.length hanswers
  rw [List.length_append, List.length_map] at hlen
  obtain ⟨more, hmore⟩ := marks_initial (p.digest s) (c.ends s.peer).received (c.link s.peer)
  rw [(h.ends s).pending, ← h.fifo s, ← hmore, List.drop_left, List.drop_append_of_le_length (by omega), List.map_append,
    List.map_drop, ← hanswers, List.drop_left]

/-- As many digests as there are SENDMEs for a full window. -/
theorem pending_le (s : Side) : (c.ends s).sendmeLastDigests.length ≤ 10 := by
  have hpackage := (h.ends s).package
  have hnonneg := (h.ends s).nonneg
  rw [(h.ends s).pending, List.length_drop, length_marks]
  omega

/-- An end took cells from its link and sent others. -/
theorem fifo_emit {taken : List Cell} (hl : c.link s = taken ++ rest) (hr : e.received = (c.ends s).received ++ taken)
    (hs : e.sent = (c.ends s).sent ++ cells) (x : Side) :
    (({ c with link := update c.link s rest }.emit s e cells).ends x.peer).received ++
        ({ c with link := update c.link s rest }.emit s e cells).link x.peer =
      (({ c with link := update c.link s rest }.emit s e cells).ends x).sent := by
  have hfifo := h.fifo
  have h1 := hfifo .client
  have h2 := hfifo .exit
  cases s <;> cases x <;> simp_all [Circuit.emit, Side.peer, update, ← List.append_assoc]

theorem inv_emit (taken rest : List Cell) (hl : c.link s = taken ++ rest)
    (hr : e.received = (c.ends s).received ++ taken) (hs : e.sent = (c.ends s).sent ++ cells) (he : EndInv p s e) :
    Inv p ({ c with link := update c.link s rest }.emit s e cells) where
  alive := h.alive
  sound := h.sound
  ends x := by
    by_cases hx : x = s
    · subst hx
      show EndInv p x (update c.ends x e x)
      rw [update_self]
      exact he
    · show EndInv p x (update c.ends s e x)
      rw [update_of_ne hx]
      exact h.ends x
  fifo := fifo_emit h hl hr hs

theorem inv_send (hr : e.received = (c.ends s).received) (hs : e.sent = (c.ends s).sent ++ cells) (he : EndInv p s e) :
    Inv p (c.emit s e cells) := by
  have hinv := inv_emit h [] (c.link s) rfl (by rw [hr, List.append_nil]) hs he
  rw [update_eq_self] at hinv
  exact hinv

theorem inv_package (hpos : 0 < (c.ends s).packageWindow) (payload : List UInt8) : Inv p (c.package p s payload) := by
  have he := (h.ends s).sendData hpos (got_le h s) payload
  unfold Circuit.package
  simp only
  rw [if_neg (Int.not_lt.mpr he.nonneg)]
  apply inv_send h _ _ he
  · simp only [relaySend_eq]
  · simp only [relaySend_eq]

theorem inv_sendOther (s : Side) (payload : List UInt8) : Inv p (c.sendOther p s payload) := by
  apply inv_send h _ _ ((h.ends s).sendOther payload)
  · rw [relaySend_eq]
  · rw [relaySend_eq]

/-- Between cells there is nothing to answer. -/
theorem consider_eq (s : Side) : sendmeCircuitConsiderSending p s (c.ends s) = (c.ends s, [], false) := by
  apply consider_none
  have := (h.ends s).deliver_eq
  omega

theorem inv_consider (s : Side) : Inv p (c.consider p s (c.ends s)) := by
  have hinv : Inv p (c.emit s (c.ends s) []) := inv_send h rfl (List.append_nil _).symm (h.ends s)
  unfold Circuit.consider
  rw [consider_eq h]
  exact ⟨hinv.alive, by simpa using hinv.sound, hinv.ends, hinv.fifo⟩

end

theorem inv_deliver (hemit : p.emitMinVersion = 1) (haccept : p.acceptMinVersion ≤ 1) (h : Inv p c) {cell : Cell}
    (hl : c.link s = cell :: rest) : Inv p (c.deliver p s cell rest) := by
  cases cell with
  | data payload =>
    obtain ⟨hnonneg, e', cells, hcons, he, hsent, hrecv, -⟩ := (h.ends s).receiveData hemit payload
    have hinv := inv_emit h [.data payload] rest hl hrecv hsent he
    show Inv p (if (EndInv.afterData p s (c.ends s) payload).deliverWindow < 0 then _
      else Circuit.consider p { c with link := update c.link s rest } s (EndInv.afterData p s (c.ends s) payload))
    rw [if_neg (Int.not_lt.mpr hnonneg)]
    unfold Circuit.consider
    rw [hcons]
    exact ⟨hinv.alive, by simpa using hinv.sound, hinv.ends, hinv.fifo⟩
  | sendme payload =>
    obtain ⟨d, ds, hd, rfl, hroom⟩ := next_sendme h hl
    obtain ⟨e', hproc, he, hsent, hrecv⟩ := (h.ends s).receiveSendme haccept hd hroom
    have hinv := inv_emit h [.sendme (buildCellPayloadV1 d)] rest hl hrecv (hsent.trans (List.append_nil _).symm) he
    obtain ⟨slot, hslot⟩ := recordReceived_eq p s
      { c.ends s with received := (c.ends s).received ++ [.sendme (buildCellPayloadV1 d)] }
    unfold Circuit.deliver
    simp only [hproc]
    refine ⟨hinv.alive, ?_, hinv.ends, hinv.fifo⟩
    simp only [hslot, h.sound, Bool.false_or, decide_eq_false_iff_not, not_not]
    exact pending_le h s
  | other payload =>
    obtain ⟨slot, hslot⟩ := recordReceived_eq p s { c.ends s with received := (c.ends s).received ++ [.other payload] }
    have he := (h.ends s).receiveOther payload
    apply inv_emit h [.other payload] rest hl _ _ he
    · rw [hslot]
    · rw [hslot]
      exact (List.append_nil _).symm

theorem inv_step (hemit : p.emitMinVersion = 1) (haccept : p.acceptMinVersion ≤ 1) (h : Inv p c) {a : Action} {c' : Circuit}
    (hstep : step p c a = some c') : Inv p c' := by
  unfold step at hstep
  rw [h.alive, if_neg (by simp)] at hstep
  cases a with
  | package s payload =>
    simp only at hstep
    split at hstep
    · cases hstep
    · rename_i hpos
      cases hstep
      exact inv_package h (by omega) payload
  | sendOther s payload =>
    cases hstep
    exact inv_sendOther h s payload
  | deliver s =>
    simp only at hstep
    cases hl : c.link s with
    | nil => simp [hl] at hstep
    | cons cell rest =>
      simp only [hl] at hstep
      cases hstep
      exact inv_deliver hemit haccept h hl
  | consider s =>
    cases hstep
    exact inv_consider h s

end

/-- In every state of every run, for the data of each end: windows, cells and SENDMEs on the way add up; the windows
are in their bounds; the digests expected are those on the way; nothing was refused and no assertion failed. -/
theorem flow_control {p : Params} (hemit : p.emitMinVersion = 1) (haccept : p.acceptMinVersion ≤ 1) {acts : List Action}
    {c : Circuit} (hrun : run (step p) start acts = some c) :
    c.closed = false ∧ c.bug = false ∧ ∀ s : Side,
      (c.ends s).packageWindow + dataCount (c.link s.peer) + (CIRCWINDOW_START - (c.ends s.peer).deliverWindow) +
          CIRCWINDOW_INCREMENT * (sendmes (c.link s)).length = CIRCWINDOW_START ∧
      (0 ≤ (c.ends s).packageWindow ∧ (c.ends s).packageWindow ≤ 1000) ∧
      (900 < (c.ends s.peer).deliverWindow ∧ (c.ends s.peer).deliverWindow ≤ 1000) ∧
      (∀ payload, (sendmeCircuitConsiderSending p s.peer
        (EndInv.afterData p s.peer (c.ends s.peer) payload)).2.1.length ≤ 1) ∧
      (c.ends s).sendmeLastDigests.map buildCellPayloadV1 =
        sendmes (c.link s) ++
          ((marks (p.digest s) ((c.ends s.peer).received ++ c.link s.peer)).drop
            (marks (p.digest s) (c.ends s.peer).received).length).map buildCellPayloadV1 := by
  have h : Inv p c := run_inv_hist (I := fun _ c => Inv p c) (inv_start p)
    (fun _ t a u _ ht hu => inv_step hemit haccept ht hu) hrun
  refine ⟨h.alive, h.sound, fun s => ?_⟩
  have hpackage := (h.ends s).package
  have hdeliver := (h.ends s.peer).deliver
  have hwindow := (h.ends s.peer).deliver_eq
  have hnonneg := (h.ends s).nonneg
  have hback := h.fifo s.peer
  have hanswers := (h.ends s.peer).answers
  rw [peer_peer] at hback hanswers
  have hdata : dataCount (c.ends s).sent = dataCount (c.ends s.peer).received + dataCount (c.link s.peer) := by
    rw [← h.fifo s]
    exact List.countP_append
  have hsendmes : sendmes (c.ends s.peer).sent = sendmes (c.ends s).received ++ sendmes (c.link s) := by
    rw [← hback, sendmes_append]
  have hcount := congrArg List.length hsendmes
  rw [List.length_append] at hcount
  unfold CIRCWINDOW_START CIRCWINDOW_INCREMENT
  refine ⟨by omega, ⟨hnonneg, by omega⟩, ⟨by omega, by omega⟩, fun payload => ?_, ?_⟩
  · obtain ⟨-, e', cells, hcons, -, -, -, hlen⟩ := (h.ends s.peer).receiveData hemit payload
    rw [hcons]
    exact hlen
  · exact pending_eq h s

/-- Version 1, and a digest that tells how many cells there were. -/
def countingParams : Params := ⟨1, 0, fun _ cells => Vector.replicate 20 (UInt8.ofNat cells.length)⟩

/-- A DATA cell from the client and another cell from the exit, which is delivered first. -/
theorem flow_control_two_cells :
    ∃ c, run (step countingParams) start
        [.package .client [], .sendOther .exit [7], .deliver .client, .deliver .exit] = some c ∧
      c.closed = false ∧
      (c.ends .client).packageWindow + dataCount (c.link .exit) + (CIRCWINDOW_START - (c.ends .exit).deliverWindow) +
        CIRCWINDOW_INCREMENT * (sendmes (c.link .client)).length = CIRCWINDOW_START := by
  obtain ⟨c, hrun⟩ : ∃ c, run (step countingParams) start
      [.package .client [], .sendOther .exit [7], .deliver .client, .deliver .exit] = some c := ⟨_, rfl⟩
  obtain ⟨hopen, -, hends⟩ := flow_control rfl (by decide) hrun
  exact ⟨c, hrun, hopen, (hends .client).1⟩

end Badnet.Relay.Sendme

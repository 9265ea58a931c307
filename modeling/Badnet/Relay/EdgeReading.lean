/-
  Badnet.Relay.EdgeReading — packaging what exit streams have read (`core/or/relay.c`).

  `connection_edge_package_raw_inbuf` turns the bytes on the inbuf of a stream into DATA cells, as far as the windows
  allow. Each cell goes on the queue of the circuit, which may close the circuit: when the queue is too long, or when
  memory is short. What the memory and the random numbers are like is open (`Env`). One call is `packageLoop_spec`.
-/

import Mathlib.Logic.Function.Basic

namespace Badnet.Relay.Edge

def CELL_QUEUE_HIGHWATER_SIZE : Int := 256

def RELAY_PAYLOAD_SIZE : Nat := 509 - (1 + 2 + 2 + 4 + 2)

def CELL_PADDING_GAP : Nat := 4

def RELAY_PAYLOAD_LENGTH_FOR_RANDOM_SENDMES : Nat := RELAY_PAYLOAD_SIZE - CELL_PADDING_GAP - 16

def CIRCWINDOW_INCREMENT : Nat := 100

/-- `RELAY_CIRC_CELL_QUEUE_SIZE_MIN`, which is `CIRCWINDOW_START_MAX`. -/
def RELAY_CIRC_CELL_QUEUE_SIZE_MIN : Nat := 1000

/-! ## The circuit at the exit -/

/-- An exit stream on the circuit. -/
structure EdgeConn where
  markedForClose : Bool
  packageWindow : Int
  inbufLen : Nat

/-- The circuit and its `n` streams in the order of the list. -/
structure Circ (n : Nat) where
  packageWindow : Int
  /-- `p_chan_cells.n`. -/
  pChanCells : Nat
  markedForClose : Bool
  sendRandomnessAfterNCells : Nat
  haveSentSufficientlyRandomCell : Bool
  streams : Fin n → EdgeConn

/-- The random numbers, and whether queuing a cell closes the circuit for a shortage of memory. The limit of the
queue comes from the consensus, which cannot set it below its minimum. -/
structure Env (n : Nat) where
  oneInN : Nat → Bool
  rng : Circ n → Fin (CIRCWINDOW_INCREMENT / 2)
  oom : Circ n → Bool
  maxCircuitCellQueueSize : Nat
  atLeast : RELAY_CIRC_CELL_QUEUE_SIZE_MIN ≤ maxCircuitCellQueueSize

variable {n : Nat}

def Circ.setConn (c : Circ n) (i : Fin n) (conn : EdgeConn) : Circ n :=
  { c with streams := Function.update c.streams i conn }

/-! ## One cell -/

variable (env : Env n) (c : Circ n)

def circuitResetSendmeRandomness : Circ n :=
  { c with haveSentSufficientlyRandomCell := false,
           sendRandomnessAfterNCells := CIRCWINDOW_INCREMENT / 2 + env.rng c }

/-- How many bytes go into the next cell. -/
def connectionEdgeGetInbufBytesToPackage (nAvailable : Nat) (packagePartial : Bool) (c : Circ n) : Nat × Circ n :=
  let forceRandomBytes := c.sendRandomnessAfterNCells = 0 ∧ c.haveSentSufficientlyRandomCell = false
  let targetLength := if forceRandomBytes then RELAY_PAYLOAD_LENGTH_FOR_RANDOM_SENDMES else RELAY_PAYLOAD_SIZE
  if nAvailable = 0 then (0, c)
  else if nAvailable < targetLength ∧ packagePartial = false then (0, c)
  else
    let packageLength := min nAvailable targetLength
    let c := if packageLength ≤ RELAY_PAYLOAD_LENGTH_FOR_RANDOM_SENDMES
      then { c with haveSentSufficientlyRandomCell := true } else c
    let c := if c.sendRandomnessAfterNCells = 0 then circuitResetSendmeRandomness env c else c
    (packageLength, { c with sendRandomnessAfterNCells := c.sendRandomnessAfterNCells - 1 })

/-- What `circuits_handle_oom` does to a circuit it closes. -/
def Circ.killForMemory : Circ n :=
  { c with markedForClose := true, pChanCells := 0, streams := fun i => { c.streams i with inbufLen := 0 } }

def appendCellToCircuitQueue : Circ n :=
  if c.markedForClose then c
  else if c.pChanCells ≥ env.maxCircuitCellQueueSize then { c with markedForClose := true }
  else
    let c := { c with pChanCells := c.pChanCells + 1 }
    if env.oom c then c.killForMemory else c

/-- `connection_edge_send_command` with a DATA cell, for a stream that is not marked. None is -1. -/
def sendData : Option (Circ n) :=
  if c.markedForClose then none else some (appendCellToCircuitQueue env c)

/-- Whether the window of the circuit is used up. -/
def circuitConsiderStopEdgeReading : Bool := c.packageWindow ≤ 0

/-! ## The cells of one stream -/

/-- From `repeat_connection_edge_package_raw_inbuf` on, with the number of cells that may still be packaged: the
number that is left, and whether the stream may stay. -/
def packageLoop (env : Env n) (i : Fin n) (packagePartial : Bool) : Nat → Circ n → Circ n × Nat × Bool
  | 0, c => (c, 0, true)
  | m + 1, c =>
    if circuitConsiderStopEdgeReading c then (c, m + 1, true)
    else if (c.streams i).packageWindow ≤ 0 then (c, m + 1, true)
    else
      let (length, c) := connectionEdgeGetInbufBytesToPackage env (c.streams i).inbufLen packagePartial c
      if length = 0 then (c, m + 1, true)
      else
        let conn := c.streams i
        let c := c.setConn i { conn with inbufLen := conn.inbufLen - length }
        match sendData env c with
        | none => (c, m + 1, true)
        | some c =>
          let c := { c with packageWindow := c.packageWindow - 1 }
          if c.packageWindow < 0 then (c, m + 1, false)
          else
            let conn := c.streams i
            let c := c.setConn i { conn with packageWindow := conn.packageWindow - 1 }
            if (c.streams i).packageWindow < 0 then (c, m + 1, true)
            else packageLoop env i packagePartial m c

variable (i : Fin n)

def connectionEdgePackageRawInbuf (packagePartial : Bool) (maxCells : Int) (c : Circ n) : Circ n × Int × Bool :=
  if (c.streams i).markedForClose then (c, maxCells, true)
  else if maxCells ≤ 0 then (c, maxCells, true)
  else
    let (c, left, ok) := packageLoop env i packagePartial maxCells.toNat c
    (c, left, ok)

/-! ## What a cell changes -/

/-- A window goes down, not below 0, and stays if it was below. -/
def Lowered (w w' : Int) : Prop := w' ≤ w ∧ (0 ≤ w → 0 ≤ w') ∧ (w < 0 → w' = w)

theorem Lowered.refl (w : Int) : Lowered w w := ⟨Int.le_refl w, id, fun _ => rfl⟩

theorem Lowered.trans {a b c : Int} (h : Lowered a b) (h' : Lowered b c) : Lowered a c := by
  unfold Lowered at *
  omega

structure ConnLater (conn conn' : EdgeConn) : Prop where
  marked : conn'.markedForClose = conn.markedForClose
  window : Lowered conn.packageWindow conn'.packageWindow
  inbuf : conn'.inbufLen ≤ conn.inbufLen

/-- What packaging can do to a circuit and its streams. -/
structure Later (c c' : Circ n) : Prop where
  window : Lowered c.packageWindow c'.packageWindow
  opened : c'.markedForClose = false → c.markedForClose = false
  streams : ∀ i, ConnLater (c.streams i) (c'.streams i)

theorem ConnLater.refl (conn : EdgeConn) : ConnLater conn conn := ⟨rfl, Lowered.refl _, Nat.le_refl _⟩

theorem ConnLater.trans {a b c : EdgeConn} (h : ConnLater a b) (h' : ConnLater b c) : ConnLater a c :=
  ⟨h'.marked.trans h.marked, h.window.trans h'.window, Nat.le_trans h'.inbuf h.inbuf⟩

theorem Later.refl (c : Circ n) : Later c c := ⟨Lowered.refl _, id, fun _ => ConnLater.refl _⟩

theorem Later.trans {a b c : Circ n} (h : Later a b) (h' : Later b c) : Later a c :=
  ⟨h.window.trans h'.window, fun hm => h.opened (h'.opened hm), fun i => (h.streams i).trans (h'.streams i)⟩

/-- A stream that has something to package and may. -/
def Active : Prop :=
  (c.streams i).markedForClose = false ∧ 0 < (c.streams i).packageWindow ∧ 0 < (c.streams i).inbufLen

instance (c : Circ n) (i : Fin n) : Decidable (Active c i) := inferInstanceAs (Decidable (_ ∧ _))

theorem Later.active {c c' : Circ n} (h : Later c c') {i : Fin n} (ha : Active c' i) : Active c i := by
  obtain ⟨hm, hw, hb⟩ := ha
  obtain ⟨hm', hw', hb'⟩ := h.streams i
  have hle := hw'.1
  exact ⟨hm' ▸ hm, by omega, by omega⟩

/-- While the circuit is open, its queue has grown by the cells packaged. It is closed once its inbufs are freed or more
cells than the queue holds were packaged. -/
structure QueueInv (queued : Nat) (window : Int) (c : Circ n) : Prop where
  opened : c.markedForClose = false → (c.pChanCells : Int) = queued + (window - c.packageWindow)
  closed : c.markedForClose = true →
    (∀ i, (c.streams i).inbufLen = 0) ∨ (RELAY_CIRC_CELL_QUEUE_SIZE_MIN : Int) ≤ queued + (window - c.packageWindow)

/-- Nothing but the randomness of the padding is another. -/
structure Same (c c' : Circ n) : Prop where
  window : c'.packageWindow = c.packageWindow
  queue : c'.pChanCells = c.pChanCells
  marked : c'.markedForClose = c.markedForClose
  streams : c'.streams = c.streams

theorem Same.trans {a b c : Circ n} (h : Same a b) (h' : Same b c) : Same a c :=
  ⟨h'.window.trans h.window, h'.queue.trans h.queue, h'.marked.trans h.marked, h'.streams.trans h.streams⟩

theorem same_ite {p : Prop} [Decidable p] {c c' c'' : Circ n} (h : Same c c') (h' : Same c c'') :
    Same c (if p then c' else c'') := by
  by_cases hp : p
  · rw [if_pos hp]
    exact h
  · rw [if_neg hp]
    exact h'

theorem Same.later {c c' : Circ n} (h : Same c c') : Later c c' :=
  ⟨h.window ▸ Lowered.refl _, fun hm => h.marked ▸ hm, fun _ => h.streams ▸ ConnLater.refl _⟩

theorem Same.queueInv {c c' : Circ n} (h : Same c c') {queued : Nat} {window : Int} (hq : QueueInv queued window c) :
    QueueInv queued window c' := by
  refine ⟨fun hm => ?_, fun hm => ?_⟩
  · rw [h.queue, h.window]
    exact hq.opened (h.marked ▸ hm)
  · rw [h.streams, h.window]
    exact hq.closed (h.marked ▸ hm)

theorem bytesToPackage_spec (nAvailable : Nat) (c : Circ n) :
    Same c (connectionEdgeGetInbufBytesToPackage env nAvailable true c).2 ∧
      (connectionEdgeGetInbufBytesToPackage env nAvailable true c).1 ≤ nAvailable ∧
      ((connectionEdgeGetInbufBytesToPackage env nAvailable true c).1 = 0 → nAvailable = 0) := by
  have hpos : ∀ p : Prop, [Decidable p] →
      0 < (if p then RELAY_PAYLOAD_LENGTH_FOR_RANDOM_SENDMES else RELAY_PAYLOAD_SIZE) := by
    intro p _
    by_cases hp : p
    · rw [if_pos hp]
      decide
    · rw [if_neg hp]
      decide
  unfold connectionEdgeGetInbufBytesToPackage
  by_cases hzero : nAvailable = 0
  · rw [if_pos hzero]
    exact ⟨⟨rfl, rfl, rfl, rfl⟩, Nat.zero_le _, fun _ => hzero⟩
  rw [if_neg hzero, if_neg (by simp)]
  have hp := hpos (c.sendRandomnessAfterNCells = 0 ∧ c.haveSentSufficientlyRandomCell = false)
  refine ⟨?_, Nat.min_le_left _ _, fun h => ?_⟩
  · have hfirst := @same_ite n (min nAvailable (if c.sendRandomnessAfterNCells = 0 ∧
        c.haveSentSufficientlyRandomCell = false then RELAY_PAYLOAD_LENGTH_FOR_RANDOM_SENDMES else RELAY_PAYLOAD_SIZE) ≤
      RELAY_PAYLOAD_LENGTH_FOR_RANDOM_SENDMES) _ c { c with haveSentSufficientlyRandomCell := true } c
      ⟨rfl, rfl, rfl, rfl⟩ ⟨rfl, rfl, rfl, rfl⟩
    refine hfirst.trans (Same.trans (same_ite ?_ ?_) ⟨rfl, rfl, rfl, rfl⟩)
    · exact ⟨rfl, rfl, rfl, rfl⟩
    · exact ⟨rfl, rfl, rfl, rfl⟩
  · dsimp only at h
    omega

theorem sendData_spec {env : Env n} {c c' : Circ n} (h : sendData env c = some c') :
    c.markedForClose = false ∧ c'.packageWindow = c.packageWindow ∧
      (∀ i, (c'.streams i).markedForClose = (c.streams i).markedForClose ∧
        (c'.streams i).packageWindow = (c.streams i).packageWindow ∧ (c'.streams i).inbufLen ≤ (c.streams i).inbufLen) ∧
      (c'.markedForClose = false → c'.pChanCells = c.pChanCells + 1) ∧
      (c'.markedForClose = true →
        (∀ i, (c'.streams i).inbufLen = 0) ∨ RELAY_CIRC_CELL_QUEUE_SIZE_MIN ≤ c.pChanCells) := by
  rw [sendData] at h
  cases hm : c.markedForClose with
  | true =>
    rw [hm] at h
    cases h
  | false =>
    simp only [hm, Bool.false_eq_true, if_false, Option.some.injEq] at h
    subst h
    simp only [appendCellToCircuitQueue, hm, Bool.false_eq_true, if_false]
    by_cases hfull : c.pChanCells ≥ env.maxCircuitCellQueueSize
    · rw [if_pos hfull]
      exact ⟨trivial, rfl, fun i => ⟨rfl, rfl, Nat.le_refl _⟩, nofun,
        fun _ => .inr (Nat.le_trans env.atLeast hfull)⟩
    rw [if_neg hfull]
    split
    · exact ⟨trivial, rfl, fun i => ⟨rfl, rfl, Nat.zero_le _⟩, nofun, fun _ => .inl fun i => rfl⟩
    · exact ⟨trivial, rfl, fun i => ⟨rfl, rfl, Nat.le_refl _⟩, fun _ => rfl, nofun⟩

/-- One cell is packaged from the stream `i`. -/
structure PackagesOne (i : Fin n) (c c' : Circ n) : Prop where
  later : Later c c'
  queueInv : ∀ {queued : Nat} {window : Int}, QueueInv queued window c → QueueInv queued window c'
  window : c'.packageWindow = c.packageWindow - 1
  circ : 0 < c.packageWindow
  stream : 0 < (c.streams i).packageWindow
  inbuf : 0 < (c.streams i).inbufLen

/-- Bytes were taken from an inbuf, and nothing else is another. -/
structure Taken (c c' : Circ n) : Prop where
  later : Later c c'
  windows : ∀ j, (c'.streams j).packageWindow = (c.streams j).packageWindow
  window : c'.packageWindow = c.packageWindow
  queue : c'.pChanCells = c.pChanCells
  marked : c'.markedForClose = c.markedForClose

theorem Same.taken {c c' : Circ n} (h : Same c c') (i : Fin n) (length : Nat) :
    Taken c (c'.setConn i { c'.streams i with inbufLen := (c'.streams i).inbufLen - length }) := by
  refine ⟨⟨h.window ▸ Lowered.refl _, fun hm => h.marked ▸ hm, fun j => ?_⟩, fun j => ?_, h.window, h.queue, h.marked⟩
  all_goals by_cases hj : j = i
  · rw [hj]
    simp only [Circ.setConn, Function.update_self, h.streams]
    exact ⟨rfl, Lowered.refl _, Nat.sub_le _ _⟩
  · simp only [Circ.setConn, Function.update_of_ne hj, h.streams]
    exact ConnLater.refl _
  · rw [hj]
    simp only [Circ.setConn, Function.update_self, h.streams]
  · simp only [Circ.setConn, Function.update_of_ne hj, h.streams]

theorem Taken.queueInv {c c' : Circ n} (h : Taken c c') {queued : Nat} {window : Int} (hq : QueueInv queued window c) :
    QueueInv queued window c' := by
  refine ⟨fun hm => ?_, fun hm => ?_⟩
  · rw [h.queue, h.window]
    exact hq.opened (h.marked ▸ hm)
  · rw [h.window]
    refine (hq.closed (h.marked ▸ hm)).imp_left fun hempty j => ?_
    have hj := (h.later.streams j).inbuf
    rw [hempty j] at hj
    exact Nat.le_zero.mp hj

/-- A DATA cell for the bytes taken from the stream `i`, which both windows pay for. -/
theorem Taken.packagesOne {env : Env n} {i : Fin n} {c c1 c2 : Circ n} (h : Taken c c1) (hsend : sendData env c1 = some c2)
    (hcirc : 0 < c.packageWindow) (hstream : 0 < (c.streams i).packageWindow) (hinbuf : 0 < (c.streams i).inbufLen) :
    PackagesOne i c (Circ.setConn { c2 with packageWindow := c2.packageWindow - 1 } i
      { c2.streams i with packageWindow := (c2.streams i).packageWindow - 1 }) := by
  obtain ⟨hopen, hw2, hstreams, hqueue, hclosed⟩ := sendData_spec hsend
  have hw1 := h.window
  have hq1 := h.queue
  generalize hc4 : Circ.setConn { c2 with packageWindow := c2.packageWindow - 1 } i
    { c2.streams i with packageWindow := (c2.streams i).packageWindow - 1 } = c4
  have hi4 : c4.streams i = { c2.streams i with packageWindow := (c2.streams i).packageWindow - 1 } := by
    rw [← hc4]
    exact Function.update_self ..
  have hj4 : ∀ j, j ≠ i → c4.streams j = c2.streams j := by
    intro j hj
    rw [← hc4]
    exact Function.update_of_ne hj ..
  have hw4 : c4.packageWindow = c2.packageWindow - 1 := by rw [← hc4]; rfl
  have hq4 : c4.pChanCells = c2.pChanCells := by rw [← hc4]; rfl
  have hm4 : c4.markedForClose = c2.markedForClose := by rw [← hc4]; rfl
  have hbuf4 : ∀ j, (c4.streams j).inbufLen = (c2.streams j).inbufLen := by
    intro j
    by_cases hj : j = i
    · rw [hj, hi4]
    · rw [hj4 j hj]
  refine ⟨⟨?_, fun _ => h.marked ▸ hopen, fun j => ?_⟩, fun {queued window} hq => ?_, by omega, hcirc, hstream, hinbuf⟩
  · unfold Lowered
    omega
  · refine (h.later.streams j).trans ⟨?_, ?_, by rw [hbuf4]; exact (hstreams j).2.2⟩
    all_goals by_cases hj : j = i
    · rw [hj, hi4]
      exact (hstreams i).1
    · rw [hj4 j hj]
      exact (hstreams j).1
    · have hi2 := (hstreams i).2.1
      rw [hj, hi4, h.windows i]
      rw [h.windows i] at hi2
      unfold Lowered
      dsimp only
      omega
    · rw [hj4 j hj, (hstreams j).2.1]
      exact Lowered.refl _
  · have hgrow := (h.queueInv hq).opened hopen
    refine ⟨fun hm => ?_, fun hm => ?_⟩
    · have hgrown := hqueue (hm4 ▸ hm)
      rw [hq4, hgrown]
      omega
    · refine (hclosed (hm4 ▸ hm)).imp (fun hempty j => by rw [hbuf4]; exact hempty j) fun hfull => ?_
      omega

/-- The body of the loop packages one cell, or the loop is over. -/
theorem packageLoop_succ (m : Nat) (c : Circ n) :
    (∃ c', PackagesOne i c c' ∧ packageLoop env i true (m + 1) c = packageLoop env i true m c') ∨
    ∃ c', packageLoop env i true (m + 1) c = (c', m + 1, true) ∧ Later c c' ∧
      (∀ {queued : Nat} {window : Int}, QueueInv queued window c → QueueInv queued window c') ∧
      c'.packageWindow = c.packageWindow ∧
      (c'.markedForClose = false →
        (c'.streams i).inbufLen = 0 ∨ (c'.streams i).packageWindow ≤ 0 ∨ c'.packageWindow ≤ 0) := by
  rw [packageLoop]
  by_cases hstop : circuitConsiderStopEdgeReading c = true
  · rw [if_pos hstop]
    exact .inr ⟨c, rfl, Later.refl c, id, rfl, fun _ => .inr (.inr (of_decide_eq_true hstop))⟩
  rw [if_neg hstop]
  by_cases hwin : (c.streams i).packageWindow ≤ 0
  · rw [if_pos hwin]
    exact .inr ⟨c, rfl, Later.refl c, id, rfl, fun _ => .inr (.inl hwin)⟩
  rw [if_neg hwin]
  obtain ⟨hsame, hle, hzero⟩ := bytesToPackage_spec env (c.streams i).inbufLen c
  generalize connectionEdgeGetInbufBytesToPackage env (c.streams i).inbufLen true c = r at hsame hle hzero ⊢
  obtain ⟨length, c0⟩ := r
  dsimp only at hsame hle hzero ⊢
  by_cases hlen : length = 0
  · rw [if_pos hlen]
    exact .inr ⟨c0, rfl, hsame.later, hsame.queueInv, hsame.window, fun _ => .inl (hsame.streams ▸ hzero hlen)⟩
  rw [if_neg hlen]
  have hpos : 0 < c.packageWindow := Int.not_le.mp fun h => hstop (decide_eq_true h)
  have htaken := hsame.taken i length
  generalize c0.setConn i { c0.streams i with inbufLen := (c0.streams i).inbufLen - length } = c1 at htaken ⊢
  cases hsend : sendData env c1 with
  | none =>
    refine .inr ⟨c1, rfl, htaken.later, htaken.queueInv, htaken.window, fun hm => ?_⟩
    rw [sendData, hm] at hsend
    cases hsend
  | some c2 =>
    obtain ⟨-, hw2, hstreams, -, -⟩ := sendData_spec hsend
    have hw1 := htaken.window
    have hi2 := (hstreams i).2.1.trans (htaken.windows i)
    refine .inl ⟨_, htaken.packagesOne hsend hpos (Int.not_le.mp hwin) (Nat.pos_of_ne_zero fun h => hlen (by omega)), ?_⟩
    dsimp only
    rw [if_neg (by omega), if_neg (by simp only [Circ.setConn, Function.update_self]; omega)]

/-- A call packages at most so many cells, each from the stream `i`; it only stops early when nothing is left or a
window is used up, unless the circuit was closed. -/
structure Packages (i : Fin n) (c c' : Circ n) (max left : Int) : Prop where
  later : Later c c'
  queueInv : ∀ {queued : Nat} {window : Int}, QueueInv queued window c → QueueInv queued window c'
  atMost : left ≤ max
  window : c'.packageWindow = c.packageWindow - (max - left)
  active : left < max → 0 < (c.streams i).packageWindow ∧ 0 < (c.streams i).inbufLen
  stops : c'.markedForClose = false → left ≤ 0 ∨ (c'.streams i).inbufLen = 0 ∨ (c'.streams i).packageWindow ≤ 0 ∨
    c'.packageWindow ≤ 0

theorem packageLoop_spec (m : Nat) (c : Circ n) :
    ∃ (c' : Circ n) (left : Nat), packageLoop env i true m c = (c', left, true) ∧ Packages i c c' m left := by
  induction m generalizing c with
  | zero => exact ⟨c, 0, rfl, Later.refl c, id, Int.le_refl _, by omega, fun h => absurd h (Int.lt_irrefl _),
      fun _ => .inl (Int.le_refl _)⟩
  | succ m ih =>
    rcases packageLoop_succ env i m c with ⟨c1, hone, heq⟩ | ⟨c', heq, hlater, hinv, hwindow, hstops⟩
    · obtain ⟨c', left, hrest, hpack⟩ := ih c1
      have hle := hpack.atMost
      have hw := hpack.window
      have hw1 := hone.window
      exact ⟨c', left, heq.trans hrest, hone.later.trans hpack.later, fun hq => hpack.queueInv (hone.queueInv hq),
        by omega, by omega, fun _ => ⟨hone.stream, hone.inbuf⟩, hpack.stops⟩
    · exact ⟨c', m + 1, heq, hlater, hinv, Int.le_refl _, by omega, fun h => absurd h (Int.lt_irrefl _),
        fun hm => .inr (hstops hm)⟩

/-- A call for a stream that is not marked; with no cells to package it does nothing. -/
theorem packageRawInbuf_spec {i : Fin n} {c : Circ n} (hm : (c.streams i).markedForClose = false) (max : Int) :
    ∃ (c' : Circ n) (left : Int), connectionEdgePackageRawInbuf env i true max c = (c', left, true) ∧
      Packages i c c' max left ∧ (max ≤ 0 → left = max) ∧ (0 ≤ max → 0 ≤ left) := by
  rw [connectionEdgePackageRawInbuf, if_neg (by simp [hm])]
  by_cases hmax : max ≤ 0
  · rw [if_pos hmax]
    exact ⟨c, max, rfl, ⟨Later.refl c, id, Int.le_refl _, by omega, fun h => absurd h (Int.lt_irrefl _),
      fun _ => .inl hmax⟩, fun _ => rfl, id⟩
  · rw [if_neg hmax]
    obtain ⟨c', left, heq, hpack⟩ := packageLoop_spec env i max.toNat c
    rw [Int.toNat_of_nonneg (by omega)] at hpack
    refine ⟨c', left, ?_, hpack, fun h => absurd h hmax, fun _ => Int.natCast_nonneg _⟩
    rw [heq]

end Badnet.Relay.Edge

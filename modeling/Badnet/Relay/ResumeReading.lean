/-
  Badnet.Relay.ResumeReading — `circuit_resume_edge_reading_helper` at an exit (`core/or/relay.c`).

  The cells there is room for are divided among the streams that have something to package, in rounds; there are no more
  rounds than cells. No more than the room and a cell for each stream but one is packaged, no window goes below 0, and
  when less than the room is packaged and the circuit takes more, no stream that may package has anything left
  (`resume_reading_spec`).
-/

import Badnet.Relay.EdgeReading
import Mathlib.Data.List.FinRange

namespace Badnet.Relay.Edge

variable {n : Nat}

/-! ## The rounds -/

/-- `CEIL_DIV`; the division goes towards 0. -/
def ceilDiv (a b : Int) : Int := (a + (b - 1)).tdiv b

/-- The variables of a round. -/
structure Round (n : Nat) where
  circ : Circ n
  packagedThisRound : Int
  nStreamsLeft : Nat

/-- One pass over the streams. True is that the circuit takes no more. -/
def packageRound (env : Env n) (cellsPerConn : Int) : List (Fin n) → Round n → Bool × Round n
  | [], r => (false, r)
  | i :: rest, r =>
    if (r.circ.streams i).markedForClose ∨ (r.circ.streams i).packageWindow ≤ 0 then
      packageRound env cellsPerConn rest r
    else
      let (circ, left, ok) := connectionEdgePackageRawInbuf env i true cellsPerConn r.circ
      let packagedThisRound := r.packagedThisRound + (cellsPerConn - left)
      if ok = false then
        let circ := circ.setConn i { circ.streams i with markedForClose := true }
        packageRound env cellsPerConn rest { r with circ, packagedThisRound }
      else
        let nStreamsLeft := if (circ.streams i).inbufLen ≠ 0 then r.nStreamsLeft + 1 else r.nStreamsLeft
        if circuitConsiderStopEdgeReading circ then (true, { circ, packagedThisRound, nStreamsLeft })
        else packageRound env cellsPerConn rest { circ, packagedThisRound, nStreamsLeft }

variable (c : Circ n) (streams : List (Fin n))

/-- How many of some streams have something to package and may. -/
def activeIn : Nat := streams.countP fun i => decide (Active c i)

theorem Later.activeIn_le {c c' : Circ n} (h : Later c c') (streams : List (Fin n)) :
    activeIn c' streams ≤ activeIn c streams :=
  List.countP_mono_left fun _ _ hi => decide_eq_true (h.active (of_decide_eq_true hi))

theorem activeIn_append (xs ys : List (Fin n)) : activeIn c (xs ++ ys) = activeIn c xs + activeIn c ys :=
  List.countP_append

theorem activeIn_singleton (i : Fin n) : activeIn c [i] = if Active c i then 1 else 0 := by
  simp only [activeIn, List.countP_singleton, decide_eq_true_eq]

/-- What a pass over some streams does. -/
structure Pass (cellsPerConn : Int) (streams : List (Fin n)) (r : Round n) (stopped : Bool) (r' : Round n) : Prop where
  later : Later r.circ r'.circ
  queueInv : ∀ {queued : Nat} {window : Int}, QueueInv queued window r.circ → QueueInv queued window r'.circ
  packaged : r'.packagedThisRound = r.packagedThisRound + (r.circ.packageWindow - r'.circ.packageWindow)
  bound : r.circ.packageWindow - r'.circ.packageWindow ≤ cellsPerConn.toNat * activeIn r.circ streams
  leftAtMost : r'.nStreamsLeft ≤ r.nStreamsLeft + streams.length
  counted : stopped = false → r'.circ.markedForClose = false →
    r.nStreamsLeft + activeIn r'.circ streams ≤ r'.nStreamsLeft
  progress : stopped = false → r'.circ.markedForClose = false → 0 < cellsPerConn → 0 < r.circ.packageWindow →
    r'.circ.packageWindow = r.circ.packageWindow → ∀ i ∈ streams, ¬Active r'.circ i

theorem Pass.nil (cellsPerConn : Int) (r : Round n) : Pass cellsPerConn [] r false r :=
  ⟨Later.refl _, id, by omega, by simp [activeIn], Nat.le_refl _, fun _ _ => Nat.le_refl _,
    fun _ _ _ _ _ i hi => (by cases hi)⟩

/-- One pass after another. -/
theorem Pass.append {cellsPerConn : Int} {xs ys : List (Fin n)} {r r' r'' : Round n} {stopped : Bool}
    (h : Pass cellsPerConn xs r false r') (h' : Pass cellsPerConn ys r' stopped r'') :
    Pass cellsPerConn (xs ++ ys) r stopped r'' := by
  have hp := h.packaged
  have hp' := h'.packaged
  have hl := h.leftAtMost
  have hl' := h'.leftAtMost
  have hdown := h.later.window.1
  have hdown' := h'.later.window.1
  refine ⟨h.later.trans h'.later, fun hq => h'.queueInv (h.queueInv hq), by omega, ?_,
    by rw [List.length_append]; omega, fun hs hm => ?_, fun hs hm hcells hpos hsame i hi => ?_⟩
  · have hb := h.bound
    have hb' := h'.bound
    have hle : (cellsPerConn.toNat : Int) * activeIn r'.circ ys ≤ cellsPerConn.toNat * activeIn r.circ ys :=
      Int.mul_le_mul_of_nonneg_left (Int.ofNat_le.mpr (h.later.activeIn_le ys)) (Int.natCast_nonneg _)
    rw [activeIn_append, Int.natCast_add, Int.mul_add]
    omega
  · have hc := h.counted rfl (h'.later.opened hm)
    have hc' := h'.counted hs hm
    have hle := h'.later.activeIn_le xs
    rw [activeIn_append]
    omega
  · rcases List.mem_append.mp hi with hi | hi
    · exact fun ha => h.progress rfl (h'.later.opened hm) hcells hpos (by omega) i hi (h'.later.active ha)
    · exact h'.progress hs hm hcells (by omega) (by omega) i hi

/-- A pass that stops leaves the other streams out. -/
theorem Pass.stop {cellsPerConn : Int} {xs : List (Fin n)} {r r' : Round n} (h : Pass cellsPerConn xs r true r')
    (ys : List (Fin n)) : Pass cellsPerConn (xs ++ ys) r true r' := by
  have hl := h.leftAtMost
  refine ⟨h.later, h.queueInv, h.packaged, ?_, by rw [List.length_append]; omega, nofun,
    nofun⟩
  have hb := h.bound
  have hle : (0 : Int) ≤ cellsPerConn.toNat * activeIn r.circ ys :=
    Int.mul_nonneg (Int.natCast_nonneg _) (Int.natCast_nonneg _)
  rw [activeIn_append, Int.natCast_add, Int.mul_add]
  omega

/-- A stream that may not package is passed over. -/
theorem Pass.skip {i : Fin n} {r : Round n} (cellsPerConn : Int) (h : ¬Active r.circ i) :
    Pass cellsPerConn [i] r false r := by
  have hzero : activeIn r.circ [i] = 0 := by rw [activeIn_singleton, if_neg h]
  refine ⟨Later.refl _, id, by omega, by rw [hzero]; omega, by omega, fun _ _ => by omega, fun _ _ _ _ _ j hj => ?_⟩
  rw [List.mem_singleton.mp hj]
  exact h

/-- A stream packages what it may. -/
theorem Pass.visit {i : Fin n} {r : Round n} {cellsPerConn left : Int} {c : Circ n} (stopped : Bool)
    (hm : (r.circ.streams i).markedForClose = false) (h : Packages i r.circ c cellsPerConn left)
    (hneg : cellsPerConn ≤ 0 → left = cellsPerConn) (hpos : 0 ≤ cellsPerConn → 0 ≤ left) :
    Pass cellsPerConn [i] r stopped ⟨c, r.packagedThisRound + (cellsPerConn - left),
      if (c.streams i).inbufLen ≠ 0 then r.nStreamsLeft + 1 else r.nStreamsLeft⟩ := by
  have hw := h.window
  have hmost := h.atMost
  refine ⟨h.later, h.queueInv, ?_, ?_, ?_, fun _ _ => ?_, fun _ hopen hcells hwin hsame j hj => ?_⟩
  · dsimp only
    omega
  · dsimp only
    rw [activeIn_singleton]
    by_cases hlt : left < cellsPerConn
    · have hactive : Active r.circ i := ⟨hm, h.active hlt⟩
      rw [if_pos hactive]
      omega
    · by_cases ha : Active r.circ i
      · rw [if_pos ha]
        omega
      · rw [if_neg ha]
        omega
  · dsimp only
    by_cases hb : (c.streams i).inbufLen ≠ 0
    · rw [if_pos hb]
      rfl
    · rw [if_neg hb]
      exact Nat.le_add_right _ _
  · dsimp only
    rw [activeIn_singleton]
    by_cases ha : Active c i
    · have hb : (c.streams i).inbufLen ≠ 0 := Nat.ne_of_gt ha.2.2
      rw [if_pos ha, if_pos hb]
    · rw [if_neg ha]
      by_cases hb : (c.streams i).inbufLen ≠ 0
      · rw [if_pos hb]
        omega
      · rw [if_neg hb]
        omega
  · -- nothing was packaged, so the stream had nothing left
    dsimp only at hopen hsame
    rw [List.mem_singleton.mp hj]
    rintro ⟨-, hwindow, hinbuf⟩
    dsimp only at hwindow hinbuf
    have hstops := h.stops hopen
    omega

variable (env : Env n)

theorem packageRound_spec (cellsPerConn : Int) (streams : List (Fin n)) (r : Round n) :
    Pass cellsPerConn streams r (packageRound env cellsPerConn streams r).1
      (packageRound env cellsPerConn streams r).2 := by
  induction streams generalizing r with
  | nil => exact Pass.nil cellsPerConn r
  | cons i rest ih =>
    rw [packageRound, ← List.singleton_append]
    by_cases hskip : (r.circ.streams i).markedForClose = true ∨ (r.circ.streams i).packageWindow ≤ 0
    · rw [if_pos hskip]
      refine (Pass.skip cellsPerConn fun ha => ?_).append (ih r)
      rcases hskip with hmarked | hwindow
      · exact absurd (ha.1.symm.trans hmarked) (by simp)
      · exact absurd ha.2.1 (Int.not_lt.mpr hwindow)
    · rw [if_neg hskip]
      have hm : (r.circ.streams i).markedForClose = false :=
        Bool.eq_false_iff.mpr fun h => hskip (.inl h)
      obtain ⟨c, left, heq, hpack, hneg, hpos⟩ := packageRawInbuf_spec env hm cellsPerConn
      simp only [heq, Bool.true_eq_false, if_false]
      by_cases hstop : circuitConsiderStopEdgeReading c = true
      · rw [if_pos hstop]
        exact (Pass.visit true hm hpack hneg hpos).stop rest
      · rw [if_neg hstop]
        exact (Pass.visit false hm hpack hneg hpos).append (ih _)

/-! ## Round after round -/

theorem packagedThisRound_nonneg (cellsPerConn : Int) (streams : List (Fin n)) (c : Circ n) :
    0 ≤ (packageRound env cellsPerConn streams ⟨c, 0, 0⟩).2.packagedThisRound := by
  have h := packageRound_spec env cellsPerConn streams ⟨c, 0, 0⟩
  have hp := h.packaged
  have hw := h.later.window.1
  dsimp only at hp hw
  omega

/-- From `again` on. It ends: a round after which another follows has packaged some of the cells, and not all. -/
def again (env : Env n) (maxToPackage : Int) (nPackagingStreams : Nat) (c : Circ n) : Int × Circ n :=
  let cellsPerConn := ceilDiv maxToPackage nPackagingStreams
  let round := packageRound env cellsPerConn (List.finRange n) ⟨c, 0, 0⟩
  if round.1 then (-1, round.2.circ)
  else if round.2.packagedThisRound ≠ 0 ∧ round.2.packagedThisRound < maxToPackage ∧ round.2.nStreamsLeft ≠ 0 then
    again env (maxToPackage - round.2.packagedThisRound) round.2.nStreamsLeft round.2.circ
  else (0, round.2.circ)
termination_by maxToPackage.toNat
decreasing_by
  have hpos : 0 ≤ round.2.packagedThisRound := packagedThisRound_nonneg ..
  show (maxToPackage - round.2.packagedThisRound).toNat < maxToPackage.toNat
  omega

/-- The stream chosen to start from: each one replaces the one before with a chance of one in their number. -/
def chosenStream : Option Nat :=
  (List.range n).foldl (fun chosen k => if env.oneInN (k + 1) then some k else chosen) none

/-- Whether reading is started for a stream that has something on its inbuf. -/
def countPackaging : Nat :=
  streams.countP fun i =>
    !((c.streams i).markedForClose || (c.streams i).packageWindow ≤ 0) && (c.streams i).inbufLen > 0

def circuitResumeEdgeReadingHelper (c : Circ n) : Int × Circ n :=
  if n = 0 then (0, c)
  else
    let maxToPackage := min c.packageWindow (CELL_QUEUE_HIGHWATER_SIZE - c.pChanCells)
    let (fromChosen, skipped) :=
      match chosenStream env with
      | none => ([], List.finRange n)
      | some k => ((List.finRange n).drop k, (List.finRange n).take k)
    let nPackagingStreams := countPackaging c fromChosen + countPackaging c skipped
    if nPackagingStreams = 0 then (0, c) else again env maxToPackage nPackagingStreams c

/-! ## The result -/

theorem ceilDiv_nonpos {max : Int} (hmax : max ≤ 0) (p : Nat) : ceilDiv max p ≤ 0 := by
  rw [ceilDiv]
  by_cases hneg : 0 ≤ max + ((p : Int) - 1)
  · rw [Int.tdiv_eq_zero_of_lt hneg (by omega)]
  · have hminus : max + ((p : Int) - 1) = -(-(max + ((p : Int) - 1))) := by omega
    have hdiv : 0 ≤ (-(max + ((p : Int) - 1))).tdiv p := Int.tdiv_nonneg (by omega) (Int.natCast_nonneg p)
    rw [hminus, Int.neg_tdiv]
    omega

theorem ceilDiv_pos {max : Int} (hmax : 0 < max) {p : Nat} (hp : 0 < p) :
    0 < ceilDiv max p ∧ ceilDiv max p * p ≤ max + (p - 1) := by
  have hnonneg : 0 ≤ max + ((p : Int) - 1) := by omega
  have hp' : (0 : Int) < p := by omega
  rw [ceilDiv, Int.tdiv_eq_ediv_of_nonneg hnonneg]
  refine ⟨?_, Int.ediv_mul_le _ (by omega)⟩
  exact (Int.le_ediv_iff_mul_le hp').mpr (by omega)

/-- What the cells of one round come to: no more than is left and a cell for each stream but one, as the division rounds
up. -/
theorem round_bound {max : Int} {p active : Nat} (hp : 0 < p) (hactive : active ≤ p) :
    (ceilDiv max p).toNat * (active : Int) ≤ if 0 < max then max + (p - 1) else 0 := by
  by_cases hmax : 0 < max
  · obtain ⟨hpos, hle⟩ := ceilDiv_pos hmax hp
    rw [if_pos hmax, Int.toNat_of_nonneg (Int.le_of_lt hpos)]
    calc
      ceilDiv max p * active ≤ ceilDiv max p * p :=
        Int.mul_le_mul_of_nonneg_left (Int.ofNat_le.mpr hactive) (Int.le_of_lt hpos)
      _ ≤ max + (p - 1) := hle
  · rw [if_neg hmax, Int.toNat_of_nonpos (ceilDiv_nonpos (Int.not_lt.mp hmax) p)]
    omega

/-- Less than there is room for does not fill the queue: the circuit is open then, or its inbufs are freed. -/
theorem QueueInv.room {queued : Nat} {window : Int} {c : Circ n} (h : QueueInv queued window c)
    (hroom : queued + (window - c.packageWindow) < CELL_QUEUE_HIGHWATER_SIZE) :
    c.markedForClose = false ∨ ∀ i, ¬Active c i := by
  cases hm : c.markedForClose with
  | false => exact .inl rfl
  | true =>
    rcases h.closed hm with hempty | hfull
    · exact .inr fun i ha => absurd ha.2.2 (by rw [hempty i]; exact Nat.lt_irrefl 0)
    · have hmin : (RELAY_CIRC_CELL_QUEUE_SIZE_MIN : Int) = 1000 := rfl
      have hwater : CELL_QUEUE_HIGHWATER_SIZE = 256 := rfl
      omega

theorem activeIn_eq_zero {c : Circ n} (h : ∀ i, ¬Active c i) (streams : List (Fin n)) : activeIn c streams = 0 :=
  List.countP_eq_zero.mpr fun i _ ha => h i (of_decide_eq_true ha)

/-- What all rounds from one on do. -/
structure Resumes (max : Int) (c : Circ n) (ret : Int) (c' : Circ n) : Prop where
  later : Later c c'
  bound : c.packageWindow - c'.packageWindow ≤ if 0 < max then max + (n - 1) else 0
  conserving : ret = 0 → c.packageWindow - c'.packageWindow < max → ∀ i, ¬Active c' i

theorem again_spec {max : Int} {p : Nat} {c : Circ n} {queued : Nat} {window : Int} (hp : 0 < p) (hpn : p ≤ n)
    (hactive : activeIn c (List.finRange n) ≤ p) (hwindow : max ≤ c.packageWindow) (hq : QueueInv queued window c)
    (hroom : queued + (window - c.packageWindow) + max ≤ CELL_QUEUE_HIGHWATER_SIZE) :
    Resumes max c (again env max p c).1 (again env max p c).2 := by
  induction hm : max.toNat using Nat.strong_induction_on generalizing max p c with
  | _ m ih =>
    subst hm
    have hpass := packageRound_spec env (ceilDiv max p) (List.finRange n) ⟨c, 0, 0⟩
    rw [again]
    generalize packageRound env (ceilDiv max p) (List.finRange n) ⟨c, 0, 0⟩ = round at hpass ⊢
    obtain ⟨stopped, r⟩ := round
    have hpackaged := hpass.packaged
    have hdown := hpass.later.window.1
    have hbound := Int.le_trans hpass.bound (round_bound hp hactive)
    have hleft := hpass.leftAtMost
    have hq' := hpass.queueInv hq
    rw [List.length_finRange] at hleft
    dsimp only at hpackaged hdown hbound hleft hq' ⊢
    have hsum : c.packageWindow - r.circ.packageWindow ≤ if 0 < max then max + (n - 1) else 0 := by
      refine Int.le_trans hbound ?_
      by_cases hmax : 0 < max
      · rw [if_pos hmax, if_pos hmax]
        omega
      · rw [if_neg hmax, if_neg hmax]
    by_cases hstop : stopped = true
    · rw [if_pos hstop]
      exact ⟨hpass.later, hsum, nofun⟩
    rw [if_neg hstop]
    have hnot : stopped = false := Bool.eq_false_iff.mpr hstop
    -- the streams left are counted, as long as less than the room was packaged
    have hcount : r.packagedThisRound < max → activeIn r.circ (List.finRange n) ≤ r.nStreamsLeft := by
      intro hless
      rcases hq'.room (by omega) with hopen | hnone
      · have hcounted := hpass.counted hnot hopen
        dsimp only at hcounted
        omega
      · rw [activeIn_eq_zero hnone]
        exact Nat.zero_le _
    by_cases hmore : r.packagedThisRound ≠ 0 ∧ r.packagedThisRound < max ∧ r.nStreamsLeft ≠ 0
    · rw [if_pos hmore]
      obtain ⟨hne, hlt, hsome⟩ := hmore
      have hrest := @ih (max - r.packagedThisRound).toNat (by omega) (max - r.packagedThisRound) r.nStreamsLeft r.circ
        (by omega) (by omega) (hcount hlt) (by omega) hq' (by omega) rfl
      have hb := hrest.bound
      rw [if_pos (by omega)] at hb
      refine ⟨hpass.later.trans hrest.later, ?_, fun hret hless => hrest.conserving hret (by omega)⟩
      rw [if_pos (by omega)]
      omega
    · rw [if_neg hmore]
      refine ⟨hpass.later, hsum, fun _ hless i ha => ?_⟩
      dsimp only at hless ha
      have hmem := List.mem_finRange i
      have hpos : 0 < activeIn r.circ (List.finRange n) := List.countP_pos_iff.mpr ⟨i, hmem, decide_eq_true ha⟩
      have hleast := hcount (by omega)
      -- so the round packaged nothing
      have hnothing : r.packagedThisRound = 0 := by
        by_contra hne
        exact hmore ⟨hne, by omega, by omega⟩
      rcases hq'.room (by omega) with hopen | hnone
      · have hmax : 0 < max := by omega
        exact hpass.progress hnot hopen (ceilDiv_pos hmax hp).1 (by dsimp only; omega) (by dsimp only; omega) i hmem ha
      · exact hnone i ha

theorem countPackaging_eq : countPackaging c streams = activeIn c streams := by
  refine List.countP_congr fun i _ => ?_
  rw [decide_eq_true_iff]
  simp only [Active, Bool.and_eq_true, Bool.not_eq_true', Bool.or_eq_false_iff, decide_eq_false_iff_not,
    decide_eq_true_eq, Int.not_le, and_assoc, gt_iff_lt]

/-- The cells there is room for: what the window allows, and what fills the queue. -/
def room : Int := min c.packageWindow (CELL_QUEUE_HIGHWATER_SIZE - c.pChanCells)

theorem resume_eq (c : Circ n) (hn : 0 < n) :
    circuitResumeEdgeReadingHelper env c =
      if activeIn c (List.finRange n) = 0 then (0, c) else again env (room c) (activeIn c (List.finRange n)) c := by
  have hcount : ∀ k, countPackaging c ((List.finRange n).drop k) + countPackaging c ((List.finRange n).take k) =
      activeIn c (List.finRange n) := by
    intro k
    rw [countPackaging_eq, countPackaging_eq, Nat.add_comm, ← activeIn_append, List.take_append_drop]
  rw [circuitResumeEdgeReadingHelper, if_neg (by omega)]
  cases chosenStream env with
  | none =>
    have hall : countPackaging c [] + countPackaging c (List.finRange n) = activeIn c (List.finRange n) := by
      rw [countPackaging_eq, countPackaging_eq, ← activeIn_append, List.nil_append]
    dsimp only
    rw [hall]
    rfl
  | some k =>
    dsimp only
    rw [hcount]
    rfl

/-- Resuming to read packages at most as many cells as there is room for and one for each stream but one, and takes
no window below 0. When it packages less and the circuit still takes cells, no stream that may package has anything
left. -/
theorem resume_reading_spec (env : Env n) (c : Circ n) (hopen : c.markedForClose = false) (hn : 0 < n) :
    let r := circuitResumeEdgeReadingHelper env c
    c.packageWindow - r.2.packageWindow ≤ max 0 (room c) + n - 1 ∧
      Lowered c.packageWindow r.2.packageWindow ∧
      (∀ i, Lowered (c.streams i).packageWindow (r.2.streams i).packageWindow) ∧
      (r.1 = 0 → c.packageWindow - r.2.packageWindow < room c → ∀ i, (r.2.streams i).markedForClose = false →
        0 < (r.2.streams i).packageWindow → (r.2.streams i).inbufLen = 0) := by
  have hresumes : Resumes (room c) c (circuitResumeEdgeReadingHelper env c).1
      (circuitResumeEdgeReadingHelper env c).2 := by
    rw [resume_eq env c hn]
    by_cases hzero : activeIn c (List.finRange n) = 0
    · rw [if_pos hzero]
      refine ⟨Later.refl c, ?_, fun _ _ i ha => ?_⟩
      · dsimp only
        split
        · omega
        · omega
      · have hnone := List.countP_eq_zero.mp hzero i (List.mem_finRange i)
        exact hnone (decide_eq_true ha)
    · rw [if_neg hzero]
      have hle : activeIn c (List.finRange n) ≤ n := by
        have h := List.countP_le_length (p := fun i => decide (Active c i)) (l := List.finRange n)
        rwa [List.length_finRange] at h
      have hq : QueueInv c.pChanCells c.packageWindow c :=
        ⟨fun _ => by omega, fun hm => absurd (hopen.symm.trans hm) (by simp)⟩
      exact again_spec env (Nat.pos_of_ne_zero hzero) hle (Nat.le_refl _) (Int.min_le_left _ _) hq
        (by unfold room; omega)
  intro r
  have hbound := hresumes.bound
  refine ⟨?_, hresumes.later.window, fun i => (hresumes.later.streams i).window, fun hret hless i hm hw => ?_⟩
  · show c.packageWindow - (circuitResumeEdgeReadingHelper env c).2.packageWindow ≤ _
    by_cases hroom : 0 < room c
    · rw [if_pos hroom] at hbound
      omega
    · rw [if_neg hroom] at hbound
      omega
  · by_contra hne
    exact hresumes.conserving hret hless i ⟨hm, hw, Nat.pos_of_ne_zero hne⟩

/-- Two streams, the second with a window of 3, on a circuit with a queue of 253 cells. -/
theorem resume_reading_of_two_streams :
    let env : Env 2 := ⟨fun _ => true, fun _ => ⟨7, by decide⟩, fun _ => false, 50000, by decide⟩
    let c : Circ 2 := ⟨1000, 253, false, 60, false, fun i => ⟨false, if i.val = 0 then 500 else 3, 2000⟩⟩
    let r := circuitResumeEdgeReadingHelper env c
    c.packageWindow - r.2.packageWindow ≤ max 0 (room c) + (2 : Nat) - 1 ∧
      Lowered c.packageWindow r.2.packageWindow ∧
      (∀ i, Lowered (c.streams i).packageWindow (r.2.streams i).packageWindow) ∧
      (r.1 = 0 → c.packageWindow - r.2.packageWindow < room c → ∀ i, (r.2.streams i).markedForClose = false →
        0 < (r.2.streams i).packageWindow → (r.2.streams i).inbufLen = 0) := by
  intro env c
  exact resume_reading_spec env c rfl (by decide)

end Badnet.Relay.Edge

/-
  Badnet.Sched.KistRuns — no channel is lost by a run of the KIST scheduler.

  In the loop every channel that was pending is in the heap, in the loop's hand, set aside, closed or drained (`Status`,
  `RunInv`). A turn takes something off `load`, the cells and channels in the heap, so that a run ends
  (`kistLoop_spec`). Over any sequence of calls and runs a channel is in `channels_pending` exactly if its state says
  so, and a run leaves every channel that was pending closed and idle, drained and waiting for cells, or pending with
  its limit reached (`no_channel_lost`).
-/

import Badnet.Lib.Run
import Badnet.Sched.Kist
import Mathlib.Algebra.BigOperators.Group.List.Basic
import Mathlib.Algebra.Ring.Nat

namespace Badnet.Sched

open Container

variable {α : Type} [DecidableEq α]

/-! ## Limits -/

/-- With a limit below 2^63 the signed difference is the room that is left. -/
theorem kistLimitSpace_pos {ent : SocketEnt} (hlimit : ent.limit.toNat < 2 ^ 63) (hwritten : ent.written ≤ ent.limit) :
    kistLimitSpace ent > 0 ↔ ent.written.toNat + cellBytes ≤ ent.limit.toNat := by
  have hle : ent.written.toNat ≤ ent.limit.toNat := hwritten
  have hsub : (ent.limit - ent.written).toNat = ent.limit.toNat - ent.written.toNat := UInt64.toNat_sub_of_le _ _ hwritten
  have hint : (ent.limit - ent.written).toBitVec.toInt = ((ent.limit.toNat - ent.written.toNat : Nat) : Int) := by
    rw [BitVec.toInt_eq_toNat_of_lt]
    · rw [UInt64.toNat_toBitVec, hsub]
    · rw [UInt64.toNat_toBitVec, hsub]
      omega
  rw [kistLimitSpace, hint]
  have hdiv : ((ent.limit.toNat - ent.written.toNat : Nat) : Int).tdiv cellBytes =
      (((ent.limit.toNat - ent.written.toNat) / cellBytes : Nat) : Int) := Int.ofNat_tdiv ..
  rw [hdiv]
  have hpos : 0 < (ent.limit.toNat - ent.written.toNat) / cellBytes ↔ cellBytes ≤ ent.limit.toNat - ent.written.toNat :=
    Nat.div_pos_iff.trans (and_iff_right (by decide))
  omega

/-! ## The invariant of the loop -/

section
variable {limit : α → UInt64} {hand hand' : Option α} {r r' : RunState α} {c : α}

/-- The entry of a channel counts what was flushed on it. -/
def Counted (limit : α → UInt64) (r : RunState α) (c : α) : Prop :=
  ∃ ent, r.sched.table c = some ent ∧ ent.limit = limit c ∧ ent.written.toNat = cellBytes * r.flushed c

/-- Where a channel is that was pending when the run started; `hand` is the channel that the loop has taken off. -/
inductive Status (limit : α → UInt64) (hand : Option α) (r : RunState α) (c : α) : Prop where
  | pending (hin : c ∈ r.sched.pending.list) (hhand : hand ≠ some c) (haside : c ∉ r.toReadd)
    (hstate : r.sched.state c = .SCHED_CHAN_PENDING) (hcount : Counted limit r c)
  | held (hout : c ∉ r.sched.pending.list) (hhand : hand = some c) (haside : c ∉ r.toReadd)
    (hstate : r.sched.state c = .SCHED_CHAN_PENDING) (hcount : Counted limit r c)
  | limited (hout : c ∉ r.sched.pending.list) (hhand : hand ≠ some c) (haside : c ∈ r.toReadd)
    (hfull : (limit c).toNat < cellBytes * (r.flushed c + 1))
    (hstate : r.sched.state c = .SCHED_CHAN_PENDING ∨ (r.sched.chan c).isOpen = false)
  | closed (hout : c ∉ r.sched.pending.list) (hhand : hand ≠ some c) (haside : c ∉ r.toReadd)
    (hopen : (r.sched.chan c).isOpen = false) (hstate : r.sched.state c = .SCHED_CHAN_IDLE)
  | drained (hout : c ∉ r.sched.pending.list) (hhand : hand ≠ some c) (haside : c ∉ r.toReadd)
    (hcells : (r.sched.chan c).numCells = 0) (hstate : r.sched.state c = .SCHED_CHAN_WAITING_FOR_CELLS)

/-- What holds at every point of the loop; `start` is the state in which the run began. -/
structure RunInv (limit : α → UInt64) (start : State α) (hand : Option α) (r : RunState α) : Prop where
  placed : Placed r.sched.pending
  readd_nodup : r.toReadd.Nodup
  flushed : ∀ c, cellBytes * r.flushed c ≤ (limit c).toNat
  status : ∀ c ∈ start.pending.list, Status limit hand r c
  others : ∀ c, c ∉ start.pending.list →
    r.sched.chan c = start.chan c ∧ c ∉ r.sched.pending.list ∧ c ∉ r.toReadd
  hand : ∀ c, hand = some c → c ∈ start.pending.list
  table : ∀ c, r.prevChan = some c ∨ c ∈ r.outbufTable → c ∈ start.pending.list

/-- A step of the loop that is about one channel. -/
structure StepOn (c : α) (r r' : RunState α) : Prop where
  sched : Touches c r.sched r'.sched
  toReadd : ∀ x, x ≠ c → (x ∈ r'.toReadd ↔ x ∈ r.toReadd)
  flushed : ∀ x, x ≠ c → r'.flushed x = r.flushed x

omit [DecidableEq α] in
theorem Counted.step (h : StepOn c r r') {x : α} (hx : x ≠ c) (hcount : Counted limit r x) : Counted limit r' x := by
  obtain ⟨ent, htable, hlimit, hwritten⟩ := hcount
  exact ⟨ent, by rw [h.sched.table x hx, htable], hlimit, by rw [h.flushed x hx, hwritten]⟩

omit [DecidableEq α] in
/-- The others are where they were. -/
theorem Status.step (h : StepOn c r r') {x : α} (hx : x ≠ c) (hhand : hand' = some x ↔ hand = some x)
    (hs : Status limit hand r x) : Status limit hand' r' x := by
  have hstate : r'.sched.state x = r.sched.state x := by rw [State.state, State.state, h.sched.chan x hx]
  have hchan := h.sched.chan x hx
  have hpending := h.sched.pending x hx
  have hreadd := h.toReadd x hx
  cases hs with
  | pending hin hne haside hst hcount =>
    exact .pending (hpending.mpr hin) (fun e => hne (hhand.mp e)) (fun e => haside (hreadd.mp e)) (hstate.trans hst)
      (hcount.step h hx)
  | held hout heq haside hst hcount =>
    exact .held (fun e => hout (hpending.mp e)) (hhand.mpr heq) (fun e => haside (hreadd.mp e)) (hstate.trans hst)
      (hcount.step h hx)
  | limited hout hne haside hfull hst =>
    refine .limited (fun e => hout (hpending.mp e)) (fun e => hne (hhand.mp e)) (hreadd.mpr haside) ?_ ?_
    · rw [h.flushed x hx]
      exact hfull
    · rw [hstate, hchan]
      exact hst
  | closed hout hne haside hopen hst =>
    exact .closed (fun e => hout (hpending.mp e)) (fun e => hne (hhand.mp e)) (fun e => haside (hreadd.mp e))
      (by rw [hchan]; exact hopen) (hstate.trans hst)
  | drained hout hne haside hcells hst =>
    exact .drained (fun e => hout (hpending.mp e)) (fun e => hne (hhand.mp e)) (fun e => haside (hreadd.mp e))
      (by rw [hchan]; exact hcells) (hstate.trans hst)

omit [DecidableEq α] in
/-- After a step on a channel it is enough to say where that channel is. -/
theorem RunInv.step {start : State α} (h : RunInv limit start hand r) (hstep : StepOn c r r') (hc : c ∈ start.pending.list)
    (hhand : ∀ x, x ≠ c → (hand' = some x ↔ hand = some x)) (hstatus : Status limit hand' r' c)
    (hnodup : r'.toReadd.Nodup) (hflushed : cellBytes * r'.flushed c ≤ (limit c).toNat)
    (htable : ∀ x, r'.prevChan = some x ∨ x ∈ r'.outbufTable → x ∈ start.pending.list) : RunInv limit start hand' r' := by
  refine ⟨hstep.sched.placed, hnodup, fun x => ?_, fun x hx => ?_, fun x hx => ?_, fun x hx => ?_, htable⟩
  · by_cases hxc : x = c
    · rw [hxc]
      exact hflushed
    · rw [hstep.flushed x hxc]
      exact h.flushed x
  · by_cases hxc : x = c
    · rw [hxc]
      exact hstatus
    · exact (h.status x hx).step hstep hxc (hhand x hxc)
  · have hxc : x ≠ c := fun e => hx (e ▸ hc)
    obtain ⟨hchan, hpending, haside⟩ := h.others x hx
    exact ⟨(hstep.sched.chan x hxc).trans hchan, fun e => hpending ((hstep.sched.pending x hxc).mp e),
      fun e => haside ((hstep.toReadd x hxc).mp e)⟩
  · by_cases hxc : x = c
    · rw [hxc]
      exact hc
    · exact h.hand x ((hhand x hxc).mp hx)

end

/-! ## The cells and channels in the heap -/

def load (s : State α) : Nat := (s.pending.list.map fun c => (s.chan c).numCells + 1).sum

section
variable {s s' : State α} {c : α}

omit [DecidableEq α] in
theorem map_numCells (h : ∀ x, x ≠ c → s'.chan x = s.chan x) {list : List α} (hout : c ∉ list) :
    (list.map fun x => (s'.chan x).numCells + 1) = list.map fun x => (s.chan x).numCells + 1 := by
  apply List.map_congr_left
  intro x hx
  rw [h x fun e => hout (e ▸ hx)]

omit [DecidableEq α] in
/-- A channel in the heap counts for its cells and itself. -/
theorem load_of_perm (hperm : s.pending.list.Perm (c :: s'.pending.list)) (hout : c ∉ s'.pending.list)
    (hchan : ∀ x, x ≠ c → s'.chan x = s.chan x) : load s = (s.chan c).numCells + 1 + load s' := by
  rw [load, load, (hperm.map _).sum_eq, List.map_cons, List.sum_cons, map_numCells hchan hout]

omit [DecidableEq α] in
theorem load_of_eq (hlist : s'.pending.list = s.pending.list) (hout : c ∉ s.pending.list)
    (hchan : ∀ x, x ≠ c → s'.chan x = s.chan x) : load s' = load s := by
  rw [load, load, hlist, map_numCells hchan hout]

theorem load_setState (hout : c ∉ s.pending.list) (newState : SchedState) :
    load (schedulerSetChannelState s c newState) = load s :=
  load_of_eq rfl hout fun _ hx => Function.update_of_ne hx ..

end

/-! ## Writing a channel to the kernel -/

section
variable {limit : α → UInt64} {start : State α} {hand : Option α} {r : RunState α} {c : α} (compare : α → α → Int)

/-- A channel that is closed in the middle of a run. -/
theorem closeChannel_spec {s : State α} (hs : Placed s.pending) (c : α) (numCells : Nat) :
    ∃ s', closeChannel compare s c numCells = some s' ∧ Touches c s s' ∧ c ∉ s'.pending.list ∧
      s'.chan c = ⟨.SCHED_CHAN_IDLE, false, numCells⟩ ∧ load s' ≤ load s := by
  have hset := setChan_touches c hs { s.chan c with isOpen := false, numCells }
  obtain ⟨s', hrelease, htouches, hout, hchan, hlist⟩ := schedulerReleaseChannel_spec compare c hset.placed
  have hall := hset.trans htouches
  refine ⟨s', hrelease, hall, hout, by rw [hchan, setChan_same], ?_⟩
  rcases hlist with hlist | hperm
  · exact Nat.le_of_eq (load_of_eq hlist (hlist ▸ hout) hall.chan)
  · rw [load_of_perm (s := s) hperm hout hall.chan]
    omega

theorem channelWriteToKernel_spec (h : RunInv limit start hand r) (hc : c ∈ start.pending.list)
    (hhand : hand ≠ some c) (result : WriteResult) :
    ∃ s', channelWriteToKernel compare r.sched c result = some s' ∧ Touches c r.sched s' ∧ load s' ≤ load r.sched ∧
      RunInv limit start hand { r with sched := s' } := by
  have hsame : ∃ s', some r.sched = some s' ∧ Touches c r.sched s' ∧ load s' ≤ load r.sched ∧
      RunInv limit start hand { r with sched := s' } := ⟨r.sched, rfl, .refl h.placed c, Nat.le_refl _, h⟩
  have hstatus := h.status c hc
  unfold channelWriteToKernel
  cases hopen : (r.sched.chan c).isOpen with
  | false => exact hsame
  | true =>
    cases result with
    | nothing => exact hsame
    | flushedSome =>
      -- an open channel is pending or waits for cells here, and then this changes nothing
      have hstate : r.sched.state c = .SCHED_CHAN_PENDING ∨ r.sched.state c = .SCHED_CHAN_WAITING_FOR_CELLS := by
        cases hstatus with
        | pending _ _ _ hstate _ | held _ _ _ hstate _ => exact .inl hstate
        | limited _ _ _ _ hstate => exact .inl (hstate.resolve_right (by rw [hopen]; nofun))
        | closed _ _ _ hclosed _ => rw [hopen] at hclosed; cases hclosed
        | drained _ _ _ _ hstate => exact .inr hstate
      have hnothing : schedulerChannelWantsWrites compare r.sched c = r.sched := by
        unfold schedulerChannelWantsWrites
        rcases hstate with hstate | hstate <;> rw [hstate]
      simpa [hnothing] using hsame
    | closes numCells =>
      obtain ⟨s', hclose, htouches, hout, hchan, hload⟩ := closeChannel_spec compare h.placed c numCells
      refine ⟨s', hclose, htouches, hload, ?_⟩
      have hstep : StepOn c r { r with sched := s' } := ⟨htouches, fun _ _ => .rfl, fun _ _ => rfl⟩
      refine h.step hstep hc (fun _ _ => .rfl) ?_ h.readd_nodup (h.flushed c) h.table
      by_cases haside : c ∈ r.toReadd
      · cases hstatus with
        | limited _ _ _ hfull _ => exact .limited hout hhand haside hfull (.inr (by simp [hchan]))
        | pending _ _ hnot _ _ | held _ _ hnot _ _ | closed _ _ hnot _ _ | drained _ _ hnot _ _ =>
          exact absurd haside hnot
      · exact .closed hout hhand haside (by simp [hchan]) (by simp [State.state, hchan])

/-! ## A turn of the loop -/

/-- The best channel comes off the heap, into the loop's hand. -/
theorem pop_spec (h : RunInv limit start none r) (hne : r.sched.pending.list ≠ []) :
    ∃ c pending, smartlistPqueuePop compare r.sched.pending = some (c, pending) ∧
      RunInv limit start (some c) { r with sched := { r.sched with pending } } ∧
      load r.sched = (r.sched.chan c).numCells + 1 + load { r.sched with pending } := by
  obtain ⟨c, pending, hpop, hplaced, hperm⟩ := smartlistPqueuePop_spec compare h.placed hne
  have hnodup := List.nodup_cons.mp (hperm.nodup_iff.mp h.placed.nodup)
  have hin : c ∈ r.sched.pending.list := hperm.mem_iff.mpr List.mem_cons_self
  have hc : c ∈ start.pending.list := Decidable.not_not.mp fun hnot => (h.others c hnot).2.1 hin
  have hstep : StepOn c r { r with sched := { r.sched with pending } } := by
    refine ⟨⟨hplaced, fun _ _ => rfl, fun _ _ => rfl, fun x hx => ?_⟩, fun _ _ => .rfl, fun _ _ => rfl⟩
    exact ((hperm.mem_iff.trans List.mem_cons).trans (or_iff_right hx)).symm
  refine ⟨c, pending, hpop, h.step hstep hc (fun x hx => ?_) ?_ h.readd_nodup (h.flushed c) h.table,
    load_of_perm hperm hnodup.1 fun _ _ => rfl⟩
  · simp [Ne.symm hx]
  · cases h.status c hc with
    | pending _ _ haside hstate hcount => exact .held hnodup.1 rfl haside hstate hcount
    | held hout | limited hout | closed hout | drained hout => exact absurd hin hout

omit [DecidableEq α] in
/-- The variables that only choose what is written to the kernel may change. -/
theorem RunInv.retable (h : RunInv limit start hand r) {prevChan : Option α} {outbufTable : List α}
    (htable : ∀ x, prevChan = some x ∨ x ∈ outbufTable → x ∈ start.pending.list) :
    RunInv limit start hand { r with prevChan, outbufTable } := by
  refine ⟨h.placed, h.readd_nodup, h.flushed, fun c hc => ?_, h.others, h.hand, htable⟩
  cases h.status c hc with
  | pending h1 h2 h3 h4 h5 => exact .pending h1 h2 h3 h4 h5
  | held h1 h2 h3 h4 h5 => exact .held h1 h2 h3 h4 h5
  | limited h1 h2 h3 h4 h5 => exact .limited h1 h2 h3 h4 h5
  | closed h1 h2 h3 h4 h5 => exact .closed h1 h2 h3 h4 h5
  | drained h1 h2 h3 h4 h5 => exact .drained h1 h2 h3 h4 h5

theorem mem_outbufTableAdd {table : List α} {c x : α} (h : x ∈ outbufTableAdd table c) : x = c ∨ x ∈ table := by
  unfold outbufTableAdd at h
  split at h
  · exact .inr h
  · exact List.mem_cons.mp h

variable (turn : Turn α)

/-- Going on to a channel leaves that channel as it is. -/
theorem switchTo_spec (h : RunInv limit start (some c) r) :
    ∃ r', switchTo turn r c = some r' ∧ RunInv limit start (some c) r' ∧ r'.sched.chan c = r.sched.chan c ∧
      r'.sched.table c = r.sched.table c ∧ load r'.sched ≤ load r.sched := by
  have hc := h.hand c rfl
  have hprev : r.prevChan.getD c ∈ start.pending.list := by
    cases hp : r.prevChan with
    | none => exact hc
    | some p => exact h.table p (.inl hp)
  have htable : ∀ x, some c = some x ∨ x ∈ outbufTableAdd r.outbufTable c → x ∈ start.pending.list := by
    intro x hx
    rcases hx with hx | hx
    · rw [← Option.some.inj hx]
      exact hc
    · rcases mem_outbufTableAdd hx with rfl | hx
      · exact hc
      · exact h.table x (.inr hx)
  have htable' : ∀ x, some c = some x ∨
      x ∈ outbufTableAdd (outbufTableAdd r.outbufTable c) (r.prevChan.getD c) → x ∈ start.pending.list := by
    intro x hx
    rcases hx with hx | hx
    · exact htable x (.inl hx)
    · rcases mem_outbufTableAdd hx with rfl | hx
      · exact hprev
      · exact htable x (.inr hx)
  unfold switchTo
  simp only
  split
  · exact ⟨_, rfl, h.retable htable, rfl, rfl, Nat.le_refl _⟩
  next hne =>
    split
    · obtain ⟨s', hwrite, htouches, hload, hinv⟩ :=
        channelWriteToKernel_spec turn.compare h hprev (fun e => hne (Option.some.inj e).symm) turn.write
      rw [hwrite]
      refine ⟨_, rfl, hinv.retable fun x hx => ?_, htouches.chan c (Ne.symm hne), htouches.table c (Ne.symm hne), hload⟩
      exact htable' x (hx.imp id List.mem_of_mem_erase)
    · exact ⟨_, rfl, h.retable htable', rfl, rfl, Nat.le_refl _⟩

omit [DecidableEq α] in
theorem RunInv.in_hand (h : RunInv limit start (some c) r) :
    c ∉ r.sched.pending.list ∧ c ∉ r.toReadd ∧ r.sched.state c = .SCHED_CHAN_PENDING ∧ Counted limit r c := by
  cases h.status c (h.hand c rfl) with
  | held hout _ haside hstate hcount => exact ⟨hout, haside, hstate, hcount⟩
  | pending _ hhand | limited _ hhand | closed _ hhand | drained _ hhand => exact absurd rfl hhand

omit [DecidableEq α] in
/-- A socket can be written to while there is room for one more cell. -/
theorem socketCanWrite_iff (hlimit : ∀ c, (limit c).toNat < 2 ^ 63) (hflushed : cellBytes * r.flushed c ≤ (limit c).toNat)
    (hcount : Counted limit r c) : socketCanWrite r.sched c = true ↔ cellBytes * (r.flushed c + 1) ≤ (limit c).toNat := by
  obtain ⟨ent, htable, hlim, hwritten⟩ := hcount
  have hle : ent.written ≤ ent.limit := by
    rw [UInt64.le_iff_toNat_le, hlim, hwritten]
    exact hflushed
  have hspace := kistLimitSpace_pos (hlim ▸ hlimit c) hle
  rw [hlim, hwritten, ← Nat.mul_succ] at hspace
  rw [socketCanWrite, htable]
  exact decide_eq_true_iff.trans hspace

/-- What is decided on a channel puts it in one of its places. -/
theorem decideOn_spec (hlimit : ∀ c, (limit c).toNat < 2 ^ 63) (h : RunInv limit start (some c) r) :
    RunInv limit start none (decideOn compare r c) ∧ load (decideOn compare r c).sched ≤
      load r.sched + if socketCanWrite r.sched c then (r.sched.chan c).numCells + 1 else 0 := by
  obtain ⟨hout, haside, hstate, hcount⟩ := h.in_hand
  have hc := h.hand c rfl
  have hhand : ∀ x, x ≠ c → ((none : Option α) = some x ↔ some c = some x) := by
    intro x hx
    simp [Ne.symm hx]
  have hdrained : channelMoreToFlush r.sched c = false →
      RunInv limit start none { r with sched := schedulerSetChannelState r.sched c .SCHED_CHAN_WAITING_FOR_CELLS } ∧
      load (schedulerSetChannelState r.sched c .SCHED_CHAN_WAITING_FOR_CELLS) = load r.sched := by
    intro hmore
    have htouches := setState_touches c h.placed .SCHED_CHAN_WAITING_FOR_CELLS
    refine ⟨h.step ⟨htouches, fun _ _ => .rfl, fun _ _ => rfl⟩ hc hhand ?_ h.readd_nodup (h.flushed c) h.table,
      load_setState hout _⟩
    refine .drained hout nofun haside ?_ ?_
    · rw [setState_same]
      exact Nat.eq_zero_of_not_pos (of_decide_eq_false hmore)
    · rw [State.state, setState_same]
  unfold decideOn
  cases hmore : channelMoreToFlush r.sched c with
  | false =>
    obtain ⟨hinv, hload⟩ := hdrained hmore
    cases hcan : socketCanWrite r.sched c with
    | false => exact ⟨hinv, Nat.le_of_eq hload⟩
    | true => exact ⟨hinv, Nat.le_trans (Nat.le_of_eq hload) (Nat.le_add_right ..)⟩
  | true =>
    cases hcan : socketCanWrite r.sched c with
    | false =>
      -- it has cells but its limit is reached: it is set aside
      refine ⟨?_, Nat.le_refl _⟩
      have hfull : (limit c).toNat < cellBytes * (r.flushed c + 1) := by
        refine Nat.lt_of_not_le fun hle => ?_
        rw [(socketCanWrite_iff hlimit (h.flushed c) hcount).mpr hle] at hcan
        cases hcan
      have hreadd : ∀ x, x ≠ c → (x ∈ r.toReadd ++ [c] ↔ x ∈ r.toReadd) := by
        intro x hx
        simp [hx]
      refine h.step ⟨.refl h.placed c, hreadd, fun _ _ => rfl⟩ hc hhand ?_ ?_ (h.flushed c) h.table
      · exact .limited hout nofun (List.mem_append_right _ List.mem_cons_self) hfull (.inl hstate)
      · exact List.nodup_append.mpr ⟨h.readd_nodup, List.nodup_singleton c,
          fun x hx y hy e => haside (List.mem_singleton.mp hy ▸ e ▸ hx)⟩
    | true =>
      -- it goes back to the heap
      obtain ⟨hchan, htable, hperm⟩ := makePending_self compare c h.placed hout
      have htouches := makePending_touches compare c h.placed
      refine ⟨h.step ⟨htouches, fun _ _ => .rfl, fun _ _ => rfl⟩ hc hhand ?_ h.readd_nodup (h.flushed c) h.table, ?_⟩
      · obtain ⟨ent, hent⟩ := hcount
        refine .pending (hperm.mem_iff.mpr List.mem_cons_self) nofun haside ?_ ⟨ent, ?_⟩
        · simp [State.state, hchan]
        · exact ⟨htable.trans hent.1, hent.2⟩
      · have hload := load_of_perm hperm hout fun x hx => (htouches.chan x hx).symm
        simp only [hchan] at hload
        simp only [Bool.not_true, Bool.false_and, Bool.false_eq_true, if_false, if_true]
        omega

/-- A channel that is not open after its flush goes idle. -/
theorem closed_spec (h : RunInv limit start (some c) r) {s' : State α} (htouches : Touches c r.sched s')
    (hout : c ∉ s'.pending.list) (hopen : (s'.chan c).isOpen = false) (flushed : Bool)
    (hcan : cellBytes * (r.flushed c + 1) ≤ (limit c).toNat) :
    RunInv limit start none { r with
      sched := schedulerSetChannelState s' c .SCHED_CHAN_IDLE
      flushed := Function.update r.flushed c (r.flushed c + flushed.toNat) } := by
  have hidle := htouches.trans (setState_touches c htouches.placed .SCHED_CHAN_IDLE)
  refine h.step ⟨hidle, fun _ _ => .rfl, fun x hx => Function.update_of_ne hx ..⟩ (h.hand c rfl) (fun x hx => ?_) ?_
    h.readd_nodup ?_ h.table
  · simp [Ne.symm hx]
  · exact .closed hout nofun h.in_hand.2.1 (by simp [hopen]) (by simp [State.state])
  · simp only [Function.update_self]
    exact Nat.le_trans (Nat.mul_le_mul_left _ (Nat.add_le_add_left (Bool.toNat_le flushed) _)) hcan

/-- The table counts a cell that was flushed. -/
theorem flushed_spec (h : RunInv limit start (some c) r) (hlimit : ∀ c, (limit c).toNat < 2 ^ 63)
    (hcan : cellBytes * (r.flushed c + 1) ≤ (limit c).toNat) (ch : Channel) (hch : ch.schedulerState = .SCHED_CHAN_PENDING) :
    RunInv limit start (some c) { r with
      sched := updateSocketWritten (r.sched.setChan c ch) c (1 * cellBytes)
      flushed := Function.update r.flushed c (r.flushed c + 1) } ∧
    (updateSocketWritten (r.sched.setChan c ch) c (1 * cellBytes)).chan c = ch ∧
    load (updateSocketWritten (r.sched.setChan c ch) c (1 * cellBytes)) = load r.sched := by
  obtain ⟨hout, haside, -, ent, htable, hlim, hwritten⟩ := h.in_hand
  have hset := setChan_touches c h.placed ch
  have hupdate : updateSocketWritten (r.sched.setChan c ch) c (1 * cellBytes) = { r.sched.setChan c ch with
      table := Function.update r.sched.table c (some { ent with written := ent.written + UInt64.ofNat (1 * cellBytes) }) } := by
    unfold updateSocketWritten
    rw [show (r.sched.setChan c ch).table c = some ent from htable]
    rfl
  have hcount : (ent.written + UInt64.ofNat (1 * cellBytes)).toNat = cellBytes * (r.flushed c + 1) := by
    have hbytes : (UInt64.ofNat (1 * cellBytes)).toNat = cellBytes := by decide
    have hlt := hlimit c
    rw [UInt64.toNat_add, hbytes, hwritten, ← Nat.mul_add_one]
    exact Nat.mod_eq_of_lt (by omega)
  rw [hupdate]
  refine ⟨?_, setChan_same .., load_of_eq rfl hout hset.chan⟩
  refine h.step ⟨⟨h.placed, hset.chan, fun x hx => Function.update_of_ne hx .., fun _ _ => .rfl⟩, fun _ _ => .rfl,
    fun x hx => Function.update_of_ne hx ..⟩ (h.hand c rfl) (fun _ _ => .rfl) ?_ h.readd_nodup ?_ h.table
  · refine .held hout rfl haside ?_ ⟨_, Function.update_self .., hlim, ?_⟩
    · rw [State.state]
      simpa using hch
    · simp only [Function.update_self]
      exact hcount
  · simp only [Function.update_self]
    exact hcan

/-- A flush leaves the channel closed, or takes a cell, or finds none. -/
theorem channelFlushSomeCells_spec {s : State α} (hs : Placed s.pending) (hout : c ∉ s.pending.list)
    (result : FlushResult) :
    (∃ (flushed : Bool) (s' : State α), channelFlushSomeCells compare s c result = some (flushed.toNat, s') ∧ Touches c s s' ∧
      c ∉ s'.pending.list ∧ (s'.chan c).isOpen = false ∧ load s' ≤ load s) ∨
    (s.chan c).isOpen = true ∧ 0 < (s.chan c).numCells ∧ channelFlushSomeCells compare s c result =
      some (1, s.setChan c { s.chan c with numCells := (s.chan c).numCells - 1 }) ∨
    (s.chan c).isOpen = true ∧ (s.chan c).numCells = 0 ∧ channelFlushSomeCells compare s c result = some (0, s) := by
  unfold channelFlushSomeCells
  cases hopen : (s.chan c).isOpen with
  | false => exact .inl ⟨false, s, by simp [hopen], .refl hs c, hout, hopen, Nat.le_refl _⟩
  | true =>
    cases result with
    | flushes =>
      rcases Nat.eq_zero_or_pos (s.chan c).numCells with hcells | hcells
      · exact .inr (.inr ⟨rfl, hcells, by simp [hcells]⟩)
      · exact .inr (.inl ⟨rfl, hcells, by simp [hopen, hcells]⟩)
    | closes flushed numCells =>
      obtain ⟨s', hclose, htouches, hout', hchan, hload⟩ := closeChannel_spec compare hs c numCells
      exact .inl ⟨flushed, s', by simp [hopen, hclose], htouches, hout', by rw [hchan], hload⟩

/-- A channel is served within its limit, and what goes back to the heap is less than what came off it. -/
theorem serve_spec (hlimit : ∀ c, (limit c).toNat < 2 ^ 63) (h : RunInv limit start (some c) r)
    (hcan : socketCanWrite r.sched c = true) :
    ∃ r', serve turn r c = some r' ∧ RunInv limit start none r' ∧
      load r'.sched ≤ load r.sched + (r.sched.chan c).numCells := by
  obtain ⟨hout, haside, hstate, hcount⟩ := h.in_hand
  have hroom := (socketCanWrite_iff hlimit (h.flushed c) hcount).mp hcan
  unfold serve
  rcases channelFlushSomeCells_spec turn.compare h.placed hout turn.flush with
    ⟨flushed, s', hflush, htouches, hout', hopen, hload⟩ | ⟨hopen, hcells, hflush⟩ | ⟨hopen, hcells, hflush⟩
  · have hinv := closed_spec h htouches hout' hopen flushed hroom
    refine ⟨_, by simp only [hflush, hopen, Bool.not_false, if_true], hinv, ?_⟩
    simp only [load_setState hout']
    omega
  · -- one cell went: the decision is about the channel with the cell counted
    obtain ⟨hinv, hchan, hload⟩ := flushed_spec h hlimit hroom { r.sched.chan c with numCells := (r.sched.chan c).numCells - 1 } hstate
    obtain ⟨hdecided, hbound⟩ := decideOn_spec turn.compare hlimit hinv
    refine ⟨_, by simp only [hflush, setChan_same, hopen, Bool.not_true, Bool.false_eq_true, if_false, Nat.zero_lt_one,
      gt_iff_lt, if_true], hdecided, Nat.le_trans hbound ?_⟩
    simp only [hchan, hload]
    split <;> omega
  · have htouches := setState_touches c h.placed .SCHED_CHAN_WAITING_FOR_CELLS
    have hsame : Function.update r.flushed c (r.flushed c + 0) = r.flushed := Function.update_eq_self ..
    refine ⟨{ r with sched := schedulerSetChannelState r.sched c .SCHED_CHAN_WAITING_FOR_CELLS }, ?_, ?_, ?_⟩
    · simp only [hflush, hopen, Bool.not_true, Bool.false_eq_true, if_false, gt_iff_lt, Nat.lt_irrefl, hsame]
    · refine h.step ⟨htouches, fun _ _ => .rfl, fun _ _ => rfl⟩ (h.hand c rfl) (fun x hx => by simp [Ne.symm hx]) ?_
        h.readd_nodup (h.flushed c) h.table
      exact .drained hout nofun haside (by simp [hcells]) (by simp [State.state])
    · simp only [load_setState hout]
      omega

theorem kistTurn_spec (hlimit : ∀ c, (limit c).toNat < 2 ^ 63) (h : RunInv limit start none r)
    (hne : r.sched.pending.list ≠ []) :
    ∃ r', kistTurn turn r = some r' ∧ RunInv limit start none r' ∧ load r'.sched < load r.sched := by
  obtain ⟨c, pending, hpop, hinv, hload⟩ := pop_spec turn.compare h hne
  obtain ⟨r', hswitch, hinv', hchan, -, hload'⟩ := switchTo_spec turn hinv
  simp only at hload hload' hchan
  have hturn : kistTurn turn r =
      if socketCanWrite r'.sched c then serve turn r' c else some (decideOn turn.compare r' c) := by
    simp only [kistTurn, hpop, hswitch]
  rw [hturn]
  split
  next hcan =>
    obtain ⟨r'', hserve, hinv'', hload''⟩ := serve_spec turn hlimit hinv' hcan
    refine ⟨r'', hserve, hinv'', ?_⟩
    rw [hchan] at hload''
    omega
  next hcan =>
    obtain ⟨hdecided, hbound⟩ := decideOn_spec turn.compare hlimit hinv'
    rw [if_neg hcan] at hbound
    exact ⟨_, rfl, hdecided, by omega⟩

theorem kistLoop_mono (turn : Nat → Turn α) {fuel fuel' : Nat} (hle : fuel ≤ fuel') :
    ∀ {n : Nat} {r r' : RunState α}, kistLoop turn fuel n r = some r' → kistLoop turn fuel' n r = some r' := by
  induction fuel generalizing fuel' with
  | zero =>
    intro n r r' h
    rw [kistLoop] at h
    split at h
    next hnil =>
      rw [kistLoop.eq_def]
      simp only [if_pos hnil, h]
    next => cases h
  | succ fuel ih =>
    intro n r r' h
    obtain ⟨more, rfl⟩ : ∃ more, fuel' = more + 1 := ⟨fuel' - 1, by omega⟩
    rw [kistLoop] at h ⊢
    split at h
    next hnil => rw [if_pos hnil, h]
    next hne =>
      rw [if_neg hne]
      obtain ⟨next, hturn, hloop⟩ := Option.bind_eq_some_iff.mp h
      exact Option.bind_eq_some_iff.mpr ⟨next, hturn, ih (by omega) hloop⟩

/-- The loop ends, and then the heap is empty. -/
theorem kistLoop_spec (turn : Nat → Turn α) (hlimit : ∀ c, (limit c).toNat < 2 ^ 63) {fuel : Nat} :
    ∀ {n : Nat} {r : RunState α}, RunInv limit start none r → load r.sched ≤ fuel →
      ∃ r', kistLoop turn fuel n r = some r' ∧ RunInv limit start none r' ∧ r'.sched.pending.list = [] := by
  induction fuel with
  | zero =>
    intro n r h hload
    have hnil : r.sched.pending.list = [] := by
      by_contra hne
      obtain ⟨r', -, -, hlt⟩ := kistTurn_spec (turn n) hlimit h hne
      omega
    exact ⟨r, by rw [kistLoop, if_pos hnil], h, hnil⟩
  | succ fuel ih =>
    intro n r h hload
    by_cases hnil : r.sched.pending.list = []
    · exact ⟨r, by rw [kistLoop, if_pos hnil], h, hnil⟩
    · obtain ⟨r', hturn, hinv, hlt⟩ := kistTurn_spec (turn n) hlimit h hnil
      obtain ⟨r'', hloop, hend⟩ := ih (n := n + 1) hinv (by omega)
      exact ⟨r'', by rw [kistLoop, if_neg hnil, hturn, Option.bind_some, hloop], hend⟩

end

/-! ## A whole run -/

section
variable {limit : α → UInt64} {start s : State α} {r : RunState α} {env : RunEnv α}

theorem initSocketInfo_foldl (limit : α → UInt64) (list : List α) (s : State α) :
    (list.foldl (initSocketInfo limit) s).chan = s.chan ∧ (list.foldl (initSocketInfo limit) s).pending = s.pending ∧
    ∀ c, c ∈ list ∨ s.table c = some ⟨limit c, 0⟩ → (list.foldl (initSocketInfo limit) s).table c = some ⟨limit c, 0⟩ := by
  induction list generalizing s with
  | nil => exact ⟨rfl, rfl, fun c hc => hc.resolve_left List.not_mem_nil⟩
  | cons d list ih =>
    obtain ⟨hchan, hpending, htable⟩ := ih (initSocketInfo limit s d)
    refine ⟨hchan, hpending, fun c hc => htable c ?_⟩
    by_cases hcd : c = d
    · rw [hcd]
      exact .inr (Function.update_self ..)
    · refine hc.imp (fun h => (List.mem_cons.mp h).resolve_left hcd) fun h => ?_
      rw [initSocketInfo]
      simp only [Function.update_of_ne hcd, h]

theorem kistStart_inv (env : RunEnv α) (hs : Tracked s) : RunInv env.limit s none (kistStart env s) := by
  obtain ⟨hchan, hpending, htable⟩ := initSocketInfo_foldl env.limit s.pending.list s
  refine ⟨?_, List.nodup_nil, fun c => Nat.zero_le _, fun c hc => ?_, fun c hc => ?_, ?_, ?_⟩
  · simp only [kistStart, hpending]
    exact hs.placed
  · refine .pending ?_ nofun List.not_mem_nil ?_ ⟨_, htable c (.inl hc), rfl, rfl⟩
    · simp only [kistStart, hpending]
      exact hc
    · simp only [kistStart, State.state, hchan]
      exact (hs.pending c).mpr hc
  · simp only [kistStart, hchan, hpending]
    exact ⟨trivial, hc, List.not_mem_nil⟩
  · intro c hc
    cases hc
  · intro x hx
    rcases hx with hx | hx
    · cases hx
    · cases hx

omit [DecidableEq α] in
theorem load_eq_zero : load s = 0 ↔ s.pending.list = [] := by
  rw [load]
  cases s.pending.list <;> simp

/-- The writes at the end leave the invariant and the heap, which is empty. -/
theorem lastWrites_spec (env : RunEnv α) {table : List α} (htable : ∀ c ∈ table, c ∈ start.pending.list) :
    ∀ {r : RunState α}, RunInv limit start none r → r.sched.pending.list = [] →
      ∃ s', lastWrites env r.sched table = some s' ∧ RunInv limit start none { r with sched := s' } ∧ s'.pending.list = [] := by
  induction table with
  | nil => exact fun h hnil => ⟨_, rfl, h, hnil⟩
  | cons c table ih =>
    intro r h hnil
    obtain ⟨s', hwrite, -, hload, hinv⟩ :=
      channelWriteToKernel_spec env.compare h (htable c List.mem_cons_self) nofun (env.lastWrite c)
    have hnil' : s'.pending.list = [] := by
      rw [← load_eq_zero] at hnil ⊢
      omega
    obtain ⟨s'', hwrites, hend⟩ := ih (fun x hx => htable x (List.mem_cons_of_mem c hx)) hinv hnil'
    exact ⟨s'', by rw [lastWrites, hwrite, Option.bind_some, hwrites], hend⟩

variable (compare : α → α → Int)

theorem readd_eq {c : α} (hout : c ∉ s.pending.list) : readd compare s c = makePending compare s c := by
  unfold readd
  exact if_neg hout

/-- The channels that were set aside are pending, and the others are as they were. -/
theorem readd_foldl {aside : List α} (hnodup : aside.Nodup) :
    ∀ {s : State α}, Placed s.pending → (∀ c ∈ aside, c ∉ s.pending.list) →
      Placed (aside.foldl (readd compare) s).pending ∧
      (∀ c, c ∈ (aside.foldl (readd compare) s).pending.list ↔ c ∈ aside ∨ c ∈ s.pending.list) ∧
      (∀ c ∈ aside, (aside.foldl (readd compare) s).state c = .SCHED_CHAN_PENDING) ∧
      (∀ c, c ∉ aside → (aside.foldl (readd compare) s).chan c = s.chan c) := by
  induction aside with
  | nil => exact fun hs _ => ⟨hs, fun c => by simp, nofun, fun _ _ => rfl⟩
  | cons d aside ih =>
    intro s hs hout
    obtain ⟨hd, hnodup⟩ := List.nodup_cons.mp hnodup
    have hdout := hout d List.mem_cons_self
    obtain ⟨hchan, -, hperm⟩ := makePending_self compare d hs hdout
    have htouches := makePending_touches compare d hs
    have hout' : ∀ c ∈ aside, c ∉ (makePending compare s d).pending.list := by
      intro c hc hmem
      have hne : c ≠ d := fun e => hd (e ▸ hc)
      exact hout c (List.mem_cons_of_mem d hc) ((htouches.pending c hne).mp hmem)
    obtain ⟨hplaced, hlist, hstate, hothers⟩ := ih hnodup htouches.placed hout'
    rw [List.foldl_cons, readd_eq compare hdout]
    refine ⟨hplaced, fun c => ?_, fun c hc => ?_, fun c hc => ?_⟩
    · rw [hlist, hperm.mem_iff, List.mem_cons, List.mem_cons]
      tauto
    · rcases List.mem_cons.mp hc with rfl | hc
      · rw [State.state, hothers c hd, hchan]
      · exact hstate c hc
    · rw [hothers c fun h => hc (List.mem_cons_of_mem d h), htouches.chan c fun e => hc (e ▸ List.mem_cons_self)]

/-- Where a run leaves a channel that was pending: closed and idle, without cells and waiting for some, or pending again
    with no room for a cell below its limit. -/
def Settled (limit : α → UInt64) (s' : State α) (flushed : α → Nat) (c : α) : Prop :=
  (s'.chan c).isOpen = false ∧ s'.state c = .SCHED_CHAN_IDLE ∨
  (s'.chan c).numCells = 0 ∧ s'.state c = .SCHED_CHAN_WAITING_FOR_CELLS ∨
  s'.state c = .SCHED_CHAN_PENDING ∧ (limit c).toNat < cellBytes * (flushed c + 1)

/-- A run ends, and tracks every channel. -/
theorem kistSchedulerRun_spec (env : RunEnv α) (hlimit : ∀ c, (env.limit c).toNat < 2 ^ 63) (hs : Tracked s) :
    ∃ s' flushed, (∀ fuel, load s ≤ fuel → kistSchedulerRun env fuel s = some (s', flushed)) ∧ Tracked s' ∧
      (∀ c, cellBytes * flushed c ≤ (env.limit c).toNat) ∧
      (∀ c, s.state c = .SCHED_CHAN_PENDING → Settled env.limit s' flushed c) ∧
      (∀ c, s.state c ≠ .SCHED_CHAN_PENDING → s'.chan c = s.chan c) := by
  have hload : load (kistStart env s).sched = load s := by
    obtain ⟨hchan, hpending, -⟩ := initSocketInfo_foldl env.limit s.pending.list s
    simp only [load, kistStart, hchan, hpending]
  obtain ⟨r, hloop, hinv, hnil⟩ := kistLoop_spec env.turn hlimit (n := 0) (kistStart_inv env hs) (Nat.le_of_eq hload)
  obtain ⟨w, hwrites, hinv', hnil'⟩ := lastWrites_spec env
    (fun c hc => hinv.table c (.inr ((env.order_perm _).mem_iff.mp hc))) hinv hnil
  obtain ⟨hplaced, hlist, haside, hothers⟩ := readd_foldl env.compare hinv.readd_nodup hinv'.placed
    (by rw [hnil']; exact fun _ _ => List.not_mem_nil)
  have hmem : ∀ c, c ∈ (r.toReadd.foldl (readd env.compare) w).pending.list ↔ c ∈ r.toReadd := by
    intro c
    rw [hlist, hnil', or_iff_left List.not_mem_nil]
  have hsettled : ∀ c ∈ s.pending.list, Settled env.limit (r.toReadd.foldl (readd env.compare) w) r.flushed c := by
    intro c hc
    cases hinv'.status c hc with
    | pending hin => rw [hnil'] at hin; cases hin
    | held _ hhand => cases hhand
    | limited _ _ hin hfull _ => exact .inr (.inr ⟨haside c hin, hfull⟩)
    | closed _ _ hout hopen hstate => exact .inl ⟨by rw [hothers c hout, hopen], by rw [State.state, hothers c hout]; exact hstate⟩
    | drained _ _ hout hcells hstate =>
      exact .inr (.inl ⟨by rw [hothers c hout, hcells], by rw [State.state, hothers c hout]; exact hstate⟩)
  have hmono : ∀ fuel, load s ≤ fuel →
      kistSchedulerRun env fuel s = some (r.toReadd.foldl (readd env.compare) w, r.flushed) := by
    intro fuel hfuel
    simp only [kistSchedulerRun, kistLoop_mono env.turn hfuel hloop, hwrites, Option.map_some]
  have hkept : ∀ c, c ∉ s.pending.list → (r.toReadd.foldl (readd env.compare) w).chan c = s.chan c := by
    intro c hc
    obtain ⟨hchan, -, hout⟩ := hinv'.others c hc
    exact (hothers c hout).trans hchan
  refine ⟨_, _, hmono, ⟨hplaced, fun c => ?_⟩, hinv.flushed, fun c hc => hsettled c ((hs.pending c).mp hc),
    fun c hc => hkept c fun h => hc ((hs.pending c).mpr h)⟩
  rw [hmem]
  refine ⟨fun hstate => ?_, haside c⟩
  -- a channel that was not set aside is not pending: it was closed or drained, or never was
  by_contra hout
  by_cases hc : c ∈ s.pending.list
  · have hstate' : w.state c = .SCHED_CHAN_PENDING := by
      rw [State.state, ← hothers c hout]
      exact hstate
    cases hinv'.status c hc with
    | pending hin => rw [hnil'] at hin; cases hin
    | held _ hhand => cases hhand
    | limited _ _ hin => exact hout hin
    | closed _ _ _ _ h | drained _ _ _ _ h => cases hstate'.symm.trans h
  · rw [State.state, hkept c hc] at hstate
    exact hc ((hs.pending c).mp hstate)

end

/-! ## Any sequence of calls and runs -/

/-- What happens to the scheduler: a call, a change of a channel it is not told of, or a run of at most `fuel` turns. -/
inductive Event (α : Type) where
  | wantsWrites (compare : α → α → Int) (c : α)
  | doesntWantWrites (compare : α → α → Int) (c : α)
  | hasWaitingCells (compare : α → α → Int) (c : α)
  | release (compare : α → α → Int) (c : α)
  | changes (c : α) (isOpen : Bool) (numCells : Nat)
  | kistRun (env : RunEnv α) (fuel : Nat)

/-- The limits of a run are below 2^63. -/
def Event.Bounded : Event α → Prop
  | .kistRun env _ => ∀ c, (env.limit c).toNat < 2 ^ 63
  | _ => True

/-- None is a failed assertion, or a run that needs more turns. -/
def step (s : State α) : Event α → Option (State α)
  | .wantsWrites compare c => some (schedulerChannelWantsWrites compare s c)
  | .doesntWantWrites compare c => schedulerChannelDoesntWantWrites compare s c
  | .hasWaitingCells compare c => some (schedulerChannelHasWaitingCells compare s c)
  | .release compare c => schedulerReleaseChannel compare s c
  | .changes c isOpen numCells => some (s.setChan c { s.chan c with isOpen, numCells })
  | .kistRun env fuel => (kistSchedulerRun env fuel s).map Prod.fst

section
variable {s s' : State α}

theorem kistSchedulerRun_mono {env : RunEnv α} {fuel fuel' : Nat} (hle : fuel ≤ fuel') {result : State α × (α → Nat)}
    (h : kistSchedulerRun env fuel s = some result) : kistSchedulerRun env fuel' s = some result := by
  unfold kistSchedulerRun at h
  split at h
  next => cases h
  next r hloop =>
    simp only [kistSchedulerRun, kistLoop_mono env.turn hle hloop]
    exact h

omit [DecidableEq α] in
theorem start_tracked (isOpen : α → Bool) (numCells : α → Nat) : Tracked (State.start isOpen numCells) where
  placed := ⟨nofun, fun _ _ => rfl⟩
  pending _ := ⟨nofun, nofun⟩

theorem step_tracked (hs : Tracked s) {e : Event α} (he : e.Bounded) (h : step s e = some s') : Tracked s' := by
  cases e with
  | wantsWrites compare c =>
    cases h
    exact schedulerChannelWantsWrites_tracked compare hs
  | doesntWantWrites compare c =>
    obtain ⟨t, ht, htracked⟩ := schedulerChannelDoesntWantWrites_tracked compare hs c
    cases ht.symm.trans h
    exact htracked
  | hasWaitingCells compare c =>
    cases h
    exact schedulerChannelHasWaitingCells_tracked compare hs
  | release compare c =>
    obtain ⟨t, ht, htracked⟩ := schedulerReleaseChannel_tracked compare hs c
    cases ht.symm.trans h
    exact htracked
  | changes c isOpen numCells =>
    cases h
    refine (setChan_touches c hs.placed _).tracked hs ?_
    rw [State.state, setChan_same]
    exact hs.pending c
  | kistRun env fuel =>
    obtain ⟨⟨t, flushed⟩, hrun, ht⟩ := Option.map_eq_some_iff.mp h
    obtain ⟨s'', flushed', hends, htracked, -⟩ := kistSchedulerRun_spec env he hs
    have hmore := kistSchedulerRun_mono (Nat.le_max_left fuel (load s)) hrun
    rw [hends _ (Nat.le_max_right ..)] at hmore
    cases hmore
    cases ht
    exact htracked

theorem run_tracked {events : List (Event α)} (hbounded : ∀ e ∈ events, e.Bounded) (hs : Tracked s)
    (h : Lib.run step s events = some s') : Tracked s' := by
  refine Lib.run_inv_hist (I := fun es t => (∀ e ∈ es, e.Bounded) → Tracked t) (fun _ => hs) ?_ h hbounded
  intro es t e u _ ih hstep hall
  exact step_tracked (ih fun x hx => hall x (List.mem_append_left _ hx)) (hall e (by simp)) hstep

end

/-- After any sequence of calls and runs, a channel is in the heap, once, exactly if its state is pending; and a run
ends, flushes no more than the limits, and leaves every channel that was pending `Settled`. -/
theorem no_channel_lost {isOpen : α → Bool} {numCells : α → Nat} {events : List (Event α)}
    (hbounded : ∀ e ∈ events, e.Bounded) {s : State α} (h : Lib.run step (State.start isOpen numCells) events = some s) :
    (∀ c, c ∈ s.pending.list ↔ s.state c = .SCHED_CHAN_PENDING) ∧ s.pending.list.Nodup ∧
    (∀ (i : Nat) c, s.pending.list[i]? = some c → s.pending.idx c = i) ∧
    (∀ compare c, (step s (.doesntWantWrites compare c)).isSome ∧ (step s (.release compare c)).isSome) ∧
    ∀ env : RunEnv α, (∀ c, (env.limit c).toNat < 2 ^ 63) →
      ∃ s' flushed, (∀ fuel, load s ≤ fuel → kistSchedulerRun env fuel s = some (s', flushed)) ∧
        (∀ c, cellBytes * flushed c ≤ (env.limit c).toNat) ∧
        (∀ c, s.state c = .SCHED_CHAN_PENDING → Settled env.limit s' flushed c) ∧
        (∀ c, s.state c ≠ .SCHED_CHAN_PENDING → s'.chan c = s.chan c) := by
  have hs := run_tracked hbounded (start_tracked isOpen numCells) h
  refine ⟨fun c => (hs.pending c).symm, hs.placed.nodup, hs.placed.inside, fun compare c => ⟨?_, ?_⟩, fun env hlimit => ?_⟩
  · obtain ⟨s', hstep, -⟩ := schedulerChannelDoesntWantWrites_tracked compare hs c
    exact Option.isSome_of_mem hstep
  · obtain ⟨s', hstep, -⟩ := schedulerReleaseChannel_tracked compare hs c
    exact Option.isSome_of_mem hstep
  · obtain ⟨s', flushed, hends, -, hrest⟩ := kistSchedulerRun_spec env hlimit hs
    exact ⟨s', flushed, hends, hrest⟩

/-- A channel with two cells, and a run whose limit has room for one of them. -/
theorem no_channel_lost_of_two_cells :
    ∃ s : State Nat, Lib.run step (State.start (fun _ => true) fun _ => 2)
        [.wantsWrites (fun _ _ => 0) 7, .hasWaitingCells (fun _ _ => 0) 7] = some s ∧
      s.state 7 = .SCHED_CHAN_PENDING ∧
      ∀ env : RunEnv Nat, env.limit = (fun _ => 600) →
        ∃ s' flushed, (∀ fuel, load s ≤ fuel → kistSchedulerRun env fuel s = some (s', flushed)) ∧
          Settled env.limit s' flushed 7 := by
  have hrun : ∃ s : State Nat, Lib.run step (State.start (fun _ => true) fun _ => 2)
      [.wantsWrites (fun _ _ => 0) 7, .hasWaitingCells (fun _ _ => 0) 7] = some s ∧ s.state 7 = .SCHED_CHAN_PENDING :=
    ⟨_, rfl, by decide⟩
  obtain ⟨s, hrun, hstate⟩ := hrun
  refine ⟨s, hrun, hstate, fun env hlimit => ?_⟩
  obtain ⟨-, -, -, -, hall⟩ := no_channel_lost (by simp [Event.Bounded]) hrun
  obtain ⟨s', flushed, hends, -, hsettled, -⟩ := hall env (by simp [hlimit])
  exact ⟨s', flushed, hends, hsettled 7 hstate⟩

end Badnet.Sched

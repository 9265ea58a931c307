/-
  Badnet.Sched.Scheduler — what the rest of the program tells the scheduler (`core/or/scheduler.c`).

  A channel has a scheduler state and is in `channels_pending`, a heap, exactly when the state is pending (`Tracked`):
  the calls keep it, no assertion of theirs fails, and each touches its own channel only (`Touches`). The order of
  channels is any comparison, since it follows the circuits on them and so changes all the time.
-/

import Badnet.Container.Pqueue

namespace Badnet.Sched

open Container

variable {α : Type} [DecidableEq α]

inductive SchedState where
  | SCHED_CHAN_IDLE
  | SCHED_CHAN_WAITING_FOR_CELLS
  | SCHED_CHAN_WAITING_TO_WRITE
  | SCHED_CHAN_PENDING
  deriving DecidableEq

/-- A channel: its scheduler state, `CHANNEL_IS_OPEN`, and `circuitmux_num_cells` of its circuitmux. -/
structure Channel where
  schedulerState : SchedState
  isOpen : Bool
  numCells : Nat
  deriving DecidableEq

/-- What KIST knows of a channel's socket. -/
structure SocketEnt where
  limit : UInt64
  written : UInt64
  deriving DecidableEq

/-- Channels by their names, `channels_pending` with every channel's `sched_heap_idx`, and the socket table. -/
structure State (α : Type) where
  chan : α → Channel
  pending : Pqueue α
  table : α → Option SocketEnt

namespace State

def setChan (s : State α) (c : α) (ch : Channel) : State α := { s with chan := Function.update s.chan c ch }

def state (s : State α) (c : α) : SchedState := (s.chan c).schedulerState

/-- Nothing has been told yet. -/
def start (isOpen : α → Bool) (numCells : α → Nat) : State α where
  chan c := ⟨.SCHED_CHAN_IDLE, isOpen c, numCells c⟩
  pending := ⟨[], fun _ => -1⟩
  table _ := none

end State

def schedulerSetChannelState (s : State α) (c : α) (newState : SchedState) : State α :=
  s.setChan c { s.chan c with schedulerState := newState }

variable (compare : α → α → Int) (s : State α) (c : α)

/-- A channel becomes pending; one with a position already is a bug, which is logged. -/
def makePending : State α :=
  let s := schedulerSetChannelState s c .SCHED_CHAN_PENDING
  if s.pending.idx c ≠ -1 then s else { s with pending := smartlistPqueueAdd compare s.pending c }

/-- None is a failed assertion. -/
def schedulerChannelDoesntWantWrites : Option (State α) :=
  match s.state c with
  | .SCHED_CHAN_PENDING =>
    (smartlistPqueueRemove compare s.pending c).map fun pending =>
      schedulerSetChannelState { s with pending } c .SCHED_CHAN_WAITING_TO_WRITE
  | .SCHED_CHAN_WAITING_FOR_CELLS => some (schedulerSetChannelState s c .SCHED_CHAN_IDLE)
  | _ => some s

def schedulerChannelHasWaitingCells : State α :=
  match s.state c with
  | .SCHED_CHAN_WAITING_FOR_CELLS => makePending compare s c
  | .SCHED_CHAN_IDLE => schedulerSetChannelState s c .SCHED_CHAN_WAITING_TO_WRITE
  | _ => s

/-- The socket table's entry goes with `kist_on_channel_free_fn`. -/
def schedulerReleaseChannel : Option (State α) :=
  (if s.pending.idx c ≠ -1 then smartlistPqueueRemove compare s.pending c else some s.pending).map fun pending =>
    schedulerSetChannelState { s with pending, table := Function.update s.table c none } c .SCHED_CHAN_IDLE

def schedulerChannelWantsWrites : State α :=
  match s.state c with
  | .SCHED_CHAN_WAITING_TO_WRITE => makePending compare s c
  | .SCHED_CHAN_IDLE => schedulerSetChannelState s c .SCHED_CHAN_WAITING_FOR_CELLS
  | _ => s

/-! ## One channel at a time -/

/-- Positions are right before and after, and for all channels but one nothing changes. -/
structure Touches (c : α) (s s' : State α) : Prop where
  placed : Placed s'.pending
  chan : ∀ x, x ≠ c → s'.chan x = s.chan x
  table : ∀ x, x ≠ c → s'.table x = s.table x
  pending : ∀ x, x ≠ c → (x ∈ s'.pending.list ↔ x ∈ s.pending.list)

namespace Touches

variable {c : α} {s s' s'' : State α}

omit [DecidableEq α] in
theorem refl (hs : Placed s.pending) (c : α) : Touches c s s := ⟨hs, fun _ _ => rfl, fun _ _ => rfl, fun _ _ => .rfl⟩

omit [DecidableEq α] in
theorem trans (h : Touches c s s') (h' : Touches c s' s'') : Touches c s s'' where
  placed := h'.placed
  chan x hx := (h'.chan x hx).trans (h.chan x hx)
  table x hx := (h'.table x hx).trans (h.table x hx)
  pending x hx := (h'.pending x hx).trans (h.pending x hx)

end Touches

section
variable (compare : α → α → Int) {s : State α} (c : α)

theorem setChan_touches (hs : Placed s.pending) (ch : Channel) : Touches c s (s.setChan c ch) where
  placed := hs
  chan _ hx := Function.update_of_ne hx ..
  table _ _ := rfl
  pending _ _ := .rfl

theorem setState_touches (hs : Placed s.pending) (newState : SchedState) : Touches c s (schedulerSetChannelState s c newState) :=
  setChan_touches c hs _

@[simp] theorem setChan_same (s : State α) (c : α) (ch : Channel) : (s.setChan c ch).chan c = ch := Function.update_self ..

@[simp] theorem setState_same (s : State α) (c : α) (newState : SchedState) :
    (schedulerSetChannelState s c newState).chan c = { s.chan c with schedulerState := newState } := Function.update_self ..

theorem makePending_touches (hs : Placed s.pending) : Touches c s (makePending compare s c) := by
  unfold makePending
  simp only
  split
  · exact setState_touches c hs _
  next hidx =>
    have hnew : c ∉ s.pending.list := (hs.idx_eq_neg_iff c).mp (not_not.mp hidx)
    obtain ⟨hplaced, hperm⟩ := smartlistPqueueAdd_spec compare hs hnew
    refine ⟨hplaced, (setState_touches c hs _).chan, fun _ _ => rfl, fun x hx => ?_⟩
    exact hperm.mem_iff.trans (List.mem_cons.trans (or_iff_right hx))

theorem makePending_self (hs : Placed s.pending) (hnew : c ∉ s.pending.list) :
    (makePending compare s c).chan c = { s.chan c with schedulerState := .SCHED_CHAN_PENDING } ∧
    (makePending compare s c).table c = s.table c ∧ (makePending compare s c).pending.list.Perm (c :: s.pending.list) := by
  have hidx : ¬ (schedulerSetChannelState s c .SCHED_CHAN_PENDING).pending.idx c ≠ -1 := not_not.mpr (hs.outside c hnew)
  have hmake : makePending compare s c = { schedulerSetChannelState s c .SCHED_CHAN_PENDING with
      pending := smartlistPqueueAdd compare s.pending c } := if_neg hidx
  rw [hmake]
  exact ⟨setState_same .., rfl, (smartlistPqueueAdd_spec compare hs hnew).2⟩

/-- A channel that goes is in the heap no more, whether it was or not. -/
theorem schedulerReleaseChannel_spec (hs : Placed s.pending) :
    ∃ s', schedulerReleaseChannel compare s c = some s' ∧ Touches c s s' ∧ c ∉ s'.pending.list ∧
      s'.chan c = { s.chan c with schedulerState := .SCHED_CHAN_IDLE } ∧
      (s'.pending.list = s.pending.list ∨ s.pending.list.Perm (c :: s'.pending.list)) := by
  unfold schedulerReleaseChannel
  by_cases hidx : s.pending.idx c = -1
  · rw [if_neg (not_not.mpr hidx)]
    refine ⟨_, rfl, ⟨hs, fun x hx => Function.update_of_ne hx .., fun x hx => Function.update_of_ne hx .., fun _ _ => .rfl⟩,
      (hs.idx_eq_neg_iff c).mp hidx, Function.update_self .., .inl rfl⟩
  · have hmem : c ∈ s.pending.list := Decidable.not_not.mp fun hnot => hidx (hs.outside c hnot)
    obtain ⟨pending, hremove, hplaced, hperm⟩ := smartlistPqueueRemove_spec compare hs hmem
    have hnodup := List.nodup_cons.mp (hperm.nodup_iff.mp hs.nodup)
    rw [if_pos hidx, hremove]
    refine ⟨_, rfl, ⟨hplaced, fun x hx => Function.update_of_ne hx .., fun x hx => Function.update_of_ne hx .., fun x hx => ?_⟩,
      hnodup.1, Function.update_self .., .inr hperm⟩
    exact ((hperm.mem_iff.trans List.mem_cons).trans (or_iff_right hx)).symm

end

/-! ## The invariant -/

/-- A channel is in `channels_pending`, once and at its position, exactly if its state is pending. -/
structure Tracked (s : State α) : Prop where
  placed : Placed s.pending
  pending : ∀ c, s.state c = .SCHED_CHAN_PENDING ↔ c ∈ s.pending.list

section
variable (compare : α → α → Int) {s s' : State α} {c : α}

omit [DecidableEq α] in
/-- After a call it is enough to look at the channel it was about. -/
theorem Touches.tracked (h : Touches c s s') (hs : Tracked s) (hc : s'.state c = .SCHED_CHAN_PENDING ↔ c ∈ s'.pending.list) :
    Tracked s' := by
  refine ⟨h.placed, fun x => ?_⟩
  by_cases hx : x = c
  · rw [hx]
    exact hc
  · rw [State.state, h.chan x hx, h.pending x hx]
    exact hs.pending x

theorem setState_tracked (hs : Tracked s) (hout : c ∉ s.pending.list) {newState : SchedState}
    (hne : newState ≠ .SCHED_CHAN_PENDING) : Tracked (schedulerSetChannelState s c newState) := by
  refine (setState_touches c hs.placed newState).tracked hs ⟨fun h => ?_, fun h => absurd h hout⟩
  rw [State.state, setState_same] at h
  exact absurd h hne

theorem makePending_tracked (hs : Tracked s) (hstate : s.state c ≠ .SCHED_CHAN_PENDING) :
    Tracked (makePending compare s c) := by
  have hnew : c ∉ s.pending.list := fun h => hstate ((hs.pending c).mpr h)
  obtain ⟨hchan, -, hperm⟩ := makePending_self compare c hs.placed hnew
  refine (makePending_touches compare c hs.placed).tracked hs ⟨fun _ => hperm.mem_iff.mpr List.mem_cons_self, fun _ => ?_⟩
  rw [State.state, hchan]

theorem schedulerChannelWantsWrites_tracked (hs : Tracked s) : Tracked (schedulerChannelWantsWrites compare s c) := by
  unfold schedulerChannelWantsWrites
  split
  next h => exact makePending_tracked compare hs (by rw [h]; nofun)
  next h => exact setState_tracked hs (fun hmem => absurd ((hs.pending c).mpr hmem) (by rw [h]; nofun)) nofun
  next => exact hs

theorem schedulerChannelHasWaitingCells_tracked (hs : Tracked s) : Tracked (schedulerChannelHasWaitingCells compare s c) := by
  unfold schedulerChannelHasWaitingCells
  split
  next h => exact makePending_tracked compare hs (by rw [h]; nofun)
  next h => exact setState_tracked hs (fun hmem => absurd ((hs.pending c).mpr hmem) (by rw [h]; nofun)) nofun
  next => exact hs

theorem schedulerChannelDoesntWantWrites_tracked (hs : Tracked s) (c : α) :
    ∃ s', schedulerChannelDoesntWantWrites compare s c = some s' ∧ Tracked s' := by
  unfold schedulerChannelDoesntWantWrites
  split
  next h =>
    obtain ⟨pending, hremove, hplaced, hperm⟩ := smartlistPqueueRemove_spec compare hs.placed ((hs.pending c).mp h)
    have hnodup := List.nodup_cons.mp (hperm.nodup_iff.mp hs.placed.nodup)
    rw [hremove]
    refine ⟨_, rfl, ?_⟩
    have htouches : Touches c s { s with pending } :=
      ⟨hplaced, fun _ _ => rfl, fun _ _ => rfl,
        fun x hx => ((hperm.mem_iff.trans List.mem_cons).trans (or_iff_right hx)).symm⟩
    refine (htouches.trans (setState_touches c hplaced _)).tracked hs ⟨fun h => ?_, fun h => absurd h hnodup.1⟩
    rw [State.state, setState_same] at h
    cases h
  next h => exact ⟨_, rfl, setState_tracked hs (fun hmem => absurd ((hs.pending c).mpr hmem) (by rw [h]; nofun)) nofun⟩
  next => exact ⟨s, rfl, hs⟩

theorem schedulerReleaseChannel_tracked (hs : Tracked s) (c : α) :
    ∃ s', schedulerReleaseChannel compare s c = some s' ∧ Tracked s' := by
  obtain ⟨s', hrelease, htouches, hout, hchan, -⟩ := schedulerReleaseChannel_spec compare c hs.placed
  refine ⟨s', hrelease, htouches.tracked hs ⟨fun h => ?_, fun h => absurd h hout⟩⟩
  rw [State.state, hchan] at h
  cases h

end

end Badnet.Sched

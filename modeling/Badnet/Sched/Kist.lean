/-
  Badnet.Sched.Kist — a run of the KIST scheduler (`core/or/scheduler_kist.c`).

  The loop takes the best channel off `channels_pending` while its state still says pending, flushes one cell of it if
  the limit of its socket allows, and puts the channel back, sets it aside until the loop is over, or lets it go. A
  flush or a write to the kernel may close the channel, which releases it in the middle of the run: all that is in the
  `Turn`s of a run and may be anything. The run has a number of turns it may take at most.
-/

import Badnet.Sched.Scheduler

namespace Badnet.Sched

open Container

variable {α : Type} [DecidableEq α]

/-! ## The socket table -/

def CELL_MAX_NETWORK_SIZE : Nat := 514

def TLS_PER_CELL_OVERHEAD : Nat := 29

/-- The bytes that a cell takes. -/
abbrev cellBytes : Nat := CELL_MAX_NETWORK_SIZE + TLS_PER_CELL_OVERHEAD

/-- The difference is one of unsigned numbers, read as a signed one and divided towards zero. -/
def kistLimitSpace (ent : SocketEnt) : Int := (ent.limit - ent.written).toBitVec.toInt.tdiv cellBytes

/-- Without an entry KIST does not limit the socket. -/
def socketCanWrite (s : State α) (c : α) : Bool :=
  match s.table c with
  | none => true
  | some ent => decide (kistLimitSpace ent > 0)

def updateSocketWritten (s : State α) (c : α) (bytes : Nat) : State α :=
  match s.table c with
  | none => s
  | some ent => { s with table := Function.update s.table c (some { ent with written := ent.written + UInt64.ofNat bytes }) }

/-- `init_socket_info` and `update_socket_info`, with what the kernel gives as the limit. -/
def initSocketInfo (limit : α → UInt64) (s : State α) (c : α) : State α :=
  { s with table := Function.update s.table c (some { limit := limit c, written := 0 }) }

/-! ## The lower layers -/

/-- What flushing one cell of an open channel does: a cell goes, or the channel is closed, with or without having
flushed one and with any number of cells left. -/
inductive FlushResult where
  | flushes
  | closes (flushed : Bool) (numCells : Nat)

/-- What a write of an open channel's outbuf does: nothing to the scheduler, or the channel wants writes, or the
channel is closed. -/
inductive WriteResult where
  | nothing
  | flushedSome
  | closes (numCells : Nat)

variable (compare : α → α → Int) (s : State α) (c : α)

/-- A channel is closed and the scheduler told so. -/
def closeChannel (numCells : Nat) : Option (State α) :=
  schedulerReleaseChannel compare (s.setChan c { s.chan c with isOpen := false, numCells }) c

/-- The number of cells flushed, of one asked for. -/
def channelFlushSomeCells (result : FlushResult) : Option (Nat × State α) :=
  let ch := s.chan c
  if !ch.isOpen then some (0, s)
  else
    match result with
    | .flushes => if ch.numCells > 0 then some (1, s.setChan c { ch with numCells := ch.numCells - 1 }) else some (0, s)
    | .closes flushed numCells => (closeChannel compare s c numCells).map (flushed.toNat, ·)

/-- A connection that is marked for close is not written to. -/
def channelWriteToKernel (result : WriteResult) : Option (State α) :=
  if !(s.chan c).isOpen then some s
  else
    match result with
    | .nothing => some s
    | .flushedSome => some (schedulerChannelWantsWrites compare s c)
    | .closes numCells => closeChannel compare s c numCells

def channelMoreToFlush : Bool := decide ((s.chan c).numCells > 0)

/-! ## The loop -/

/-- What a turn meets: the order of the channels, whether the outbuf of the channel before holds more than eight
cells, and what writing that outbuf and flushing a cell do. -/
structure Turn (α : Type) where
  compare : α → α → Int
  shouldWrite : Bool
  write : WriteResult
  flush : FlushResult

/-- The variables of the loop, and how many cells were flushed on each channel. -/
structure RunState (α : Type) where
  sched : State α
  prevChan : Option α
  outbufTable : List α
  toReadd : List α
  flushed : α → Nat

def outbufTableAdd (table : List α) (c : α) : List α := if c ∈ table then table else c :: table

variable (turn : Turn α) (r : RunState α)

/-- The channel before may be written to the kernel when the loop goes on to another. -/
def switchTo (c : α) : Option (RunState α) :=
  let prev := r.prevChan.getD c
  let r := { r with outbufTable := outbufTableAdd r.outbufTable c, prevChan := some c }
  if prev = c then some r
  else
    let r := { r with outbufTable := outbufTableAdd r.outbufTable prev }
    if turn.shouldWrite then
      (channelWriteToKernel turn.compare r.sched prev turn.write).map fun sched =>
        { r with sched, outbufTable := r.outbufTable.erase prev }
    else some r

/-- What to do with a channel after it was served. -/
def decideOn (c : α) : RunState α :=
  if !channelMoreToFlush r.sched c && !socketCanWrite r.sched c then
    { r with sched := schedulerSetChannelState r.sched c .SCHED_CHAN_WAITING_FOR_CELLS }
  else if !channelMoreToFlush r.sched c then
    { r with sched := schedulerSetChannelState r.sched c .SCHED_CHAN_WAITING_FOR_CELLS }
  else if !socketCanWrite r.sched c then { r with toReadd := r.toReadd ++ [c] }
  else { r with sched := makePending compare r.sched c }

/-- A channel is served: the rest of the loop's body, with the socket's limit not hit yet. -/
def serve (c : α) : Option (RunState α) :=
  match channelFlushSomeCells turn.compare r.sched c turn.flush with
  | none => none
  | some (flushResult, sched) =>
    let r := { r with sched, flushed := Function.update r.flushed c (r.flushed c + flushResult) }
    if !(sched.chan c).isOpen then some { r with sched := schedulerSetChannelState sched c .SCHED_CHAN_IDLE }
    else if flushResult > 0 then
      some (decideOn turn.compare { r with sched := updateSocketWritten sched c (flushResult * cellBytes) } c)
    else some { r with sched := schedulerSetChannelState sched c .SCHED_CHAN_WAITING_FOR_CELLS }

def kistTurn : Option (RunState α) :=
  match smartlistPqueuePop turn.compare r.sched.pending with
  | none => none
  | some (c, pending) =>
    match switchTo turn { r with sched := { r.sched with pending } } c with
    | none => none
    | some r => if socketCanWrite r.sched c then serve turn r c else some (decideOn turn.compare r c)

def kistLoop (turn : Nat → Turn α) : Nat → Nat → RunState α → Option (RunState α)
  | fuel, n, r =>
    if r.sched.pending.list = [] then some r
    else
      match fuel with
      | 0 => none
      | fuel + 1 => (kistTurn (turn n) r).bind (kistLoop turn fuel (n + 1))

/-! ## The run -/

/-- What a run meets: the limits, the turns, and the writes at the end, in the order of a hash table. -/
structure RunEnv (α : Type) where
  limit : α → UInt64
  turn : Nat → Turn α
  order : List α → List α
  order_perm : ∀ table, (order table).Perm table
  lastWrite : α → WriteResult
  compare : α → α → Int

def kistStart (env : RunEnv α) (s : State α) : RunState α where
  sched := s.pending.list.foldl (initSocketInfo env.limit) s
  prevChan := none
  outbufTable := []
  toReadd := []
  flushed _ := 0

def lastWrites (env : RunEnv α) (s : State α) : List α → Option (State α)
  | [] => some s
  | c :: table => (channelWriteToKernel env.compare s c (env.lastWrite c)).bind (lastWrites env · table)

/-- A channel that was set aside is pending again. -/
def readd : State α :=
  let s := schedulerSetChannelState s c .SCHED_CHAN_PENDING
  if c ∈ s.pending.list then s
  else if s.pending.idx c ≠ -1 then s
  else { s with pending := smartlistPqueueAdd compare s.pending c }

/-- The state after a run of at most `fuel` turns, and the cells flushed on each channel in it. -/
def kistSchedulerRun (env : RunEnv α) (fuel : Nat) (s : State α) : Option (State α × (α → Nat)) :=
  match kistLoop env.turn fuel 0 (kistStart env s) with
  | none => none
  | some r =>
    (lastWrites env r.sched (env.order r.outbufTable)).map fun s => (r.toReadd.foldl (readd env.compare) s, r.flushed)

end Badnet.Sched

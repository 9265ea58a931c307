/-
  Badnet.Buf.Buffers — the chunked byte buffers of src/lib/buf/buffers.c.

  A `buf_t` is a list of chunks that carry the address they were allocated at, and `tail` is one of those addresses, so
  the code's pointer comparisons and its writes through `tail` keep their meaning. `none` is a failed `tor_assert`.
  Memory that `tor_malloc` leaves uninitialised is zero here; no operation reads it before it is written.
-/

import Mathlib.Algebra.Ring.Nat
import Mathlib.Data.List.Basic

namespace Badnet.Buffers

/-! ## Sizes -/

/-- CHUNK_OVERHEAD on a 64-bit host: five pointer-sized fields, the timestamp, and the four sentinel bytes. -/
def chunkOverhead : Nat := 48

def chunkAllocSize (memlen : Nat) : Nat := chunkOverhead + memlen

def chunkSizeWithAlloc (alloc : Nat) : Nat := alloc - chunkOverhead

def minChunkAlloc : Nat := 256

def maxChunkAlloc : Nat := 65536

/-- BUF_MAX_LEN, `INT_MAX - 1`. -/
def bufMaxLen : Nat := 2147483646

/-- SIZE_T_CEILING, `SSIZE_MAX - 16`. -/
def sizeTCeiling : Nat := 2 ^ 63 - 1 - 16

/-- The loop `while (CHUNK_SIZE_WITH_ALLOC(sz) < target) sz <<= 1`. Eight turns take MIN_CHUNK_ALLOC to
    MAX_CHUNK_ALLOC, and the caller has a target below that. -/
def doubleUntil (target : Nat) : Nat → Nat → Nat
  | 0, sz => sz
  | turns + 1, sz => if chunkSizeWithAlloc sz < target then doubleUntil target turns (sz <<< 1) else sz

def bufPreferredChunkSize (target : Nat) : Option Nat :=
  if target ≤ sizeTCeiling - chunkOverhead then
    if maxChunkAlloc ≤ chunkAllocSize target then some (chunkAllocSize target)
    else some (doubleUntil target 8 minChunkAlloc)
  else none

/-! ## Chunks and buffers -/

/-- `chunk_t`: `data` is the offset of the first stored byte in `mem`, and `memlen` is the length of `mem`. -/
structure Chunk where
  addr : Nat
  datalen : Nat
  dbgAlloc : Nat
  data : Nat
  mem : List UInt8
deriving DecidableEq, Repr

/-- `buf_t`: `head` is the first chunk of the list, NULL when it is empty. -/
structure Buf where
  datalen : Nat
  defaultChunkSize : Nat
  chunks : List Chunk
  tail : Option Nat
deriving DecidableEq, Repr

/-- The allocator: the next address `tor_malloc` hands out, and `total_bytes_allocated_in_chunks`. -/
structure Heap where
  next : Nat
  total : Nat
deriving DecidableEq, Repr

namespace Chunk

variable (c : Chunk)

def memlen : Nat := c.mem.length

/-- CHUNK_REMAINING_CAPACITY. -/
def remainingCapacity : Nat := c.memlen - (c.data + c.datalen)

/-- The `n` bytes at `data`. -/
def read (n : Nat) : List UInt8 := (c.mem.drop c.data).take n

/-- `memcpy(CHUNK_WRITE_PTR(c), bytes, n)` and `c->datalen += n`; a copy past the end of `mem` is no copy. -/
def append (bytes : List UInt8) : Option Chunk :=
  let p := c.data + c.datalen
  if p + bytes.length ≤ c.memlen then
    some { c with mem := c.mem.take p ++ bytes ++ c.mem.drop (p + bytes.length), datalen := c.datalen + bytes.length }
  else none

/-- `c->data += n` and `c->datalen -= n`. -/
def advance (n : Nat) : Chunk := { c with data := c.data + n, datalen := c.datalen - n }

end Chunk

/-- `chunk_repack`: move the stored bytes to the front of the memory. -/
def chunkRepack (c : Chunk) : Chunk :=
  if c.datalen ≠ 0 ∧ c.data ≠ 0 then
    { c with mem := c.read c.datalen ++ c.mem.drop c.datalen, data := 0 }
  else { c with data := 0 }

variable (h : Heap)

/-- `buf_chunk_free_unchecked`. -/
def bufChunkFreeUnchecked (c : Chunk) : Option Heap :=
  if chunkAllocSize c.memlen = c.dbgAlloc ∧ chunkAllocSize c.memlen ≤ h.total then
    some { h with total := h.total - chunkAllocSize c.memlen }
  else none

def chunkNewWithAllocSize (alloc : Nat) : Chunk × Heap :=
  ({ addr := h.next, datalen := 0, dbgAlloc := alloc, data := 0, mem := List.replicate (chunkSizeWithAlloc alloc) 0 },
   { next := h.next + 1, total := h.total + alloc })

/-- `chunk_grow`. `tor_realloc` may extend the block where it is (`inPlace`) or move it to a new address. -/
def chunkGrow (c : Chunk) (sz : Nat) (inPlace : Bool) : Option (Chunk × Heap) :=
  let origAlloc := chunkAllocSize c.memlen
  let newAlloc := chunkAllocSize sz
  if c.memlen < sz ∧ c.dbgAlloc = origAlloc then
    some ({ c with addr := if inPlace then c.addr else h.next, dbgAlloc := newAlloc,
                   mem := c.mem ++ List.replicate (sz - c.memlen) 0 },
          { next := h.next + 1, total := h.total + (newAlloc - origAlloc) })
  else none

namespace Buf

/-- The chunk `buf->tail` points to. -/
def tailChunk (b : Buf) : Option Chunk := b.tail.bind fun p => b.chunks.find? fun c => c.addr == p

/-- Write a chunk back at its address. -/
def setChunk (b : Buf) (c : Chunk) : Buf :=
  { b with chunks := b.chunks.map fun d => if d.addr = c.addr then c else d }

end Buf

/-- The list after `p->next = rest` for the chunk at address `p`. -/
def linkAfter (p : Nat) (rest : List Chunk) : List Chunk → List Chunk
  | [] => []
  | c :: cs => if c.addr = p then c :: rest else c :: linkAfter p rest cs

variable (b : Buf)

/-- The step `if (buf->tail) buf->tail->next = chunk; else buf->head = chunk;` and `buf->tail = chunk`. -/
def Buf.push (c : Chunk) : Buf :=
  match b.tail with
  | some p => { b with chunks := linkAfter p [c] b.chunks, tail := some c.addr }
  | none => { b with chunks := [c], tail := some c.addr }

/-! ## The operations -/

def bufNew : Buf := { datalen := 0, defaultChunkSize := 4096, chunks := [], tail := none }

def bufNewWithCapacity (size : Nat) : Option Buf := do
  let sz ← bufPreferredChunkSize size
  some { bufNew with defaultChunkSize := sz }

/-- The loop of `buf_pullup`, with `dest` the head and `rest` the chunks after it. -/
def bufPullupLoop (bytes : Nat) (h : Heap) (b : Buf) (dest : Chunk) : List Chunk → Option (Buf × Heap)
  | [] => if dest.datalen < bytes then none else some ({ b with chunks := [dest] }, h)
  | src :: rest =>
    if dest.datalen < bytes then
      let n := bytes - dest.datalen
      if src.datalen ≤ n then do
        let dest ← dest.append (src.read src.datalen)
        let b := { b with tail := if b.tail = some src.addr then some dest.addr else b.tail }
        let h ← bufChunkFreeUnchecked h src
        bufPullupLoop bytes h b dest rest
      else do
        let dest ← dest.append (src.read n)
        if dest.datalen = bytes then some ({ b with chunks := dest :: src.advance n :: rest }, h) else none
    else some ({ b with chunks := dest :: src :: rest }, h)

/-- Make room in the head chunk for `capacity` bytes: repack it, or repack and grow it. A head that moves
    takes the tail pointer with it. -/
def pullupHead (head : Chunk) (capacity : Nat) (inPlace : Bool) : Option (Buf × Chunk × Heap) :=
  if capacity ≤ head.memlen then
    let needed := capacity - head.datalen
    let head := if head.remainingCapacity < needed then chunkRepack head else head
    if needed ≤ head.remainingCapacity then some (b, head, h) else none
  else do
    let alloc ← bufPreferredChunkSize capacity
    let (newhead, h) ← chunkGrow h (chunkRepack head) (chunkSizeWithAlloc alloc) inPlace
    if capacity ≤ newhead.memlen then
      some ({ b with tail := if b.tail = some head.addr then some newhead.addr else b.tail }, newhead, h)
    else none

/-- `buf_pullup`: the buffer after it, and the bytes that `*head_out` and `*len_out` give. -/
def bufPullup (bytes : Nat) (inPlace : Bool) : Option (Buf × List UInt8 × Heap) :=
  match b.chunks with
  | [] => some (b, [], h)
  | head :: rest =>
    let bytes := if b.datalen < bytes then b.datalen else bytes
    if bytes ≤ head.datalen then some (b, head.read head.datalen, h)
    else do
      let (b, dest, h) ← pullupHead h b head bytes inPlace
      let (b, h) ← bufPullupLoop bytes h b dest rest
      let head ← b.chunks.head?
      some (b, head.read head.datalen, h)

/-- The loop of `buf_drain` over the chunks still on the list. -/
def bufDrainLoop (h : Heap) (b : Buf) : Nat → List Chunk → Option (Buf × Heap)
  | 0, chunks => some ({ b with chunks := chunks }, h)
  | _ + 1, [] => none
  | n + 1, victim :: rest =>
    if n + 1 < victim.datalen then
      some ({ b with datalen := b.datalen - (n + 1), chunks := victim.advance (n + 1) :: rest }, h)
    else do
      let b := { b with datalen := b.datalen - victim.datalen,
                        tail := if b.tail = some victim.addr then none else b.tail }
      let h ← bufChunkFreeUnchecked h victim
      bufDrainLoop h b (n + 1 - victim.datalen) rest

def bufDrain (n : Nat) : Option (Buf × Heap) :=
  if n ≤ b.datalen then bufDrainLoop h b n b.chunks else none

/-- The frees of `buf_clear`. -/
def freeAll (h : Heap) : List Chunk → Option Heap
  | [] => some h
  | c :: cs => do
    let h ← bufChunkFreeUnchecked h c
    freeAll h cs

def bufClear : Option (Buf × Heap) := do
  let h ← freeAll h b.chunks
  some ({ b with datalen := 0, chunks := [], tail := none }, h)

def chunkCopy (c : Chunk) : Chunk × Heap :=
  ({ c with addr := h.next, dbgAlloc := chunkAllocSize c.memlen },
   { next := h.next + 1, total := h.total + chunkAllocSize c.memlen })

def bufCopyLoop (h : Heap) (out : Buf) : List Chunk → Buf × Heap
  | [] => (out, h)
  | ch :: rest =>
    let (newch, h) := chunkCopy h ch
    bufCopyLoop h (out.push newch) rest

def bufCopy : Buf × Heap :=
  let (out, h) := bufCopyLoop h { bufNew with defaultChunkSize := b.defaultChunkSize } b.chunks
  ({ out with datalen := b.datalen }, h)

/-- The allocation size that `buf_add_chunk_with_capacity` picks. -/
def newChunkAlloc (capacity : Nat) (capped : Bool) : Option Nat :=
  if chunkAllocSize capacity < b.defaultChunkSize then some b.defaultChunkSize
  else if capped ∧ maxChunkAlloc < chunkAllocSize capacity then some maxChunkAlloc
  else bufPreferredChunkSize capacity

/-- `buf_add_chunk_with_capacity`. The assertions before the push say that head and tail are both NULL or
    both not. -/
def bufAddChunkWithCapacity (capacity : Nat) (capped : Bool) : Option (Buf × Heap) := do
  let alloc ← newChunkAlloc b capacity capped
  let (chunk, h) := chunkNewWithAllocSize h alloc
  if b.tail.isSome = !b.chunks.isEmpty then some (b.push chunk, h) else none

variable (stringLen : Nat)

/-- The test at the top of the loop of `buf_add`: a new chunk when there is no tail or no room in it. -/
def tailWithRoom : Option (Buf × Heap) :=
  match b.tailChunk with
  | none => bufAddChunkWithCapacity h b stringLen true
  | some t => if t.remainingCapacity = 0 then bufAddChunkWithCapacity h b stringLen true else some (b, h)

/-- The loop of `buf_add`. Each turn copies at least one byte, so as many turns as bytes are enough. -/
def bufAddLoop : Nat → Heap → Buf → List UInt8 → Option (Buf × Heap)
  | _, h, b, [] => some (b, h)
  | 0, _, _, _ :: _ => none
  | turns + 1, h, b, string@(_ :: _) => do
    let (b, h) ← tailWithRoom h b string.length
    let tail ← b.tailChunk
    let copy := min tail.remainingCapacity string.length
    let tail ← tail.append (string.take copy)
    bufAddLoop turns h { b.setChunk tail with datalen := b.datalen + copy } (string.drop copy)

/-- `buf_add`: the answer is the new length, or -1 with the buffer as it was. `BUF_MAX_LEN - string_len` is a
    `size_t`. -/
def bufAdd (string : List UInt8) : Option (Buf × Int × Heap) :=
  if string.length = 0 then some (b, b.datalen, h)
  else if bufMaxLen < b.datalen then some (b, -1, h)
  else if (bufMaxLen + 2 ^ 64 - string.length) % 2 ^ 64 < b.datalen then some (b, -1, h)
  else do
    let (b, h) ← bufAddLoop string.length h b string
    if b.datalen ≤ bufMaxLen then some (b, b.datalen, h) else none

def bufPeekLoop : Nat → List Chunk → Option (List UInt8)
  | 0, _ => some []
  | _ + 1, [] => none
  | n + 1, chunk :: rest => do
    let copy := min chunk.datalen (n + 1)
    let more ← bufPeekLoop (n + 1 - copy) rest
    some (chunk.read copy ++ more)

def bufPeek : Option (List UInt8) :=
  if stringLen ≤ b.datalen then bufPeekLoop stringLen b.chunks else none

def bufGetBytes : Option (Buf × List UInt8 × Int × Heap) := do
  let string ← bufPeek b stringLen
  let (b, h) ← bufDrain h b stringLen
  if b.datalen ≤ bufMaxLen then some (b, string, b.datalen, h) else none

def bufFindOffsetLoop (ch : UInt8) (offset : Nat) : List Chunk → Option Nat
  | [] => none
  | chunk :: rest =>
    match (chunk.read chunk.datalen).findIdx? (· == ch) with
    | some i => some (offset + i)
    | none => bufFindOffsetLoop ch (offset + chunk.datalen) rest

def newline : UInt8 := 10

/-- `buf_get_line`: the answer, what it wrote to `data_out`, and `*data_len` after it. -/
def bufGetLine (dataLen : Nat) : Option (Buf × Int × List UInt8 × Nat × Heap) :=
  if b.chunks = [] then some (b, 0, [], dataLen, h)
  else if bufMaxLen < b.datalen then none
  else match bufFindOffsetLoop newline 0 b.chunks with
    | none => some (b, 0, [], dataLen, h)
    | some sz =>
      if dataLen < sz + 2 then some (b, -1, [], sz + 2, h)
      else do
        let (b, line, _, h) ← bufGetBytes h b (sz + 1)
        some (b, 1, line ++ [0], sz + 1, h)

/-- `buf_assert_ok`. -/
def bufAssertOk : Bool :=
  match b.chunks with
  | [] => b.tail == none && b.datalen == 0
  | _ :: _ =>
    b.tail.isSome &&
    b.chunks.all (fun ch => ch.datalen ≤ ch.memlen && ch.datalen ≤ bufMaxLen && ch.data ≤ ch.memlen &&
      ch.data + ch.datalen ≤ ch.memlen) &&
    b.chunks.getLast?.map Chunk.addr == b.tail &&
    b.datalen == (b.chunks.map Chunk.datalen).sum

/-! ## Several buffers -/

/-- The buffers of the process, each named by its position, and the allocator they share. -/
structure State where
  heap : Heap
  bufs : List Buf

variable (s : State)

def State.setBuf (i : Nat) (b : Buf) (h : Heap) : State := { heap := h, bufs := s.bufs.set i b }

/-- The loop of `buf_move_to_buf`, through the local array of 4096 bytes. Each turn moves at least one byte. -/
def bufMoveToBufLoop (out inp : Nat) : Nat → State → Nat → Option State
  | _, s, 0 => some s
  | 0, _, _ + 1 => none
  | turns + 1, s, len + 1 => do
    let n := if 4096 < len + 1 then 4096 else len + 1
    let (b, bytes, _, h) ← bufGetBytes s.heap (← s.bufs[inp]?) n
    let s := s.setBuf inp b h
    let (b, _, h) ← bufAdd s.heap (← s.bufs[out]?) bytes
    bufMoveToBufLoop out inp turns (s.setBuf out b h) (len + 1 - n)

/-- `buf_move_to_buf`: the answer and `*buf_flushlen` after it. -/
def bufMoveToBuf (out inp flushlen : Nat) : Option (State × Int × Nat) := do
  let bufOut ← s.bufs[out]?
  let bufIn ← s.bufs[inp]?
  if bufMaxLen < bufOut.datalen ∨ bufMaxLen < flushlen then some (s, -1, flushlen)
  else if bufMaxLen - flushlen < bufOut.datalen then some (s, -1, flushlen)
  else
    let cp := if bufIn.datalen < flushlen then bufIn.datalen else flushlen
    if cp ≤ bufMaxLen then do
      let s ← bufMoveToBufLoop out inp cp s cp
      some (s, cp, flushlen - cp)
    else none

/-- The list of `buf_out` once that of `buf_in` is linked behind it. -/
def takeOver (bufOut bufIn : Buf) : Option (List Chunk) :=
  match bufOut.chunks with
  | [] => some bufIn.chunks
  | _ :: _ => bufOut.tail.map fun p => linkAfter p bufIn.chunks bufOut.chunks

/-- `buf_move_all`: `buf_out` takes over the chunk list of `buf_in`, which is then emptied. -/
def bufMoveAll (out inp : Nat) : Option (State × Nat) := do
  let bufOut ← s.bufs[out]?
  let bufIn ← s.bufs[inp]?
  if bufIn.datalen = 0 then some (s, 0)
  else if bufMaxLen < bufOut.datalen ∨ bufMaxLen < bufIn.datalen then some (s, 0)
  else if bufMaxLen - bufIn.datalen < bufOut.datalen then some (s, 0)
  else do
    let chunks ← takeOver bufOut bufIn
    let s1 := s.setBuf out { bufOut with chunks := chunks, tail := bufIn.tail,
                                         datalen := bufOut.datalen + bufIn.datalen } s.heap
    let emptied ← s1.bufs[inp]?
    some (s1.setBuf inp { emptied with chunks := [], tail := none, datalen := 0 } s1.heap, bufIn.datalen)

/-- One call of the buffer interface, on buffers named by their position. -/
inductive Op where
  | new
  | newWithCapacity (size : Nat)
  | add (buf : Nat) (string : List UInt8)
  | drain (buf n : Nat)
  | getBytes (buf stringLen : Nat)
  | peek (buf stringLen : Nat)
  | pullup (buf bytes : Nat) (inPlace : Bool)
  | moveToBuf (bufOut bufIn flushlen : Nat)
  | moveAll (bufOut bufIn : Nat)
  | copy (buf : Nat)
  | getLine (buf dataLen : Nat)
  | clear (buf : Nat)
  | addChunkWithCapacity (buf capacity : Nat) (capped : Bool)
deriving DecidableEq, Repr

/-- What a call gives back: its return value, and what it wrote through its pointer arguments. -/
structure Reply where
  value : Int
  bytes : List UInt8
  len : Nat
deriving DecidableEq, Repr

def Reply.void : Reply := { value := 0, bytes := [], len := 0 }

def step : Op → Option (State × Reply)
  | .new => some ({ s with bufs := s.bufs ++ [bufNew] }, { Reply.void with value := s.bufs.length })
  | .newWithCapacity size => do
    let b ← bufNewWithCapacity size
    some ({ s with bufs := s.bufs ++ [b] }, { Reply.void with value := s.bufs.length })
  | .add i string => do
    let (b, r, h) ← bufAdd s.heap (← s.bufs[i]?) string
    some (s.setBuf i b h, { Reply.void with value := r })
  | .drain i n => do
    let (b, h) ← bufDrain s.heap (← s.bufs[i]?) n
    some (s.setBuf i b h, Reply.void)
  | .getBytes i n => do
    let (b, string, r, h) ← bufGetBytes s.heap (← s.bufs[i]?) n
    some (s.setBuf i b h, { Reply.void with value := r, bytes := string })
  | .peek i n => do
    let string ← bufPeek (← s.bufs[i]?) n
    some (s, { Reply.void with bytes := string })
  | .pullup i bytes inPlace => do
    let (b, head, h) ← bufPullup s.heap (← s.bufs[i]?) bytes inPlace
    some (s.setBuf i b h, { Reply.void with bytes := head, len := head.length })
  | .moveToBuf out inp flushlen => do
    let (s, r, flushlen) ← bufMoveToBuf s out inp flushlen
    some (s, { Reply.void with value := r, len := flushlen })
  | .moveAll out inp => do
    let (s, n) ← bufMoveAll s out inp
    some (s, { Reply.void with value := n })
  | .copy i => do
    let (b, h) := bufCopy s.heap (← s.bufs[i]?)
    some ({ heap := h, bufs := s.bufs ++ [b] }, { Reply.void with value := s.bufs.length })
  | .getLine i dataLen => do
    let (b, r, line, dataLen, h) ← bufGetLine s.heap (← s.bufs[i]?) dataLen
    some (s.setBuf i b h, { value := r, bytes := line, len := dataLen })
  | .clear i => do
    let (b, h) ← bufClear s.heap (← s.bufs[i]?)
    some (s.setBuf i b h, Reply.void)
  | .addChunkWithCapacity i capacity capped => do
    let (b, h) ← bufAddChunkWithCapacity s.heap (← s.bufs[i]?) capacity capped
    some (s.setBuf i b h, Reply.void)

end Badnet.Buffers

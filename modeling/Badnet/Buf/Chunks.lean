/-
  Badnet.Buf.Chunks — what each buffer operation does to one chunk list.

  `Linked` is the shape of a list with its tail pointer, `Frame` what an operation may do to the allocator: it keeps the
  addresses it was given or takes unused ones, and the count of allocated bytes moves by what the list gained or lost.
  Each operation has one lemma (`bufAdd_spec`, `bufDrain_spec`, ..): from a buffer that is `Ok` it runs to its end
  without a failed assertion, and it says which bytes the buffer holds then.
-/

import Badnet.Buf.Buffers
import Mathlib.Algebra.Order.BigOperators.Group.List
import Mathlib.Algebra.Order.Group.Nat
import Mathlib.Tactic.Ring

namespace Badnet.Buffers

/-! ## One chunk -/

/-- The stored bytes lie inside the memory, and the debug field has the size of the allocation. -/
structure Chunk.Ok (c : Chunk) : Prop where
  bounds : c.data + c.datalen ≤ c.memlen
  alloc : c.dbgAlloc = chunkAllocSize c.memlen

def Chunk.bytes (c : Chunk) : List UInt8 := c.read c.datalen

namespace Chunk

variable {c : Chunk}

theorem length_bytes (h : c.Ok) : c.bytes.length = c.datalen := by
  have := h.bounds
  simp only [bytes, read, List.length_take, List.length_drop]
  simp only [memlen] at this
  omega

theorem read_eq_take {n : Nat} (hn : n ≤ c.datalen) : c.read n = c.bytes.take n := by
  rw [bytes, read, read, List.take_take, Nat.min_eq_left hn]

theorem advance_ok (h : c.Ok) {n : Nat} (hn : n ≤ c.datalen) : (c.advance n).Ok := by
  refine ⟨?_, h.alloc⟩
  have := h.bounds
  simp only [advance, memlen] at *
  omega

theorem bytes_advance (n : Nat) : (c.advance n).bytes = c.bytes.drop n := by
  simp only [bytes, read, advance, List.drop_take, List.drop_drop]

theorem append_spec (h : c.Ok) (bs : List UInt8) (hb : bs.length ≤ c.remainingCapacity) :
    ∃ c', c.append bs = some c' ∧ c'.Ok ∧ c'.bytes = c.bytes ++ bs ∧ c'.addr = c.addr ∧ c'.memlen = c.memlen ∧
      c'.datalen = c.datalen + bs.length ∧ c'.remainingCapacity + bs.length = c.remainingCapacity := by
  have hbounds := h.bounds
  have hfit : c.data + c.datalen + bs.length ≤ c.memlen := by
    simp only [remainingCapacity] at hb
    omega
  have hfit' : c.data + c.datalen + bs.length ≤ c.mem.length := hfit
  have hlen : (c.mem.take (c.data + c.datalen) ++ bs ++ c.mem.drop (c.data + c.datalen + bs.length)).length
      = c.mem.length := by
    simp only [List.length_append, List.length_take, List.length_drop]
    omega
  refine ⟨_, if_pos hfit, ⟨?_, ?_⟩, ?_, rfl, hlen, rfl, ?_⟩
  · simp only [memlen, hlen]
    omega
  · simp only [memlen, hlen]
    exact h.alloc
  · simp only [bytes, read]
    rw [List.append_assoc, List.drop_append_of_le_length (by rw [List.length_take]; omega), List.drop_take,
      Nat.add_sub_cancel_left, ← List.append_assoc]
    have hl : ((c.mem.drop c.data).take c.datalen ++ bs).length = c.datalen + bs.length := by
      rw [List.length_append, List.length_take, List.length_drop]
      omega
    rw [← hl, List.take_left]
  · simp only [remainingCapacity, memlen, hlen]
    omega

end Chunk

theorem chunkRepack_spec {c : Chunk} (h : c.Ok) :
    (chunkRepack c).Ok ∧ (chunkRepack c).bytes = c.bytes ∧ (chunkRepack c).addr = c.addr ∧
      (chunkRepack c).memlen = c.memlen ∧ (chunkRepack c).datalen = c.datalen ∧ (chunkRepack c).data = 0 := by
  have hbounds := h.bounds
  have hlen := Chunk.length_bytes h
  by_cases hc : c.datalen ≠ 0 ∧ c.data ≠ 0
  · have hmem : (c.bytes ++ c.mem.drop c.datalen).length = c.mem.length := by
      rw [List.length_append, List.length_drop, hlen]
      simp only [Chunk.memlen] at hbounds
      omega
    rw [show chunkRepack c = { c with mem := c.bytes ++ c.mem.drop c.datalen, data := 0 } from if_pos hc]
    refine ⟨⟨?_, ?_⟩, ?_, rfl, hmem, rfl, rfl⟩
    · simp only [Chunk.memlen, Chunk.bytes] at *
      omega
    · simp only [Chunk.memlen, Chunk.bytes] at *
      rw [hmem]
      exact h.alloc
    · show ((c.bytes ++ c.mem.drop c.datalen).drop 0).take c.datalen = c.bytes
      rw [List.drop_zero, ← hlen, List.take_left]
  · rw [show chunkRepack c = { c with data := 0 } from if_neg hc]
    refine ⟨⟨?_, h.alloc⟩, ?_, rfl, rfl, rfl, rfl⟩
    · simp only [Chunk.memlen] at *
      omega
    · -- nothing was moved: there was nothing stored, or it was at the front already
      rcases not_and_or.mp hc with h0 | h0
      · simp [Chunk.bytes, Chunk.read, not_not.mp h0]
      · simp [Chunk.bytes, Chunk.read, not_not.mp h0]

/-! ## Chunk lists and the allocator -/

def bytesOf (cs : List Chunk) : List UInt8 := cs.flatMap Chunk.bytes

def addrsOf (cs : List Chunk) : List Nat := cs.map Chunk.addr

/-- `buf_allocation`. -/
def allocationOf (cs : List Chunk) : Nat := (cs.map fun c => chunkAllocSize c.memlen).sum

@[simp] theorem bytesOf_nil : bytesOf [] = [] := rfl
@[simp] theorem bytesOf_cons (c : Chunk) (cs : List Chunk) : bytesOf (c :: cs) = c.bytes ++ bytesOf cs := rfl
@[simp] theorem bytesOf_append (cs ds : List Chunk) : bytesOf (cs ++ ds) = bytesOf cs ++ bytesOf ds := by
  simp [bytesOf]
@[simp] theorem addrsOf_nil : addrsOf [] = [] := rfl
@[simp] theorem addrsOf_cons (c : Chunk) (cs : List Chunk) : addrsOf (c :: cs) = c.addr :: addrsOf cs := rfl
@[simp] theorem addrsOf_append (cs ds : List Chunk) : addrsOf (cs ++ ds) = addrsOf cs ++ addrsOf ds := by
  simp [addrsOf]
@[simp] theorem allocationOf_nil : allocationOf [] = 0 := rfl
@[simp] theorem allocationOf_cons (c : Chunk) (cs : List Chunk) :
    allocationOf (c :: cs) = chunkAllocSize c.memlen + allocationOf cs := rfl
@[simp] theorem allocationOf_append (cs ds : List Chunk) :
    allocationOf (cs ++ ds) = allocationOf cs + allocationOf ds := by
  simp [allocationOf]

/-- A chunk list as an operation finds it: chunks in bounds, at distinct addresses, the tail at the last. -/
structure Linked (cs : List Chunk) (tail : Option Nat) : Prop where
  ok : ∀ c ∈ cs, c.Ok
  nodup : (addrsOf cs).Nodup
  tail : tail = (addrsOf cs).getLast?

/-- The allocator knows the chunks: their addresses are used and their bytes are counted. -/
structure Covers (h : Heap) (cs : List Chunk) : Prop where
  fresh : ∀ p ∈ addrsOf cs, p < h.next
  total : allocationOf cs ≤ h.total

/-- An operation that turned the list `cs` into `ds` took only unused addresses, and counted every byte. -/
structure Frame (h h' : Heap) (cs ds : List Chunk) : Prop where
  next : h.next ≤ h'.next
  addrs : ∀ p ∈ addrsOf ds, p ∈ addrsOf cs ∨ (h.next ≤ p ∧ p < h'.next)
  total : h'.total + allocationOf cs = h.total + allocationOf ds

section Lists

variable {h h' h'' : Heap} {c d : Chunk} {cs ds es : List Chunk} {tail : Option Nat}

theorem Frame.refl (h : Heap) (cs : List Chunk) : Frame h h cs cs :=
  ⟨Nat.le_refl _, fun _ hp => .inl hp, rfl⟩

theorem Frame.trans (h1 : Frame h h' cs ds) (h2 : Frame h' h'' ds es) : Frame h h'' cs es := by
  have hn := h1.next
  have hn' := h2.next
  have ht := h1.total
  have ht' := h2.total
  refine ⟨by omega, fun p hp => ?_, by omega⟩
  rcases h2.addrs p hp with hd | hd
  · rcases h1.addrs p hd with hc | hc
    · exact .inl hc
    · exact .inr ⟨hc.1, by omega⟩
  · exact .inr ⟨by omega, hd.2⟩

theorem Frame.covers (hf : Frame h h' cs ds) (hc : Covers h cs) : Covers h' ds := by
  have hn := hf.next
  have ht := hf.total
  have htc := hc.total
  refine ⟨fun p hp => ?_, by omega⟩
  rcases hf.addrs p hp with hm | hm
  · exact Nat.lt_of_lt_of_le (hc.fresh p hm) hn
  · exact hm.2

/-- A chunk changed in place, at its address and with its size. -/
theorem Frame.replace (h : Heap) (cs ds : List Chunk) (ha : d.addr = c.addr) (hm : d.memlen = c.memlen) :
    Frame h h (cs ++ c :: ds) (cs ++ d :: ds) := by
  refine ⟨Nat.le_refl _, fun p hp => .inl ?_, ?_⟩
  · simpa [ha] using hp
  · simp [hm]

theorem length_bytesOf (hok : ∀ c ∈ cs, c.Ok) : (bytesOf cs).length = (cs.map Chunk.datalen).sum := by
  rw [bytesOf, List.length_flatMap]
  congr 1
  exact List.map_congr_left fun c hc => Chunk.length_bytes (hok c hc)

namespace Linked

theorem nil : Linked [] none := ⟨by simp, by simp, rfl⟩

theorem head (hl : Linked (c :: cs) tail) : c.Ok := hl.ok c List.mem_cons_self

/-- The list without its first chunk, and the tail pointer as the code leaves it. -/
theorem rest (hl : Linked (c :: cs) tail) : Linked cs (if tail = some c.addr then none else tail) := by
  have hnd := List.nodup_cons.mp hl.nodup
  refine ⟨fun d hd => hl.ok d (List.mem_cons_of_mem _ hd), hnd.2, ?_⟩
  have ht := hl.tail
  rcases hcs : (addrsOf cs).getLast? with _ | p
  · rw [List.getLast?_eq_none_iff] at hcs
    rw [addrsOf_cons, hcs] at ht
    simp [ht]
  · rw [addrsOf_cons, List.getLast?_cons, hcs] at ht
    have hp : p ∈ addrsOf cs := List.mem_of_getLast? hcs
    have hne : p ≠ c.addr := fun he => hnd.1 (he ▸ hp)
    simp [ht, hne]

theorem exists_last (hl : Linked cs tail) (h0 : cs ≠ []) :
    ∃ init last, cs = init ++ [last] ∧ tail = some last.addr ∧ last.Ok ∧ last.addr ∉ addrsOf init := by
  obtain ⟨init, last, rfl⟩ := List.eq_nil_or_concat cs |>.resolve_left h0
  rw [List.concat_eq_append] at *
  refine ⟨init, last, rfl, by simpa using hl.tail, hl.ok last (by simp), ?_⟩
  have hnd := hl.nodup
  rw [addrsOf_append, List.nodup_append] at hnd
  intro hm
  exact hnd.2.2 _ hm last.addr (by simp) rfl

theorem tail_eq_none_iff (hl : Linked cs tail) : tail = none ↔ cs = [] := by
  rw [hl.tail, List.getLast?_eq_none_iff]
  simp [addrsOf]

end Linked

end Lists

/-! ## One buffer -/

/-- The invariant of a buffer: what `buf_assert_ok` checks, distinct addresses, and the bounds on sizes. -/
structure Buf.Ok (b : Buf) : Prop where
  linked : Linked b.chunks b.tail
  datalen : b.datalen = (bytesOf b.chunks).length
  max : b.datalen ≤ bufMaxLen
  chunkSize : chunkOverhead ≤ b.defaultChunkSize

/-- An operation took the buffer `b` to `b'`, which is whole and holds `q`. -/
structure Becomes (h h' : Heap) (b b' : Buf) (q : List UInt8) : Prop where
  ok : b'.Ok
  frame : Frame h h' b.chunks b'.chunks
  contents : bytesOf b'.chunks = q

variable {h h' h'' : Heap} {b b' b'' : Buf} {c : Chunk} {cs : List Chunk}

theorem Becomes.refl (hb : b.Ok) (h : Heap) : Becomes h h b b (bytesOf b.chunks) := ⟨hb, Frame.refl h b.chunks, rfl⟩

theorem bufAssertOk_of_ok (hb : b.Ok) : bufAssertOk b = true := by
  have hlen := length_bytesOf hb.linked.ok
  have hd := hb.datalen
  have hmax := hb.max
  rcases hcs : b.chunks with _ | ⟨c, cs⟩
  · have ht := (hb.linked.tail_eq_none_iff).mpr hcs
    rw [hcs] at hd
    simp [bufAssertOk, hcs, ht, hd]
  · have ht := hb.linked.tail
    have hall : ∀ ch ∈ b.chunks, ch.datalen ≤ ch.memlen ∧ ch.datalen ≤ bufMaxLen ∧ ch.data ≤ ch.memlen ∧
        ch.data + ch.datalen ≤ ch.memlen := by
      intro ch hch
      have hbounds := (hb.linked.ok ch hch).bounds
      have hle : ch.datalen ≤ (b.chunks.map Chunk.datalen).sum := List.le_sum_of_mem (List.mem_map_of_mem hch)
      omega
    have hsome : b.tail.isSome := by
      rw [Option.isSome_iff_ne_none]
      intro hn
      rw [hb.linked.tail_eq_none_iff.mp hn] at hcs
      cases hcs
    simp only [bufAssertOk, hcs] at *
    simp only [Bool.and_eq_true, List.all_eq_true, beq_iff_eq, decide_eq_true_eq]
    refine ⟨⟨⟨hsome, fun ch hch => ?_⟩, ?_⟩, by omega⟩
    · obtain ⟨h1, h2, h3, h4⟩ := hall ch hch
      exact ⟨⟨⟨h1, h2⟩, h3⟩, h4⟩
    · rw [ht, addrsOf, List.getLast?_map]

theorem bufChunkFreeUnchecked_spec (hc : c.Ok) (ht : chunkAllocSize c.memlen ≤ h.total) :
    ∃ h', bufChunkFreeUnchecked h c = some h' ∧ h'.next = h.next ∧ h'.total + chunkAllocSize c.memlen = h.total := by
  refine ⟨_, if_pos ⟨hc.alloc.symm, ht⟩, rfl, ?_⟩
  simp only
  omega

/-! ## Drain, peek and clear -/

theorem bufDrainLoop_spec (cs : List Chunk) : ∀ (h : Heap) (b : Buf) (n : Nat), ({ b with chunks := cs } : Buf).Ok →
    Covers h cs → n ≤ (bytesOf cs).length →
    ∃ b' h', bufDrainLoop h b n cs = some (b', h') ∧
      Becomes h h' { b with chunks := cs } b' ((bytesOf cs).drop n) := by
  induction cs with
  | nil =>
    intro h b n hb hc hn
    obtain rfl : n = 0 := by simpa using hn
    exact ⟨_, _, by simp [bufDrainLoop], Becomes.refl hb h⟩
  | cons c cs ih =>
    intro h b n hb hc hn
    rcases n with _ | n
    · exact ⟨_, _, by simp [bufDrainLoop], Becomes.refl hb h⟩
    have hok := hb.linked.head
    have hlen := Chunk.length_bytes hok
    have hd := hb.datalen
    have hmax := hb.max
    rw [bytesOf_cons, List.length_append] at hn
    simp only [bytesOf_cons, List.length_append] at hd
    by_cases hlt : n + 1 < c.datalen
    · -- the rest of the bytes to drop lies inside the first chunk
      refine ⟨{ b with datalen := b.datalen - (n + 1), chunks := c.advance (n + 1) :: cs }, h,
        by rw [bufDrainLoop, if_pos hlt], ⟨⟨?_, ?_, ?_, hb.chunkSize⟩, ?_, ?_⟩⟩
      · refine ⟨?_, hb.linked.nodup, hb.linked.tail⟩
        intro d hd
        rcases List.mem_cons.mp hd with rfl | hd
        · exact Chunk.advance_ok hok hlt.le
        · exact hb.linked.ok d (List.mem_cons_of_mem _ hd)
      · simp only [bytesOf_cons, List.length_append, Chunk.bytes_advance, List.length_drop]
        omega
      · simp only at *
        omega
      · exact Frame.replace h [] cs rfl rfl
      · rw [bytesOf_cons, bytesOf_cons, Chunk.bytes_advance, List.drop_append_of_le_length (by omega)]
    · have halloc : chunkAllocSize c.memlen ≤ h.total := by
        have := hc.total
        rw [allocationOf_cons] at this
        omega
      obtain ⟨h1, hfree, hnext, htotal⟩ := bufChunkFreeUnchecked_spec hok halloc
      have hframe : Frame h h1 (c :: cs) cs := by
        refine ⟨hnext.ge, fun p hp => .inl (List.mem_cons_of_mem _ hp), ?_⟩
        rw [allocationOf_cons]
        omega
      have hrest : ({ b with
          datalen := b.datalen - c.datalen
          chunks := cs
          tail := if b.tail = some c.addr then none else b.tail } : Buf).Ok := by
        refine ⟨hb.linked.rest, ?_, ?_, hb.chunkSize⟩
        · simp only
          omega
        · simp only at *
          omega
      obtain ⟨b', h', hrun, hbec⟩ := ih h1
        { b with datalen := b.datalen - c.datalen, tail := if b.tail = some c.addr then none else b.tail }
        (n + 1 - c.datalen) hrest (hframe.covers hc) (by omega)
      refine ⟨b', h', ?_, hbec.ok, hframe.trans hbec.frame, ?_⟩
      · rw [bufDrainLoop, if_neg hlt, hfree]
        exact hrun
      · have hnil : c.bytes.drop (n + 1) = [] := List.drop_eq_nil_of_le (by omega)
        rw [hbec.contents, bytesOf_cons, List.drop_append, hnil, hlen, List.nil_append]

variable {n capacity : Nat} {init : List Chunk} {last : Chunk} {tail : Option Nat}

theorem bufDrain_spec (hb : b.Ok) (hc : Covers h b.chunks) (hn : n ≤ (bytesOf b.chunks).length) :
    ∃ b' h', bufDrain h b n = some (b', h') ∧ Becomes h h' b b' ((bytesOf b.chunks).drop n) := by
  obtain ⟨b', h', hrun, hbec⟩ := bufDrainLoop_spec b.chunks h b n hb hc hn
  exact ⟨b', h', by rw [bufDrain, if_pos (by rw [hb.datalen]; exact hn), hrun], hbec⟩

theorem bufPeekLoop_spec (hok : ∀ c ∈ cs, c.Ok) (hn : n ≤ (bytesOf cs).length) :
    bufPeekLoop n cs = some ((bytesOf cs).take n) := by
  induction cs generalizing n with
  | nil =>
    obtain rfl : n = 0 := by simpa using hn
    rfl
  | cons c cs ih =>
    rcases n with _ | n
    · rfl
    have hlen := Chunk.length_bytes (hok c List.mem_cons_self)
    rw [bytesOf_cons, List.length_append] at hn
    rw [bufPeekLoop, ih (fun d hd => hok d (List.mem_cons_of_mem _ hd)) (by omega)]
    simp only [Option.bind_eq_bind, Option.bind_some, bytesOf_cons, List.take_append, hlen]
    rw [Chunk.read_eq_take (by omega)]
    congr 2
    · rcases Nat.le_total c.datalen (n + 1) with hle | hle
      · rw [Nat.min_eq_left hle, List.take_of_length_le (by omega), List.take_of_length_le (by omega)]
      · rw [Nat.min_eq_right hle]
    · congr 1
      omega

theorem bufPeek_spec (hb : b.Ok) (hn : n ≤ (bytesOf b.chunks).length) :
    bufPeek b n = some ((bytesOf b.chunks).take n) := by
  rw [bufPeek, if_pos (by rw [hb.datalen]; exact hn), bufPeekLoop_spec hb.linked.ok hn]

theorem bufGetBytes_spec (hb : b.Ok) (hc : Covers h b.chunks) (hn : n ≤ (bytesOf b.chunks).length) :
    ∃ b' h', bufGetBytes h b n = some (b', (bytesOf b.chunks).take n, b'.datalen, h') ∧
      Becomes h h' b b' ((bytesOf b.chunks).drop n) := by
  obtain ⟨b', h', hdrain, hbec⟩ := bufDrain_spec hb hc hn
  refine ⟨b', h', ?_, hbec⟩
  simp [bufGetBytes, bufPeek_spec hb hn, hdrain, hbec.ok.max]

theorem freeAll_spec (hok : ∀ c ∈ cs, c.Ok) (ht : allocationOf cs ≤ h.total) :
    ∃ h', freeAll h cs = some h' ∧ h'.next = h.next ∧ h'.total + allocationOf cs = h.total := by
  induction cs generalizing h with
  | nil => exact ⟨h, rfl, rfl, rfl⟩
  | cons c cs ih =>
    rw [allocationOf_cons] at ht
    obtain ⟨h1, hfree, hn1, ht1⟩ := bufChunkFreeUnchecked_spec (hok c List.mem_cons_self) (h := h) (by omega)
    obtain ⟨h', hrun, hn', ht'⟩ := ih (h := h1) (fun d hd => hok d (List.mem_cons_of_mem _ hd)) (by omega)
    refine ⟨h', ?_, by omega, ?_⟩
    · rw [freeAll, hfree]
      exact hrun
    · rw [allocationOf_cons]
      omega

theorem bufClear_spec (hb : b.Ok) (hc : Covers h b.chunks) :
    ∃ b' h', bufClear h b = some (b', h') ∧ Becomes h h' b b' [] := by
  obtain ⟨h', hrun, hnext, htotal⟩ := freeAll_spec hb.linked.ok hc.total
  refine ⟨{ b with datalen := 0, chunks := [], tail := none }, h', by rw [bufClear, hrun]; rfl,
    ⟨⟨Linked.nil, rfl, Nat.zero_le _, hb.chunkSize⟩, ?_, rfl⟩⟩
  exact ⟨hnext.ge, by simp, by simpa using htotal⟩

/-! ## The tail chunk -/

theorem linkAfter_last (hn : last.addr ∉ addrsOf init) (rest : List Chunk) :
    linkAfter last.addr rest (init ++ [last]) = init ++ last :: rest := by
  induction init with
  | nil => simp [linkAfter]
  | cons d init ih =>
    simp only [addrsOf_cons, List.mem_cons, not_or] at hn
    rw [List.cons_append, linkAfter, if_neg (Ne.symm hn.1), ih hn.2, List.cons_append]

theorem Linked.snoc (hl : Linked cs tail) (hc : c.Ok) (hn : c.addr ∉ addrsOf cs) :
    Linked (cs ++ [c]) (some c.addr) := by
  refine ⟨?_, ?_, by simp⟩
  · intro d hd
    rcases List.mem_append.mp hd with hd | hd
    · exact hl.ok d hd
    · rw [List.mem_singleton.mp hd]
      exact hc
  · rw [addrsOf_append, List.nodup_append]
    refine ⟨hl.nodup, by simp, fun p hp q hq he => hn ?_⟩
    rw [addrsOf_cons, addrsOf_nil, List.mem_singleton] at hq
    rwa [← hq, ← he]

/-- Linking a chunk after the tail puts it at the end of the list. -/
theorem Buf.push_eq (hl : Linked b.chunks b.tail) (c : Chunk) :
    b.push c = { b with chunks := b.chunks ++ [c], tail := some c.addr } := by
  by_cases h0 : b.chunks = []
  · simp [Buf.push, h0, hl.tail_eq_none_iff.mpr h0]
  · obtain ⟨init, last, hcs, ht, -, hn⟩ := hl.exists_last h0
    simp only [Buf.push, ht, hcs, linkAfter_last hn, List.append_assoc, List.cons_append, List.nil_append]

theorem Buf.tailChunk_eq (hcs : b.chunks = init ++ [last])
    (ht : b.tail = some last.addr) (hn : last.addr ∉ addrsOf init) : b.tailChunk = some last := by
  have hinit : init.find? (fun c => c.addr == last.addr) = none := by
    rw [List.find?_eq_none]
    intro d hd he
    exact hn (List.mem_map.mpr ⟨d, hd, by simpa using he⟩)
  simp [Buf.tailChunk, ht, hcs, List.find?_append, hinit]

theorem Buf.setChunk_last {last' : Chunk} (hcs : b.chunks = init ++ [last])
    (hn : last.addr ∉ addrsOf init) (ha : last'.addr = last.addr) : (b.setChunk last').chunks = init ++ [last'] := by
  have hinit : init.map (fun d => if d.addr = last'.addr then last' else d) = init.map id := by
    refine List.map_congr_left fun d hd => if_neg fun he => hn ?_
    rw [← ha, ← he]
    exact List.mem_map_of_mem hd
  rw [List.map_id] at hinit
  rw [Buf.setChunk, hcs, List.map_append, hinit, List.map_singleton, if_pos ha.symm]

/-! ## Adding -/

theorem le_doubleUntil (target turns sz : Nat) : sz ≤ doubleUntil target turns sz := by
  induction turns generalizing sz with
  | zero => exact Nat.le_refl _
  | succ turns ih =>
    rw [doubleUntil]
    split
    · refine Nat.le_trans ?_ (ih _)
      rw [Nat.shiftLeft_eq]
      omega
    · exact Nat.le_refl _

theorem doubleUntil_reaches {target turns sz : Nat} (h : chunkOverhead + target ≤ sz * 2 ^ turns) :
    target ≤ chunkSizeWithAlloc (doubleUntil target turns sz) := by
  induction turns generalizing sz with
  | zero =>
    simp only [doubleUntil, chunkSizeWithAlloc]
    omega
  | succ turns ih =>
    rw [doubleUntil]
    split
    · apply ih
      rw [Nat.shiftLeft_eq]
      have : sz * 2 ^ (turns + 1) = sz * 2 ^ 1 * 2 ^ turns := by ring
      omega
    · omega

theorem bufPreferredChunkSize_spec {target : Nat} (ht : target ≤ sizeTCeiling - chunkOverhead) :
    ∃ sz, bufPreferredChunkSize target = some sz ∧ minChunkAlloc ≤ sz ∧ target ≤ chunkSizeWithAlloc sz := by
  rw [bufPreferredChunkSize, if_pos ht]
  by_cases hbig : maxChunkAlloc ≤ chunkAllocSize target
  · refine ⟨_, if_pos hbig, Nat.le_trans (by decide) hbig, ?_⟩
    simp only [chunkSizeWithAlloc, chunkAllocSize]
    omega
  · refine ⟨_, if_neg hbig, le_doubleUntil _ _ _, doubleUntil_reaches ?_⟩
    simp only [chunkAllocSize, maxChunkAlloc, minChunkAlloc] at *
    omega

theorem chunkNewWithAllocSize_ok (h : Heap) {alloc : Nat} (ha : chunkOverhead ≤ alloc) :
    (chunkNewWithAllocSize h alloc).1.Ok := by
  refine ⟨by simp [chunkNewWithAllocSize], ?_⟩
  simp only [chunkNewWithAllocSize, Chunk.memlen, List.length_replicate, chunkAllocSize, chunkSizeWithAlloc]
  omega

/-- The three sizes a new chunk can get all have room for its overhead and, when a byte is asked for, for a
    byte. -/
theorem newChunkAlloc_spec (hb : b.Ok) (hcap : capacity ≤ sizeTCeiling - chunkOverhead) (capped : Bool) :
    ∃ alloc, newChunkAlloc b capacity capped = some alloc ∧ chunkOverhead ≤ alloc ∧
      (0 < capacity → 0 < chunkSizeWithAlloc alloc) := by
  rw [newChunkAlloc]
  by_cases h1 : chunkAllocSize capacity < b.defaultChunkSize
  · refine ⟨_, if_pos h1, hb.chunkSize, fun h0 => ?_⟩
    simp only [chunkSizeWithAlloc, chunkAllocSize] at *
    omega
  rw [if_neg h1]
  by_cases h2 : capped ∧ maxChunkAlloc < chunkAllocSize capacity
  · exact ⟨_, if_pos h2, by decide, fun _ => by decide⟩
  rw [if_neg h2]
  obtain ⟨sz, hsz, hmin, hfit⟩ := bufPreferredChunkSize_spec hcap
  refine ⟨sz, hsz, Nat.le_trans (by decide) hmin, fun h0 => by omega⟩

theorem bufAddChunkWithCapacity_spec (hb : b.Ok) (hc : Covers h b.chunks)
    (hcap : capacity ≤ sizeTCeiling - chunkOverhead) (capped : Bool) :
    ∃ b' h', bufAddChunkWithCapacity h b capacity capped = some (b', h') ∧
      Becomes h h' b b' (bytesOf b.chunks) ∧
      ∃ t, b'.tailChunk = some t ∧ (0 < capacity → 0 < t.remainingCapacity) := by
  obtain ⟨alloc, halloc, hover, hroom⟩ := newChunkAlloc_spec hb hcap capped
  have hnew := chunkNewWithAllocSize_ok h hover
  have hbytes : (chunkNewWithAllocSize h alloc).1.bytes = [] := by
    simp [Chunk.bytes, Chunk.read, chunkNewWithAllocSize]
  have hfresh : (chunkNewWithAllocSize h alloc).1.addr ∉ addrsOf b.chunks :=
    fun hm => Nat.lt_irrefl _ (hc.fresh _ hm)
  have hsame : b.tail.isSome = !b.chunks.isEmpty := by
    rw [Bool.eq_iff_iff, Option.isSome_iff_ne_none, Ne, hb.linked.tail_eq_none_iff]
    simp
  refine ⟨b.push (chunkNewWithAllocSize h alloc).1, (chunkNewWithAllocSize h alloc).2, ?_, ?_, ?_⟩
  · rw [bufAddChunkWithCapacity, halloc]
    exact if_pos hsame
  · rw [Buf.push_eq hb.linked]
    refine ⟨⟨hb.linked.snoc hnew hfresh, ?_, hb.max, hb.chunkSize⟩, ⟨Nat.le_succ _, ?_, ?_⟩, ?_⟩
    · simp [hbytes, hb.datalen]
    · intro p hp
      rw [addrsOf_append, List.mem_append] at hp
      rcases hp with hp | hp
      · exact .inl hp
      · refine .inr ?_
        rw [List.mem_singleton.mp hp]
        exact ⟨Nat.le_refl _, Nat.lt_succ_self _⟩
    · have := hnew.alloc
      simp only [allocationOf_append, allocationOf_cons, allocationOf_nil, ← this]
      simp only [chunkNewWithAllocSize]
      omega
    · simp [hbytes]
  · refine ⟨_, Buf.tailChunk_eq (by rw [Buf.push_eq hb.linked]) (by rw [Buf.push_eq hb.linked]) hfresh, fun h0 => ?_⟩
    simpa [Chunk.remainingCapacity, Chunk.memlen, chunkNewWithAllocSize] using hroom h0

/-- The tail chunk with a byte of room, new or not, that one turn of `buf_add` writes to. -/
theorem tailWithRoom_spec (hb : b.Ok) (hc : Covers h b.chunks) (h0 : 0 < n) (hn : n ≤ bufMaxLen) :
    ∃ b' h' t, tailWithRoom h b n = some (b', h') ∧ Becomes h h' b b' (bytesOf b.chunks) ∧
      b'.tailChunk = some t ∧ 0 < t.remainingCapacity := by
  have hcap : n ≤ sizeTCeiling - chunkOverhead := Nat.le_trans hn (by decide)
  obtain ⟨b', h', hrun, hbec, t, ht, hroom⟩ := bufAddChunkWithCapacity_spec hb hc hcap true
  rcases htc : b.tailChunk with _ | t0
  · exact ⟨b', h', t, by simpa only [tailWithRoom, htc] using hrun, hbec, ht, hroom h0⟩
  · by_cases hz : t0.remainingCapacity = 0
    · exact ⟨b', h', t, by simpa only [tailWithRoom, htc, if_pos hz] using hrun, hbec, ht, hroom h0⟩
    · exact ⟨b, h, t0, by simp only [tailWithRoom, htc, if_neg hz], Becomes.refl hb h, htc, by omega⟩

/-- Bytes written to the tail chunk are the last of the buffer. -/
theorem fill_tail (hb : b.Ok) {t : Chunk} (ht : b.tailChunk = some t) (bs : List UInt8)
    (hfit : bs.length ≤ t.remainingCapacity) (hmax : b.datalen + bs.length ≤ bufMaxLen) (h : Heap) :
    ∃ t', t.append bs = some t' ∧
      Becomes h h b { b.setChunk t' with datalen := b.datalen + bs.length } (bytesOf b.chunks ++ bs) := by
  have h0 : b.chunks ≠ [] := by
    intro h0
    simp [Buf.tailChunk, h0, hb.linked.tail_eq_none_iff.mpr h0] at ht
  obtain ⟨init, last, hcs, htail, hok, hn⟩ := hb.linked.exists_last h0
  rw [Buf.tailChunk_eq hcs htail hn] at ht
  obtain rfl := Option.some.inj ht
  obtain ⟨t', happ, hok', hbytes, haddr, hmem, -, -⟩ := Chunk.append_spec hok bs hfit
  have hset : (b.setChunk t').chunks = init ++ [t'] := Buf.setChunk_last hcs hn haddr
  have hcont : bytesOf (init ++ [t']) = bytesOf b.chunks ++ bs := by simp [hcs, hbytes]
  have haddrs : addrsOf (init ++ [t']) = addrsOf b.chunks := by simp [hcs, haddr]
  refine ⟨t', happ, ⟨⟨⟨?_, ?_, ?_⟩, ?_, hmax, hb.chunkSize⟩, ?_, ?_⟩⟩
  · intro d hd
    rw [hset, List.mem_append, List.mem_singleton] at hd
    rcases hd with hd | rfl
    · exact hb.linked.ok d (by rw [hcs]; exact List.mem_append_left _ hd)
    · exact hok'
  · rw [hset, haddrs]
    exact hb.linked.nodup
  · rw [hset, haddrs]
    exact hb.linked.tail
  · rw [hset, hcont, List.length_append, ← hb.datalen]
  · rw [hset, hcs]
    exact Frame.replace h init [] haddr hmem
  · rw [hset, hcont]

theorem bufAddLoop_spec (turns : Nat) : ∀ (h : Heap) (b : Buf) (string : List UInt8), b.Ok → Covers h b.chunks →
    string.length ≤ turns → b.datalen + string.length ≤ bufMaxLen →
    ∃ b' h', bufAddLoop turns h b string = some (b', h') ∧ Becomes h h' b b' (bytesOf b.chunks ++ string) := by
  induction turns with
  | zero =>
    intro h b string hb hc hle hmax
    obtain rfl : string = [] := List.length_eq_zero_iff.mp (by omega)
    exact ⟨b, h, rfl, by simpa using Becomes.refl hb h⟩
  | succ turns ih =>
    intro h b string hb hc hle hmax
    rcases string with _ | ⟨x, xs⟩
    · exact ⟨b, h, rfl, by simpa using Becomes.refl hb h⟩
    obtain ⟨b1, h1, t, hroom, hbec1, ht, hpos⟩ := tailWithRoom_spec hb hc (n := (x :: xs).length) (by simp) (by omega)
    have hd1 : b1.datalen = b.datalen := by rw [hbec1.ok.datalen, hbec1.contents, ← hb.datalen]
    have hlen : ((x :: xs).take (min t.remainingCapacity (x :: xs).length)).length
        = min t.remainingCapacity (x :: xs).length := by
      rw [List.length_take]
      omega
    obtain ⟨t', happ, hbec2⟩ := fill_tail hbec1.ok ht
      ((x :: xs).take (min t.remainingCapacity (x :: xs).length)) (by omega) (by omega) h1
    have hc2 := hbec2.frame.covers (hbec1.frame.covers hc)
    rw [hlen] at hbec2 hc2
    obtain ⟨b', h', hrun, hbec3⟩ := ih h1 _ ((x :: xs).drop (min t.remainingCapacity (x :: xs).length)) hbec2.ok hc2
      (by simp only [List.length_drop, List.length_cons] at *; omega)
      (by simp only [List.length_drop, List.length_cons] at *; omega)
    refine ⟨b', h', ?_, hbec3.ok, (hbec1.frame.trans hbec2.frame).trans hbec3.frame, ?_⟩
    · rw [bufAddLoop]
      simp only [hroom, Option.bind_eq_bind, Option.bind_some, ht, happ]
      exact hrun
    · rw [hbec3.contents, hbec2.contents, hbec1.contents, List.append_assoc, List.take_append_drop]

/-- `buf_add` appends, or answers -1 and leaves the buffer, when the bytes would not fit. -/
theorem bufAdd_spec (hb : b.Ok) (hc : Covers h b.chunks) (string : List UInt8) (hs : string.length ≤ bufMaxLen) :
    if (bytesOf b.chunks).length + string.length ≤ bufMaxLen then
      ∃ b' h', bufAdd h b string = some (b', ↑((bytesOf b.chunks).length + string.length), h') ∧
        Becomes h h' b b' (bytesOf b.chunks ++ string)
    else bufAdd h b string = some (b, -1, h) := by
  have hmax := hb.max
  have hsub : (bufMaxLen + 2 ^ 64 - string.length) % 2 ^ 64 = bufMaxLen - string.length := by
    simp only [bufMaxLen] at *
    omega
  rw [← hb.datalen]
  split
  · next hfit =>
    by_cases h0 : string.length = 0
    · obtain rfl := List.length_eq_zero_iff.mp h0
      exact ⟨b, h, by simp [bufAdd], by simpa using Becomes.refl hb h⟩
    obtain ⟨b', h', hrun, hbec⟩ := bufAddLoop_spec string.length h b string hb hc (Nat.le_refl _) hfit
    have hlen : b'.datalen = b.datalen + string.length := by
      rw [hbec.ok.datalen, hbec.contents, List.length_append, ← hb.datalen]
    refine ⟨b', h', ?_, hbec⟩
    rw [bufAdd, if_neg h0, if_neg (by omega), hsub, if_neg (by omega), hrun]
    simp [hlen, hfit]
  · next hfit =>
    rw [bufAdd, if_neg (by omega), if_neg (by omega), hsub, if_pos (by omega)]

/-! ## Copying -/

theorem bufCopyLoop_spec (cs : List Chunk) : ∀ (h : Heap) (out : Buf), Linked out.chunks out.tail →
    Covers h out.chunks → (∀ c ∈ cs, c.Ok) →
    ∃ out' h', bufCopyLoop h out cs = (out', h') ∧ Linked out'.chunks out'.tail ∧
      Frame h h' out.chunks out'.chunks ∧ bytesOf out'.chunks = bytesOf out.chunks ++ bytesOf cs ∧
      out'.defaultChunkSize = out.defaultChunkSize := by
  induction cs with
  | nil => exact fun h out hl hc hok => ⟨out, h, rfl, hl, Frame.refl _ _, by simp, rfl⟩
  | cons c cs ih =>
    intro h out hl hc hok
    have hcok := hok c List.mem_cons_self
    have hnew : (chunkCopy h c).1.Ok := ⟨hcok.bounds, rfl⟩
    have hbytes : (chunkCopy h c).1.bytes = c.bytes := rfl
    have hfresh : (chunkCopy h c).1.addr ∉ addrsOf out.chunks := fun hm => Nat.lt_irrefl _ (hc.fresh _ hm)
    have hpush := Buf.push_eq hl (chunkCopy h c).1
    have hframe : Frame h (chunkCopy h c).2 out.chunks (out.push (chunkCopy h c).1).chunks := by
      rw [hpush]
      refine ⟨Nat.le_succ _, fun p hp => ?_, ?_⟩
      · rw [addrsOf_append, List.mem_append] at hp
        rcases hp with hp | hp
        · exact .inl hp
        · refine .inr ?_
          rw [List.mem_singleton.mp hp]
          exact ⟨Nat.le_refl _, Nat.lt_succ_self _⟩
      · have hmem : (chunkCopy h c).1.memlen = c.memlen := rfl
        have htotal : (chunkCopy h c).2.total = h.total + chunkAllocSize c.memlen := rfl
        simp only [allocationOf_append, allocationOf_cons, allocationOf_nil, hmem, htotal]
        omega
    obtain ⟨out', h', hrun, hl', hf', hb', hd'⟩ := ih (chunkCopy h c).2 (out.push (chunkCopy h c).1)
      (by rw [hpush]; exact hl.snoc hnew hfresh) (hframe.covers hc) fun d hd => hok d (List.mem_cons_of_mem _ hd)
    refine ⟨out', h', hrun, hl', hframe.trans hf', ?_, ?_⟩
    · rw [hb', hpush]
      simp [hbytes]
    · rw [hd', hpush]

theorem bufCopy_spec (hb : b.Ok) (h : Heap) :
    ∃ b' h', bufCopy h b = (b', h') ∧ Becomes h h' bufNew b' (bytesOf b.chunks) := by
  obtain ⟨out, h', hrun, hl, hf, hbytes, hd⟩ := bufCopyLoop_spec b.chunks h
    { bufNew with defaultChunkSize := b.defaultChunkSize } Linked.nil ⟨by simp [bufNew], Nat.zero_le _⟩ hb.linked.ok
  have hbytes : bytesOf out.chunks = bytesOf b.chunks := by simpa [bufNew] using hbytes
  refine ⟨{ out with datalen := b.datalen }, h', by rw [bufCopy, hrun], ⟨⟨hl, ?_, hb.max, ?_⟩, hf, hbytes⟩⟩
  · simp only [hbytes, hb.datalen]
  · simp only [hd]
    exact hb.chunkSize

/-! ## Pulling bytes up into the first chunk -/

/-- The first chunk changed or moved, with the tail pointer that follows it. -/
theorem Linked.moved {c' : Chunk} (hl : Linked (c :: cs) tail) (hok : c'.Ok)
    (hn : c'.addr ∉ addrsOf cs) : Linked (c' :: cs) (if tail = some c.addr then some c'.addr else tail) := by
  have hnd := List.nodup_cons.mp hl.nodup
  refine ⟨?_, List.nodup_cons.mpr ⟨hn, hnd.2⟩, ?_⟩
  · intro d hd
    rcases List.mem_cons.mp hd with rfl | hd
    · exact hok
    · exact hl.ok d (List.mem_cons_of_mem _ hd)
  · have ht := hl.tail
    rw [addrsOf_cons, List.getLast?_cons] at *
    rcases hcs : (addrsOf cs).getLast? with _ | p
    · rw [hcs] at ht
      simp [ht]
    · rw [hcs] at ht
      have hne : p ≠ c.addr := fun he => hnd.1 (he ▸ List.mem_of_getLast? hcs)
      simp [ht, hne]

/-- The second chunk emptied into the first and freed, with the tail pointer as the code leaves it. -/
theorem Linked.merged {d c' : Chunk} (hl : Linked (c :: d :: cs) tail) (hok : c'.Ok)
    (ha : c'.addr = c.addr) : Linked (c' :: cs) (if tail = some d.addr then some c'.addr else tail) := by
  obtain ⟨hfirst, hrest⟩ := List.nodup_cons.mp hl.nodup
  have hlater : Linked (d :: cs) tail := by
    refine ⟨fun e he => hl.ok e (List.mem_cons_of_mem _ he), hrest, hl.tail.trans ?_⟩
    rw [addrsOf_cons, addrsOf_cons, List.getLast?_cons_cons]
  exact hlater.moved hok fun hmem => hfirst (ha ▸ List.mem_cons_of_mem _ hmem)

theorem chunkGrow_spec (hok : c.Ok) (sz : Nat) (hsz : c.memlen < sz) (h : Heap) (inPlace : Bool) :
    ∃ c' h', chunkGrow h c sz inPlace = some (c', h') ∧ c'.Ok ∧ c'.bytes = c.bytes ∧ c'.memlen = sz ∧
      c'.datalen = c.datalen ∧ c'.data = c.data ∧ (c'.addr = c.addr ∨ c'.addr = h.next) ∧ h'.next = h.next + 1 ∧
      h'.total + chunkAllocSize c.memlen = h.total + chunkAllocSize sz := by
  have hbounds := hok.bounds
  have hlen : (c.mem ++ List.replicate (sz - c.memlen) 0).length = sz := by
    rw [List.length_append, List.length_replicate]
    simp only [Chunk.memlen] at *
    omega
  refine ⟨_, _, if_pos ⟨hsz, hok.alloc⟩, ⟨?_, ?_⟩, ?_, hlen, rfl, rfl, ?_, rfl, ?_⟩
  · simp only [Chunk.memlen] at *
    omega
  · simp only [Chunk.memlen] at *
    rw [hlen]
  · simp only [Chunk.bytes, Chunk.read, Chunk.memlen] at *
    rw [List.drop_append_of_le_length (by omega), List.take_append_of_le_length (by rw [List.length_drop]; omega)]
  · cases inPlace
    · exact .inr rfl
    · exact .inl rfl
  · simp only [chunkAllocSize]
    omega

theorem pullupHead_spec {head : Chunk} {rest : List Chunk} (hl : Linked (head :: rest) b.tail)
    (hc : Covers h (head :: rest)) (hlt : head.datalen < capacity) (hcap : capacity ≤ bufMaxLen)
    (inPlace : Bool) :
    ∃ tail' head' h', pullupHead h b head capacity inPlace = some ({ b with tail := tail' }, head', h') ∧
      Linked (head' :: rest) tail' ∧ Frame h h' (head :: rest) (head' :: rest) ∧ head'.bytes = head.bytes ∧
      capacity - head'.datalen ≤ head'.remainingCapacity := by
  have hok := hl.head
  have hnd := List.nodup_cons.mp hl.nodup
  obtain ⟨hrok, hrbytes, hraddr, hrmem, hrlen, hrdata⟩ := chunkRepack_spec hok
  -- repacked, a chunk has all of its memory after the stored bytes free
  have hrroom : (chunkRepack head).remainingCapacity = head.memlen - head.datalen := by
    rw [Chunk.remainingCapacity, hrmem, hrlen, hrdata, Nat.zero_add]
  by_cases hfit : capacity ≤ head.memlen
  · by_cases hroom : head.remainingCapacity < capacity - head.datalen
    · refine ⟨b.tail, chunkRepack head, h, ?_, ?_, Frame.replace h [] rest hraddr hrmem, hrbytes, ?_⟩
      · rw [pullupHead, if_pos hfit]
        simp only [if_pos hroom]
        rw [if_pos (by omega)]
      · have hmoved := hl.moved hrok (by rw [hraddr]; exact hnd.1)
        rw [hraddr] at hmoved
        convert hmoved using 1
        split <;> simp_all
      · omega
    · refine ⟨b.tail, head, h, ?_, hl, Frame.refl _ _, rfl, by omega⟩
      rw [pullupHead, if_pos hfit]
      simp only [if_neg hroom]
      rw [if_pos (by omega)]
  · obtain ⟨alloc, halloc, hmin, hsize⟩ := bufPreferredChunkSize_spec (Nat.le_trans hcap (by decide))
    obtain ⟨head', h', hgrow, hok', hbytes', hmem', hlen', hdata', haddr', hnext', htotal'⟩ :=
      chunkGrow_spec hrok (chunkSizeWithAlloc alloc) (by omega) h inPlace
    have hn : head'.addr ∉ addrsOf rest := by
      rcases haddr' with ha | ha
      · rw [ha, hraddr]
        exact hnd.1
      · intro hm
        have := hc.fresh _ (List.mem_cons_of_mem _ hm)
        omega
    refine ⟨_, head', h', ?_, hl.moved hok' hn, ⟨by omega, ?_, ?_⟩, hbytes'.trans hrbytes, ?_⟩
    · rw [pullupHead, if_neg hfit, halloc]
      simp only [Option.bind_eq_bind, Option.bind_some, hgrow]
      rw [if_pos (by omega)]
    · intro p hp
      rcases List.mem_cons.mp hp with rfl | hp
      · rcases haddr' with ha | ha
        · exact .inl (by rw [ha, hraddr]; exact List.mem_cons_self)
        · exact .inr (by omega)
      · exact .inl (List.mem_cons_of_mem _ hp)
    · rw [allocationOf_cons, allocationOf_cons, hmem']
      rw [hrmem] at htotal'
      omega
    · rw [Chunk.remainingCapacity, hmem', hlen', hdata', hrlen, hrdata]
      omega

theorem bufPullupLoop_spec (bytes : Nat) (cs : List Chunk) : ∀ (h : Heap) (b : Buf) (dest : Chunk),
    Linked (dest :: cs) b.tail → Covers h (dest :: cs) → bytes ≤ (bytesOf (dest :: cs)).length →
    bytes - dest.datalen ≤ dest.remainingCapacity →
    ∃ tail' head rest h', bufPullupLoop bytes h b dest cs = some ({ b with chunks := head :: rest, tail := tail' }, h') ∧
      Linked (head :: rest) tail' ∧ Frame h h' (dest :: cs) (head :: rest) ∧
      bytesOf (head :: rest) = bytesOf (dest :: cs) ∧ bytes ≤ head.datalen := by
  induction cs with
  | nil =>
    intro h b dest hl hc hle hroom
    have hlen := Chunk.length_bytes hl.head
    rw [bytesOf_cons, bytesOf_nil, List.append_nil, hlen] at hle
    exact ⟨b.tail, dest, [], h, by rw [bufPullupLoop, if_neg (by omega)], hl, Frame.refl _ _, rfl, hle⟩
  | cons src cs ih =>
    intro h b dest hl hc hle hroom
    by_cases hlt : dest.datalen < bytes
    swap
    · exact ⟨b.tail, dest, src :: cs, h, by rw [bufPullupLoop, if_neg hlt], hl, Frame.refl _ _, rfl, by omega⟩
    have hsrc : src.Ok := hl.ok src (by simp)
    have hslen := Chunk.length_bytes hsrc
    have hdlen := Chunk.length_bytes hl.head
    rw [bufPullupLoop, if_pos hlt]
    by_cases hwhole : src.datalen ≤ bytes - dest.datalen
    · -- the source chunk goes into the head as a whole, and is freed
      obtain ⟨dest', happ, hok', hbytes', haddr', hmem', hlen', hroom'⟩ :=
        Chunk.append_spec hl.head src.bytes (by omega)
      have ht := hc.total
      simp only [allocationOf_cons] at ht
      obtain ⟨h1, hfree, hnext, htotal⟩ := bufChunkFreeUnchecked_spec hsrc (h := h) (by omega)
      have hframe : Frame h h1 (dest :: src :: cs) (dest' :: cs) := by
        refine ⟨hnext.ge, fun p hp => .inl ?_, ?_⟩
        · simp only [addrsOf_cons, List.mem_cons, haddr'] at hp ⊢
          rcases hp with hp | hp
          · exact .inl hp
          · exact .inr (.inr hp)
        · simp only [allocationOf_cons, hmem']
          omega
      have hsame : bytesOf (dest' :: cs) = bytesOf (dest :: src :: cs) := by simp [hbytes']
      obtain ⟨tail', head, rest, h', hrun, hl', hf', hb', hle'⟩ :=
        ih h1 { b with tail := if b.tail = some src.addr then some dest'.addr else b.tail } dest'
          (hl.merged hok' haddr') (hframe.covers hc) (by rw [hsame]; exact hle) (by omega)
      refine ⟨tail', head, rest, h', ?_, hl', hframe.trans hf', hb'.trans hsame, hle'⟩
      simp only [if_pos hwhole]
      change (dest.append src.bytes).bind _ = _
      rw [happ]
      simp only [Option.bind_some, hfree, Option.bind_eq_bind]
      exact hrun
    · -- only the first bytes of the source chunk are needed
      have hread : src.read (bytes - dest.datalen) = src.bytes.take (bytes - dest.datalen) :=
        Chunk.read_eq_take (by omega)
      have htake : (src.bytes.take (bytes - dest.datalen)).length = bytes - dest.datalen := by
        rw [List.length_take]
        omega
      obtain ⟨dest', happ, hok', hbytes', haddr', hmem', hlen', -⟩ :=
        Chunk.append_spec hl.head (src.bytes.take (bytes - dest.datalen)) (by omega)
      refine ⟨b.tail, dest', src.advance (bytes - dest.datalen) :: cs, h, ?_, ⟨?_, ?_, ?_⟩, ⟨Nat.le_refl _, ?_, ?_⟩, ?_,
        by omega⟩
      · simp only [if_neg hwhole, hread, happ, Option.bind_eq_bind, Option.bind_some]
        rw [if_pos (by omega)]
      · intro d hd
        simp only [List.mem_cons] at hd
        rcases hd with rfl | rfl | hd
        · exact hok'
        · exact Chunk.advance_ok hsrc (by omega)
        · exact hl.ok d (by simp [hd])
      · simpa [haddr', Chunk.advance] using hl.nodup
      · simpa [haddr', Chunk.advance] using hl.tail
      · intro p hp
        exact .inl (by simpa [haddr', Chunk.advance] using hp)
      · simp only [allocationOf_cons, hmem']
        rfl
      · rw [bytesOf_cons, bytesOf_cons, bytesOf_cons, bytesOf_cons, hbytes', Chunk.bytes_advance, List.append_assoc,
          ← List.append_assoc (List.take _ _), List.take_append_drop]

/-- `buf_pullup` keeps the bytes, and shows at least the `bytes` it was asked for, or all there are. -/
theorem bufPullup_spec (hb : b.Ok) (hc : Covers h b.chunks) (bytes : Nat) (inPlace : Bool) :
    ∃ b' shown h', bufPullup h b bytes inPlace = some (b', shown, h') ∧ Becomes h h' b b' (bytesOf b.chunks) ∧
      shown <+: bytesOf b.chunks ∧ min bytes (bytesOf b.chunks).length ≤ shown.length := by
  have hd := hb.datalen
  have hmax := hb.max
  rcases hcs : b.chunks with _ | ⟨head, rest⟩
  · refine ⟨b, [], h, by simp [bufPullup, hcs], ?_, List.nil_prefix, by simp⟩
    rw [← hcs]
    exact Becomes.refl hb h
  have hl := hb.linked
  rw [hcs] at hl hc hd
  have hlen := Chunk.length_bytes hl.head
  have hwant : (if b.datalen < bytes then b.datalen else bytes) = min bytes (bytesOf (head :: rest)).length := by
    split <;> omega
  simp only [bufPullup, hcs, hwant]
  by_cases hhead : min bytes (bytesOf (head :: rest)).length ≤ head.datalen
  · refine ⟨b, head.bytes, h, by rw [if_pos hhead]; rfl, ?_, List.prefix_append _ _, by omega⟩
    rw [← hcs]
    exact Becomes.refl hb h
  rw [if_neg hhead]
  obtain ⟨t1, dest, h1, hrun1, hl1, hf1, hb1, hroom1⟩ := pullupHead_spec hl hc (Nat.lt_of_not_le hhead) (by omega) inPlace
  have hsame1 : bytesOf (dest :: rest) = bytesOf (head :: rest) := by simp [hb1]
  obtain ⟨t2, head', rest', h', hrun2, hl2, hf2, hb2, hle2⟩ :=
    bufPullupLoop_spec (min bytes (bytesOf (head :: rest)).length) rest h1 { b with tail := t1 } dest hl1
      (hf1.covers hc) (by rw [hsame1]; omega) hroom1
  have hbytes := hb2.trans hsame1
  have hlen' := Chunk.length_bytes hl2.head
  refine ⟨{ b with chunks := head' :: rest', tail := t2 }, head'.bytes, h', ?_, ⟨⟨hl2, ?_, hmax, hb.chunkSize⟩, ?_, hbytes⟩,
    ?_, by omega⟩
  · simp only [hrun1, Option.bind_eq_bind, Option.bind_some, hrun2]
    rfl
  · rw [hbytes, ← hd]
  · rw [hcs]
    exact hf1.trans hf2
  · rw [← hbytes, bytesOf_cons]
    exact List.prefix_append _ _

/-! ## Reading a line -/

theorem bufFindOffsetLoop_eq (ch : UInt8) (hok : ∀ c ∈ cs, c.Ok) (offset : Nat) :
    bufFindOffsetLoop ch offset cs = ((bytesOf cs).findIdx? (· == ch)).map (offset + ·) := by
  induction cs generalizing offset with
  | nil => rfl
  | cons c cs ih =>
    have hlen := Chunk.length_bytes (hok c List.mem_cons_self)
    rw [bufFindOffsetLoop, bytesOf_cons, List.findIdx?_append]
    rw [show c.read c.datalen = c.bytes from rfl]
    rcases hfind : c.bytes.findIdx? (· == ch) with _ | i
    · simp only [Option.none_or, ih (fun d hd => hok d (List.mem_cons_of_mem _ hd)), Option.map_map, hlen]
      congr 1
      funext i
      simp only [Function.comp]
      omega
    · rfl

/-- `buf_get_line` finds the first newline of the buffer's bytes, and takes the bytes up to it if the caller's
    array has room for them and a NUL. -/
theorem bufGetLine_spec (hb : b.Ok) (hc : Covers h b.chunks) (dataLen : Nat) :
    match (bytesOf b.chunks).findIdx? (· == newline) with
    | none => bufGetLine h b dataLen = some (b, 0, [], dataLen, h)
    | some sz =>
      if dataLen < sz + 2 then bufGetLine h b dataLen = some (b, -1, [], sz + 2, h)
      else ∃ b' h', bufGetLine h b dataLen = some (b', 1, (bytesOf b.chunks).take (sz + 1) ++ [0], sz + 1, h') ∧
        Becomes h h' b b' ((bytesOf b.chunks).drop (sz + 1)) := by
  have hmax := hb.max
  have hfind := bufFindOffsetLoop_eq newline hb.linked.ok 0
  by_cases h0 : b.chunks = []
  · simp [h0, bufGetLine]
  rcases hidx : (bytesOf b.chunks).findIdx? (· == newline) with _ | sz
  · rw [hidx] at hfind
    simp only [bufGetLine, if_neg h0, if_neg (Nat.not_lt.mpr hmax), hfind, Option.map_none]
  · rw [hidx] at hfind
    simp only [Option.map_some, Nat.zero_add] at hfind
    have hsz : sz + 1 ≤ (bytesOf b.chunks).length := (List.findIdx?_eq_some_iff_findIdx_eq.mp hidx).1
    by_cases hroom : dataLen < sz + 2
    · simp only [if_pos hroom, bufGetLine, if_neg h0, if_neg (Nat.not_lt.mpr hmax), hfind]
    · obtain ⟨b', h', hget, hbec⟩ := bufGetBytes_spec hb hc hsz
      simp only [if_neg hroom]
      refine ⟨b', h', ?_, hbec⟩
      simp only [if_neg hroom, bufGetLine, if_neg h0, if_neg (Nat.not_lt.mpr hmax), hfind, hget, Option.bind_eq_bind,
        Option.bind_some]

end Badnet.Buffers

/-
  Badnet.Buf.Queue — buffers are byte queues.

  The specification is a list of byte queues, one for each buffer (`Queues`): what each call does to them
  (`nextQueues`), what it may answer (`answersOf`), and which arguments the code's assertions let through (`legalCall`).

  `buffers_are_byte_queues`: any sequence of such calls runs to its end without a failed assertion, the bytes of each
  buffer are those of its queue, every answer is right, and every buffer passes `buf_assert_ok`.
-/

import Badnet.Buf.Chunks
import Badnet.Lib.Refine

namespace Badnet.Buffers

open Lib

/-! ## The specification -/

abbrev Queues := List (List UInt8)

variable (q : Queues)

def Queues.bytes (i : Nat) : List UInt8 := q.getD i []

/-- Take `n` bytes from the front of one queue, then put them at the end of another. -/
def Queues.move (out inp n : Nat) : Queues :=
  let moved := (q.bytes inp).take n
  let q1 : Queues := q.set inp ((q.bytes inp).drop n)
  q1.set out (q1.bytes out ++ moved)

/-- The bytes up to and including the first newline. -/
def firstLine (xs : List UInt8) : Option (List UInt8) :=
  (xs.findIdx? (· == newline)).map fun sz => xs.take (sz + 1)

def legalCall : Op → Prop
  | .new => True
  | .newWithCapacity size => size ≤ sizeTCeiling - chunkOverhead
  | .add i string => i < q.length ∧ string.length ≤ bufMaxLen
  | .drain i n => i < q.length ∧ n ≤ (q.bytes i).length
  | .getBytes i n => i < q.length ∧ n ≤ (q.bytes i).length
  | .peek i n => i < q.length ∧ n ≤ (q.bytes i).length
  | .pullup i _ _ => i < q.length
  | .moveToBuf out inp _ => out < q.length ∧ inp < q.length
  | .moveAll out inp => out < q.length ∧ inp < q.length
  | .copy i => i < q.length
  | .getLine i _ => i < q.length
  | .clear i => i < q.length
  | .addChunkWithCapacity i capacity _ => i < q.length ∧ capacity ≤ sizeTCeiling - chunkOverhead

/-- `moveAll` appends one queue to the other and then empties it, in this order also when both are the same
    buffer. -/
def nextQueues : Op → Queues
  | .new => q ++ [[]]
  | .newWithCapacity _ => q ++ [[]]
  | .add i string =>
    if (q.bytes i).length + string.length ≤ bufMaxLen then q.set i (q.bytes i ++ string) else q
  | .drain i n => q.set i ((q.bytes i).drop n)
  | .getBytes i n => q.set i ((q.bytes i).drop n)
  | .peek _ _ => q
  | .pullup _ _ _ => q
  | .moveToBuf out inp flushlen =>
    if (q.bytes out).length + flushlen ≤ bufMaxLen then q.move out inp (min flushlen (q.bytes inp).length) else q
  | .moveAll out inp =>
    if (q.bytes out).length + (q.bytes inp).length ≤ bufMaxLen then
      (q.set out (q.bytes out ++ q.bytes inp)).set inp []
    else q
  | .copy i => q ++ [q.bytes i]
  | .getLine i dataLen =>
    match firstLine (q.bytes i) with
    | some line => if line.length + 1 ≤ dataLen then q.set i ((q.bytes i).drop line.length) else q
    | none => q
  | .clear i => q.set i []
  | .addChunkWithCapacity _ _ _ => q

/-- What a call may answer. Only `pullup` has a choice: how much of the front it shows past what it was asked
    for depends on the chunks. -/
def answersOf : Op → Reply → Prop
  | .new, r => r = { Reply.void with value := q.length }
  | .newWithCapacity _, r => r = { Reply.void with value := q.length }
  | .add i string, r =>
    r = { Reply.void with
      value := if (q.bytes i).length + string.length ≤ bufMaxLen then ((q.bytes i).length + string.length : Nat) else -1 }
  | .drain _ _, r => r = Reply.void
  | .getBytes i n, r => r = { Reply.void with value := ((q.bytes i).length - n : Nat), bytes := (q.bytes i).take n }
  | .peek i n, r => r = { Reply.void with bytes := (q.bytes i).take n }
  | .pullup i bytes _, r =>
    r.value = 0 ∧ r.bytes <+: q.bytes i ∧ min bytes (q.bytes i).length ≤ r.bytes.length ∧ r.len = r.bytes.length
  | .moveToBuf out inp flushlen, r =>
    if (q.bytes out).length + flushlen ≤ bufMaxLen then
      r = { Reply.void with value := (min flushlen (q.bytes inp).length : Nat), len := flushlen - (q.bytes inp).length }
    else r = { Reply.void with value := -1, len := flushlen }
  | .moveAll out inp, r =>
    r = { Reply.void with
      value := if (q.bytes out).length + (q.bytes inp).length ≤ bufMaxLen then ((q.bytes inp).length : Nat) else 0 }
  | .copy _, r => r = { Reply.void with value := q.length }
  | .getLine i dataLen, r =>
    match firstLine (q.bytes i) with
    | some line =>
      if line.length + 1 ≤ dataLen then r = { value := 1, bytes := line ++ [0], len := line.length }
      else r = { value := -1, bytes := [], len := line.length + 1 }
    | none => r = { value := 0, bytes := [], len := dataLen }
  | .clear _, r => r = Reply.void
  | .addChunkWithCapacity _ _ _, r => r = Reply.void

def queueSpec : Spec Queues Op Reply := { legal := legalCall, next := nextQueues, answers := answersOf }

/-! ## The buffers of the process -/

def State.contents (s : State) : Queues := s.bufs.map fun b => bytesOf b.chunks

/-- Every buffer is whole, no chunk is on two lists, and the allocator knows all of them. -/
structure State.Ok (s : State) : Prop where
  bufs : ∀ b ∈ s.bufs, b.Ok
  apart : ∀ (i j : Nat) (b c : Buf), s.bufs[i]? = some b → s.bufs[j]? = some c →
    ∀ p ∈ addrsOf b.chunks, p ∈ addrsOf c.chunks → i = j
  fresh : ∀ b ∈ s.bufs, ∀ p ∈ addrsOf b.chunks, p < s.heap.next
  total : (s.bufs.map fun b => allocationOf b.chunks).sum ≤ s.heap.total

variable {s : State} {i j : Nat} {b b' c : Buf} {h' : Heap} {x : List UInt8}

theorem sum_map_set (f : Buf → Nat) {l : List Buf} (hi : l[i]? = some b) (b' : Buf) :
    ((l.set i b').map f).sum + f b = (l.map f).sum + f b' := by
  induction l generalizing i with
  | nil => simp at hi
  | cons d l ih =>
    rcases i with _ | i
    · obtain rfl : d = b := by simpa using hi
      simp only [List.set_cons_zero, List.map_cons, List.sum_cons]
      omega
    · have := ih (by simpa using hi)
      simp only [List.set_cons_succ, List.map_cons, List.sum_cons]
      omega

namespace State.Ok

theorem covers (hs : s.Ok) (hi : s.bufs[i]? = some b) : Covers s.heap b.chunks := by
  have hb := List.mem_of_getElem? hi
  refine ⟨hs.fresh b hb, Nat.le_trans ?_ hs.total⟩
  exact List.le_sum_of_mem (List.mem_map_of_mem (f := fun b => allocationOf b.chunks) hb)

theorem buf (hs : s.Ok) (hi : s.bufs[i]? = some b) : b.Ok := hs.bufs b (List.mem_of_getElem? hi)

/-- One buffer changed, within its frame. -/
theorem setBuf (hs : s.Ok) (hi : s.bufs[i]? = some b) (hb : Becomes s.heap h' b b' x) : (s.setBuf i b' h').Ok := by
  have hnext := hb.frame.next
  have hlt : i < s.bufs.length := (List.getElem?_eq_some_iff.mp hi).1
  -- a chunk of the new buffer is on the list of no other
  have hother : ∀ j c, j ≠ i → s.bufs[j]? = some c → ∀ p ∈ addrsOf b'.chunks, p ∉ addrsOf c.chunks := by
    intro j c hj hc p hp hpc
    rcases hb.frame.addrs p hp with hm | hm
    · exact hj (hs.apart j i c b hc hi p hpc hm)
    · have := hs.fresh c (List.mem_of_getElem? hc) p hpc
      omega
  refine ⟨?_, ?_, ?_, ?_⟩
  · intro c hc
    rcases List.mem_or_eq_of_mem_set hc with hc | rfl
    · exact hs.bufs c hc
    · exact hb.ok
  · intro j k c d hc hd p hpc hpd
    simp only [State.setBuf, List.getElem?_set] at hc hd
    by_cases hj : i = j
    · by_cases hk : i = k
      · omega
      · rw [if_pos hj, if_pos hlt] at hc
        rw [if_neg hk] at hd
        cases hc
        exact absurd hpd (hother k d (Ne.symm hk) hd p hpc)
    · rw [if_neg hj] at hc
      by_cases hk : i = k
      · rw [if_pos hk, if_pos hlt] at hd
        cases hd
        exact absurd hpc (hother j c (Ne.symm hj) hc p hpd)
      · rw [if_neg hk] at hd
        exact hs.apart j k c d hc hd p hpc hpd
  · intro c hc p hp
    rcases List.mem_or_eq_of_mem_set hc with hc | rfl
    · exact Nat.lt_of_lt_of_le (hs.fresh c hc p hp) hnext
    · exact (hb.frame.covers (hs.covers hi)).fresh p hp
  · have hsum := sum_map_set (fun b => allocationOf b.chunks) hi b'
    have htotal := hb.frame.total
    have := hs.total
    simp only [State.setBuf] at *
    omega

/-- A buffer added, with chunks of its own. -/
theorem push (hs : s.Ok) (hb : Becomes s.heap h' bufNew b' x) : State.Ok { heap := h', bufs := s.bufs ++ [b'] } := by
  have hnext := hb.frame.next
  have hown : ∀ p ∈ addrsOf b'.chunks, s.heap.next ≤ p ∧ p < h'.next := by
    intro p hp
    rcases hb.frame.addrs p hp with hm | hm
    · simp [bufNew] at hm
    · exact hm
  have hat : ∀ j c, (s.bufs ++ [b'])[j]? = some c → s.bufs[j]? = some c ∨ (j = s.bufs.length ∧ c = b') := by
    intro j c hc
    rcases Nat.lt_or_ge j s.bufs.length with hj | hj
    · rw [List.getElem?_append_left hj] at hc
      exact .inl hc
    · rw [List.getElem?_append_right hj, List.getElem?_singleton] at hc
      split at hc
      · cases hc
        exact .inr ⟨by omega, rfl⟩
      · cases hc
  refine ⟨?_, ?_, ?_, ?_⟩
  · intro c hc
    rcases List.mem_append.mp hc with hc | hc
    · exact hs.bufs c hc
    · rw [List.mem_singleton.mp hc]
      exact hb.ok
  · intro j k c d hc hd p hpc hpd
    rcases hat j c hc with hc' | ⟨hj, hcb⟩
    · rcases hat k d hd with hd' | ⟨hk, hdb⟩
      · exact hs.apart j k c d hc' hd' p hpc hpd
      · have := hs.fresh c (List.mem_of_getElem? hc') p hpc
        have := hown p (hdb ▸ hpd)
        omega
    · rcases hat k d hd with hd' | ⟨hk, hdb⟩
      · have := hs.fresh d (List.mem_of_getElem? hd') p hpd
        have := hown p (hcb ▸ hpc)
        omega
      · omega
  · intro c hc p hp
    rcases List.mem_append.mp hc with hc | hc
    · exact Nat.lt_of_lt_of_le (hs.fresh c hc p hp) hnext
    · rw [List.mem_singleton.mp hc] at hp
      exact (hown p hp).2
  · have htotal := hb.frame.total
    have := hs.total
    simp only [List.map_append, List.map_singleton, List.sum_append, List.sum_singleton]
    simp only [bufNew, allocationOf_nil] at htotal
    omega

end State.Ok

theorem contents_setBuf (s : State) (i : Nat) (b' : Buf) (h' : Heap) :
    (s.setBuf i b' h').contents = s.contents.set i (bytesOf b'.chunks) := by
  simp [State.contents, State.setBuf, List.map_set]

theorem setBuf_self (hi : s.bufs[i]? = some b) : s.setBuf i b s.heap = s := by
  obtain ⟨hlt, rfl⟩ := List.getElem?_eq_some_iff.mp hi
  rw [State.setBuf, List.set_getElem_self]

theorem bytes_contents (hi : s.bufs[i]? = some b) : s.contents.bytes i = bytesOf b.chunks := by
  simp [Queues.bytes, State.contents, List.getD_eq_getElem?_getD, hi]

theorem exists_buf (hi : i < s.contents.length) : ∃ b, s.bufs[i]? = some b := by
  rw [State.contents, List.length_map] at hi
  exact ⟨_, List.getElem?_eq_getElem hi⟩

theorem length_contents (s : State) : s.contents.length = s.bufs.length := by simp [State.contents]

/-! ## Moving between buffers -/

theorem Linked.append {cs ds : List Chunk} {t u : Option Nat} (hc : Linked cs t) (hd : Linked ds u) (h0 : ds ≠ [])
    (hapart : ∀ p ∈ addrsOf cs, p ∉ addrsOf ds) : Linked (cs ++ ds) u := by
  refine ⟨?_, ?_, ?_⟩
  · intro c hm
    rcases List.mem_append.mp hm with hm | hm
    · exact hc.ok c hm
    · exact hd.ok c hm
  · rw [addrsOf_append, List.nodup_append]
    exact ⟨hc.nodup, hd.nodup, fun p hp q hq he => hapart p hp (he ▸ hq)⟩
  · rw [addrsOf_append, List.getLast?_append, ← hd.tail]
    rcases hu : u with _ | p
    · exact absurd (hd.tail_eq_none_iff.mp hu) h0
    · rfl

theorem takeOver_eq (hb : Linked b.chunks b.tail) (c : Buf) : takeOver b c = some (b.chunks ++ c.chunks) := by
  rw [takeOver]
  split
  · next h0 => rw [h0, List.nil_append]
  · next h0 =>
    obtain ⟨init, last, hcs, ht, -, hn⟩ := hb.exists_last (by rw [h0]; exact List.cons_ne_nil _ _)
    rw [ht, Option.map_some, hcs, linkAfter_last hn]
    simp

/-- A buffer that loses its list: its chunks are on no list any more. -/
def Buf.emptied (b : Buf) : Buf := { b with chunks := [], tail := none, datalen := 0 }

theorem Buf.emptied_ok (hb : b.Ok) : b.emptied.Ok := ⟨Linked.nil, rfl, Nat.zero_le _, hb.chunkSize⟩

theorem State.Ok.forget (hs : s.Ok) (hi : s.bufs[i]? = some b) : (s.setBuf i b.emptied s.heap).Ok := by
  have hget : ∀ (k : Nat) (d : Buf), (s.bufs.set i b.emptied)[k]? = some d →
      ∀ p ∈ addrsOf d.chunks, s.bufs[k]? = some d := by
    intro k d hd p hp
    rw [List.getElem?_set] at hd
    split at hd
    · split at hd
      · cases hd
        simp [Buf.emptied] at hp
      · cases hd
    · exact hd
  refine ⟨?_, ?_, ?_, ?_⟩
  · intro c hc
    rcases List.mem_or_eq_of_mem_set hc with hc | rfl
    · exact hs.bufs c hc
    · exact Buf.emptied_ok (hs.buf hi)
  · intro j k c d hc hd p hpc hpd
    exact hs.apart j k c d (hget j c hc p hpc) (hget k d hd p hpd) p hpc hpd
  · intro c hc p hp
    rcases List.mem_or_eq_of_mem_set hc with hc | rfl
    · exact hs.fresh c hc p hp
    · simp [Buf.emptied] at hp
  · have hsum := sum_map_set (fun b => allocationOf b.chunks) hi b.emptied
    have := hs.total
    simp only [State.setBuf, Buf.emptied, allocationOf_nil] at *
    omega

/-- Two buffers, the list of the second linked after that of the first. -/
theorem State.Ok.steal (hs : s.Ok) (hij : i ≠ j) (hi : s.bufs[i]? = some b) (hj : s.bufs[j]? = some c)
    (h0 : c.chunks ≠ []) (hmax : b.datalen + c.datalen ≤ bufMaxLen) (hb : b' = { b with
      chunks := b.chunks ++ c.chunks
      tail := c.tail
      datalen := b.datalen + c.datalen }) :
    ((s.setBuf i b' s.heap).setBuf j c.emptied s.heap).Ok := by
  have hbok := hs.buf hi
  have hcok := hs.buf hj
  have hchunks : b'.chunks = b.chunks ++ c.chunks := by rw [hb]
  have hboth : ∀ p, p ∈ addrsOf b'.chunks → p ∈ addrsOf b.chunks ∨ p ∈ addrsOf c.chunks := by
    intro p hp
    rwa [hchunks, addrsOf_append, List.mem_append] at hp
  have hapart : ∀ p ∈ addrsOf b.chunks, p ∉ addrsOf c.chunks :=
    fun p hp hpc => hij (hs.apart i j b c hi hj p hp hpc)
  have hget : ∀ (k : Nat) (d : Buf), ((s.bufs.set i b').set j c.emptied)[k]? = some d → ∀ p ∈ addrsOf d.chunks,
      (k = i ∧ d = b') ∨ (k ≠ i ∧ k ≠ j ∧ s.bufs[k]? = some d) := by
    intro k d hd p hp
    rw [List.getElem?_set] at hd
    split at hd
    · split at hd
      · cases hd
        simp [Buf.emptied] at hp
      · cases hd
    · rw [List.getElem?_set] at hd
      split at hd
      · split at hd
        · cases hd
          exact .inl ⟨Eq.symm ‹_›, rfl⟩
        · cases hd
      · exact .inr ⟨Ne.symm ‹_›, Ne.symm ‹_›, hd⟩
  refine ⟨?_, ?_, ?_, ?_⟩
  · intro d hd
    rcases List.mem_or_eq_of_mem_set hd with hd | rfl
    · rcases List.mem_or_eq_of_mem_set hd with hd | rfl
      · exact hs.bufs d hd
      · rw [hb]
        refine ⟨hbok.linked.append hcok.linked h0 hapart, ?_, hmax, hbok.chunkSize⟩
        simp only [bytesOf_append, List.length_append, hbok.datalen, hcok.datalen]
    · exact Buf.emptied_ok hcok
  · intro k l d e hd he p hpd hpe
    -- only two lists that the move did not touch, or the joined list with itself, can share a chunk
    rcases hget k d hd p hpd with ⟨hk, hdb⟩ | ⟨hki, hkj, hd'⟩
    · rcases hget l e he p hpe with ⟨hl, -⟩ | ⟨hli, hlj, he'⟩
      · omega
      · rcases hboth p (hdb ▸ hpd) with hp | hp
        · exact absurd (hs.apart l i e b he' hi p hpe hp) hli
        · exact absurd (hs.apart l j e c he' hj p hpe hp) hlj
    · rcases hget l e he p hpe with ⟨hl, heb⟩ | ⟨hli, hlj, he'⟩
      · rcases hboth p (heb ▸ hpe) with hp | hp
        · exact absurd (hs.apart k i d b hd' hi p hpd hp) hki
        · exact absurd (hs.apart k j d c hd' hj p hpd hp) hkj
      · exact hs.apart k l d e hd' he' p hpd hpe
  · intro d hd p hp
    obtain ⟨k, hk⟩ := List.mem_iff_getElem?.mp hd
    rcases hget k d hk p hp with ⟨-, rfl⟩ | ⟨-, -, hd⟩
    · rcases hboth p hp with hp | hp
      · exact hs.fresh b (List.mem_of_getElem? hi) p hp
      · exact hs.fresh c (List.mem_of_getElem? hj) p hp
    · exact hs.fresh d (List.mem_of_getElem? hd) p hp
  · have hj' : (s.bufs.set i b')[j]? = some c := by rw [List.getElem?_set_ne hij, hj]
    have h1 := sum_map_set (fun b => allocationOf b.chunks) hi b'
    have h2 := sum_map_set (fun b => allocationOf b.chunks) hj' c.emptied
    have h3 := hs.total
    have h4 : allocationOf b'.chunks = allocationOf b.chunks + allocationOf c.chunks := by
      rw [hchunks, allocationOf_append]
    simp only [State.setBuf, Buf.emptied, allocationOf_nil] at *
    omega

theorem Queues.bytes_set (i j : Nat) (x : List UInt8) :
    Queues.bytes (q.set i x) j = if i = j ∧ i < q.length then x else q.bytes j := by
  simp only [Queues.bytes, List.getD_eq_getElem?_getD, List.getElem?_set]
  by_cases hij : i = j
  · subst hij
    by_cases hi : i < q.length
    · simp [hi]
    · simp [hi]
  · simp [hij]

theorem Queues.set_bytes (q : Queues) (i : Nat) : q.set i (q.bytes i) = q := by
  refine List.ext_getElem? fun j => ?_
  rw [List.getElem?_set, Queues.bytes, List.getD_eq_getElem?_getD]
  split
  · subst i
    split
    · rw [List.getElem?_eq_getElem ‹_›, Option.getD_some]
    · exact (List.getElem?_eq_none (Nat.le_of_not_lt ‹_›)).symm
  · rfl

theorem Queues.move_zero (out inp : Nat) : q.move out inp 0 = q := by
  simp only [Queues.move, List.drop_zero, List.take_zero, List.append_nil, Queues.set_bytes]

variable {out inp : Nat}

/-- Moving bytes in two goes moves the same bytes as moving them at once. -/
theorem Queues.move_move {n m : Nat} (ho : out < q.length) (hi : inp < q.length)
    (hn : n + m ≤ (q.bytes inp).length) : (q.move out inp n).move out inp m = q.move out inp (n + m) := by
  by_cases hoi : out = inp
  · subst hoi
    have htake : (q.bytes out).take (n + m) = (q.bytes out).take n ++ ((q.bytes out).drop n).take m := List.take_add
    simp only [Queues.move, Queues.bytes_set, List.set_set, ho, and_self, if_true]
    rw [List.take_append_of_le_length (by rw [List.length_drop]; omega),
      List.drop_append_of_le_length (by rw [List.length_drop]; omega), List.drop_drop, htake, List.append_assoc]
  · have htake : (q.bytes inp).take (n + m) = (q.bytes inp).take n ++ ((q.bytes inp).drop n).take m := List.take_add
    simp only [Queues.move, Queues.bytes_set, List.length_set, ho, hi, hoi, Ne.symm hoi, and_true, and_self,
      if_true, if_false, List.drop_drop, htake, ← List.append_assoc]
    rw [List.set_comm _ _ (Ne.symm hoi), List.set_set, List.set_comm _ _ hoi, List.set_set]

theorem bufMoveToBufLoop_spec (out inp : Nat) (turns : Nat) : ∀ (s : State) (len : Nat), s.Ok →
    out < s.contents.length → inp < s.contents.length → len ≤ turns → len ≤ (s.contents.bytes inp).length →
    (s.contents.bytes out).length + len ≤ bufMaxLen →
    ∃ t, bufMoveToBufLoop out inp turns s len = some t ∧ t.Ok ∧ t.contents = s.contents.move out inp len := by
  induction turns with
  | zero =>
    intro s len hs ho hi hle hlen hmax
    obtain rfl : len = 0 := by omega
    exact ⟨s, rfl, hs, (Queues.move_zero _ _ _).symm⟩
  | succ turns ih =>
    intro s len hs ho hi hle hlen hmax
    rcases len with _ | len
    · exact ⟨s, rfl, hs, (Queues.move_zero _ _ _).symm⟩
    -- the bytes of one turn, out of the one buffer
    obtain ⟨n, hn, hn0, hnle⟩ : ∃ n, (if 4096 < len + 1 then 4096 else len + 1) = n ∧ 0 < n ∧ n ≤ len + 1 :=
      ⟨_, rfl, by split <;> omega, by split <;> omega⟩
    obtain ⟨bi, hbi⟩ := exists_buf hi
    have hbytes := bytes_contents hbi
    obtain ⟨bi', h1, hget, hbec1⟩ := bufGetBytes_spec (hs.buf hbi) (hs.covers hbi) (n := n) (by rw [← hbytes]; omega)
    have hs1 := hs.setBuf hbi hbec1
    have hq1 : (s.setBuf inp bi' h1).contents = s.contents.set inp ((s.contents.bytes inp).drop n) := by
      rw [contents_setBuf, hbec1.contents, hbytes]
    have hlen1 : ((s.setBuf inp bi' h1).contents.bytes out).length + n ≤ bufMaxLen := by
      rw [hq1, Queues.bytes_set]
      split
      · next he => rw [he.1, List.length_drop] at *; omega
      · omega
    -- and into the other
    obtain ⟨bo, hbo⟩ := exists_buf (s := s.setBuf inp bi' h1) (i := out) (by rw [hq1, List.length_set]; exact ho)
    have hbytes1 := bytes_contents hbo
    have htake : ((bytesOf bi.chunks).take n).length = n := by rw [List.length_take, ← hbytes]; omega
    have hadd := bufAdd_spec (hs1.buf hbo) (hs1.covers hbo) ((bytesOf bi.chunks).take n) (by omega)
    rw [htake, if_pos (by rw [← hbytes1]; exact hlen1)] at hadd
    obtain ⟨bo', h2, hadd, hbec2⟩ := hadd
    have hs2 := hs1.setBuf hbo hbec2
    have hq2 : ((s.setBuf inp bi' h1).setBuf out bo' h2).contents = s.contents.move out inp n := by
      rw [contents_setBuf, hbec2.contents, ← hbytes1, hq1, ← hbytes, Queues.move]
    -- the rest of them by induction
    have hleft : (((s.setBuf inp bi' h1).setBuf out bo' h2).contents.bytes inp).length ≥ len + 1 - n ∧
        (((s.setBuf inp bi' h1).setBuf out bo' h2).contents.bytes out).length + (len + 1 - n) ≤ bufMaxLen := by
      rw [hq2]
      simp only [Queues.move, Queues.bytes_set, List.length_set, ho, hi, and_true]
      by_cases hoi : out = inp
      · subst hoi
        simp only [if_true, List.length_append, List.length_drop, List.length_take]
        omega
      · simp only [hoi, Ne.symm hoi, if_false, if_true, List.length_append, List.length_drop, List.length_take]
        omega
    have hlength : ((s.setBuf inp bi' h1).setBuf out bo' h2).contents.length = s.contents.length := by
      rw [hq2, Queues.move, List.length_set, List.length_set]
    obtain ⟨t, hrun, ht, hqt⟩ := ih ((s.setBuf inp bi' h1).setBuf out bo' h2) (len + 1 - n) hs2 (by rw [hlength]; exact ho)
      (by rw [hlength]; exact hi) (by omega) hleft.1 hleft.2
    refine ⟨t, ?_, ht, ?_⟩
    · rw [bufMoveToBufLoop]
      simp only [hn, hbi, Option.bind_eq_bind, Option.bind_some, hget, hbo, hadd]
      exact hrun
    · rw [hqt, hq2, Queues.move_move _ ho hi (by omega)]
      congr 1
      omega

/-- What one legal call has to give: a state that is whole, with the next queues, and a right answer. -/
def Simulates (s : State) (op : Op) : Prop :=
  ∃ t r, step s op = some (t, r) ∧ answersOf s.contents op r ∧ t.Ok ∧ t.contents = nextQueues s.contents op

theorem moveToBuf_simulates (hs : s.Ok) (ho : out < s.contents.length) (hi : inp < s.contents.length)
    (flushlen : Nat) : Simulates s (.moveToBuf out inp flushlen) := by
  obtain ⟨bo, hbo⟩ := exists_buf ho
  obtain ⟨bi, hbi⟩ := exists_buf hi
  have hdo : bo.datalen = (s.contents.bytes out).length := by rw [(hs.buf hbo).datalen, bytes_contents hbo]
  have hdi : bi.datalen = (s.contents.bytes inp).length := by rw [(hs.buf hbi).datalen, bytes_contents hbi]
  have hmax := (hs.buf hbo).max
  have hmaxi := (hs.buf hbi).max
  by_cases hfit : (s.contents.bytes out).length + flushlen ≤ bufMaxLen
  · have hcp : (if bi.datalen < flushlen then bi.datalen else flushlen) = min flushlen (s.contents.bytes inp).length := by
      split <;> omega
    obtain ⟨t, hrun, ht, hq⟩ := bufMoveToBufLoop_spec out inp
      (min flushlen (s.contents.bytes inp).length) s (min flushlen (s.contents.bytes inp).length) hs ho hi
      (Nat.le_refl _) (by omega) (by omega)
    have hleft : flushlen - min flushlen (s.contents.bytes inp).length = flushlen - (s.contents.bytes inp).length := by
      omega
    refine ⟨t, { Reply.void with
      value := (min flushlen (s.contents.bytes inp).length : Nat)
      len := flushlen - (s.contents.bytes inp).length }, ?_, ?_, ht, ?_⟩
    · simp only [step, bufMoveToBuf, hbo, hbi, Option.bind_eq_bind, Option.bind_some, hcp]
      rw [if_neg (by omega), if_neg (by omega), if_pos (by omega), hrun]
      simp only [Option.bind_some, hleft]
    · simp only [answersOf, if_pos hfit]
    · simp only [nextQueues, if_pos hfit]
      exact hq
  · refine ⟨s, { Reply.void with value := -1, len := flushlen }, ?_, ?_, hs, ?_⟩
    · simp only [step, bufMoveToBuf, hbo, hbi, Option.bind_eq_bind, Option.bind_some]
      by_cases hfl : bufMaxLen < flushlen
      · rw [if_pos (.inr hfl)]
        rfl
      · rw [if_neg (by omega), if_pos (by omega)]
        rfl
    · simp only [answersOf, if_neg hfit]
    · simp only [nextQueues, if_neg hfit]

theorem moveAll_simulates (hs : s.Ok) (ho : out < s.contents.length) (hi : inp < s.contents.length) :
    Simulates s (.moveAll out inp) := by
  obtain ⟨bo, hbo⟩ := exists_buf ho
  obtain ⟨bi, hbi⟩ := exists_buf hi
  have hqo := bytes_contents hbo
  have hqi := bytes_contents hbi
  have hdo := (hs.buf hbo).datalen
  have hdi := (hs.buf hbi).datalen
  have hmax := (hs.buf hbo).max
  have hmaxi := (hs.buf hbi).max
  rw [← hqo] at hdo
  rw [← hqi] at hdi
  simp only [Simulates, answersOf, nextQueues, step, bufMoveAll, hbo, hbi, Option.bind_eq_bind, Option.bind_some]
  by_cases h0 : bi.datalen = 0
  · -- nothing to move
    have hnil : s.contents.bytes inp = [] := List.length_eq_zero_iff.mp (by omega)
    have hq : (s.contents.set out (s.contents.bytes out)).set inp [] = s.contents := by
      rw [Queues.set_bytes]
      conv_rhs => rw [← Queues.set_bytes s.contents inp, hnil]
    refine ⟨s, Reply.void, by rw [if_pos h0]; rfl, ?_, hs, ?_⟩
    · simp [hnil, Reply.void]
    · rw [hnil, List.append_nil, hq, ite_self]
  by_cases hfit : (s.contents.bytes out).length + (s.contents.bytes inp).length ≤ bufMaxLen
  swap
  · refine ⟨s, Reply.void, ?_, ?_, hs, by rw [if_neg hfit]⟩
    · rw [if_neg h0, if_neg (by omega), if_pos (by omega)]
      rfl
    · rw [if_neg hfit]
      rfl
  have hchunks : bi.chunks ≠ [] := by
    intro hn
    rw [hqi, hn] at hdi
    exact h0 hdi
  rw [if_neg h0, if_neg (by omega), if_neg (by omega), if_pos hfit, if_pos hfit, takeOver_eq (hs.buf hbo).linked]
  simp only [Option.bind_some]
  by_cases hoi : out = inp
  · -- a buffer moved onto itself loses its list
    subst hoi
    obtain rfl : bo = bi := Option.some.inj (hbo.symm.trans hbi)
    have hlt : out < s.bufs.length := by rwa [length_contents] at ho
    have hforget := hs.forget hbo
    refine ⟨s.setBuf out bo.emptied s.heap, _, ?_, rfl, hforget, ?_⟩
    · simp only [State.setBuf, List.getElem?_set_self hlt, Option.bind_some, List.set_set, Buf.emptied, hdi]
    · rw [contents_setBuf, List.set_set]
      rfl
  · have hsteal := hs.steal hoi hbo hbi hchunks (by omega) rfl
    have hin : ∀ b', (s.setBuf out b' s.heap).bufs[inp]? = some bi := by
      intro b'
      rw [State.setBuf, List.getElem?_set_ne hoi, hbi]
    refine ⟨_, _, ?_, rfl, hsteal, ?_⟩
    · rw [hin, hdi]
      rfl
    · rw [contents_setBuf, contents_setBuf, bytesOf_append, hqo, hqi]
      rfl

/-! ## Every call -/

theorem bufNew_ok : bufNew.Ok := ⟨Linked.nil, rfl, Nat.zero_le _, by decide⟩

theorem contents_push (s : State) (b : Buf) (h : Heap) :
    State.contents { heap := h, bufs := s.bufs ++ [b] } = s.contents ++ [bytesOf b.chunks] := by
  simp [State.contents]

theorem length_firstLine {xs line : List UInt8} {sz : Nat} (hidx : xs.findIdx? (· == newline) = some sz)
    (hline : line = xs.take (sz + 1)) : line.length = sz + 1 := by
  have := (List.findIdx?_eq_some_iff_findIdx_eq.mp hidx).1
  rw [hline, List.length_take]
  omega

theorem getLine_simulates (hs : s.Ok) (hi : i < s.contents.length) (dataLen : Nat) :
    Simulates s (.getLine i dataLen) := by
  obtain ⟨b, hb⟩ := exists_buf hi
  have hq := bytes_contents hb
  have hspec := bufGetLine_spec (hs.buf hb) (hs.covers hb) dataLen
  simp only [Simulates, answersOf, nextQueues, step, hb, Option.bind_eq_bind, Option.bind_some, firstLine]
  rw [← hq] at hspec
  rcases hidx : (s.contents.bytes i).findIdx? (· == newline) with _ | sz
  · rw [hidx] at hspec
    simp only at hspec
    refine ⟨s, _, ?_, rfl, hs, rfl⟩
    simp only [hspec, Option.bind_some, setBuf_self hb]
  · rw [hidx] at hspec
    have hlen := length_firstLine hidx rfl
    simp only [Option.map_some, hlen] at *
    by_cases hroom : sz + 1 + 1 ≤ dataLen
    · rw [if_neg (by omega)] at hspec
      obtain ⟨b', h', hget, hbec⟩ := hspec
      refine ⟨_, _, ?_, by rw [if_pos hroom], hs.setBuf hb hbec, ?_⟩
      · simp only [hget, Option.bind_some]
      · rw [if_pos hroom, contents_setBuf, hbec.contents]
    · rw [if_pos (by omega)] at hspec
      refine ⟨s, _, ?_, by rw [if_neg hroom], hs, by rw [if_neg hroom]⟩
      simp only [hspec, Option.bind_some, setBuf_self hb]

theorem add_simulates (hs : s.Ok) (hi : i < s.contents.length) {string : List UInt8} (hle : string.length ≤ bufMaxLen) :
    Simulates s (.add i string) := by
  obtain ⟨b, hb⟩ := exists_buf hi
  have hq := bytes_contents hb
  have hspec := bufAdd_spec (hs.buf hb) (hs.covers hb) string hle
  simp only [Simulates, answersOf, nextQueues, step, hb, Option.bind_eq_bind, Option.bind_some]
  rw [← hq] at hspec
  by_cases hfit : (s.contents.bytes i).length + string.length ≤ bufMaxLen
  · rw [if_pos hfit] at hspec
    obtain ⟨b', h', hadd, hbec⟩ := hspec
    refine ⟨_, _, ?_, by rw [if_pos hfit], hs.setBuf hb hbec, ?_⟩
    · simp only [hadd, Option.bind_some]
    · rw [if_pos hfit, contents_setBuf, hbec.contents]
  · rw [if_neg hfit] at hspec
    refine ⟨s, _, ?_, by rw [if_neg hfit], hs, by rw [if_neg hfit]⟩
    simp only [hspec, Option.bind_some, setBuf_self hb]

theorem step_simulates (hs : s.Ok) {op : Op} (hl : legalCall s.contents op) : Simulates s op := by
  cases op with
  | new =>
    refine ⟨_, _, rfl, ?_, hs.push (Becomes.refl bufNew_ok s.heap), contents_push _ _ _⟩
    rw [answersOf, length_contents]
  | newWithCapacity size =>
    obtain ⟨sz, hsz, hmin, -⟩ := bufPreferredChunkSize_spec hl
    have hok : ({ bufNew with defaultChunkSize := sz } : Buf).Ok :=
      ⟨Linked.nil, rfl, Nat.zero_le _, Nat.le_trans (by decide) hmin⟩
    have hbec : Becomes s.heap s.heap bufNew { bufNew with defaultChunkSize := sz } [] := ⟨hok, Frame.refl _ _, rfl⟩
    refine ⟨_, _, ?_, rfl, hs.push hbec, contents_push _ _ _⟩
    simp only [step, bufNewWithCapacity, hsz, Option.bind_eq_bind, Option.bind_some, length_contents]
  | add i string => exact add_simulates hs hl.1 hl.2
  | drain i n =>
    obtain ⟨b, hb⟩ := exists_buf hl.1
    have hq := bytes_contents hb
    obtain ⟨b', h', hrun, hbec⟩ := bufDrain_spec (hs.buf hb) (hs.covers hb) (n := n) (by rw [← hq]; exact hl.2)
    refine ⟨_, _, ?_, rfl, hs.setBuf hb hbec, ?_⟩
    · simp only [step, hb, Option.bind_eq_bind, Option.bind_some, hrun]
    · rw [contents_setBuf, hbec.contents, ← hq, nextQueues]
  | getBytes i n =>
    obtain ⟨b, hb⟩ := exists_buf hl.1
    have hq := bytes_contents hb
    obtain ⟨b', h', hrun, hbec⟩ := bufGetBytes_spec (hs.buf hb) (hs.covers hb) (n := n) (by rw [← hq]; exact hl.2)
    have hlen : b'.datalen = (s.contents.bytes i).length - n := by
      rw [hbec.ok.datalen, hbec.contents, List.length_drop, hq]
    refine ⟨_, _, ?_, rfl, hs.setBuf hb hbec, ?_⟩
    · simp only [step, hb, Option.bind_eq_bind, Option.bind_some, hrun, hlen, hq]
    · rw [contents_setBuf, hbec.contents, ← hq, nextQueues]
  | peek i n =>
    obtain ⟨b, hb⟩ := exists_buf hl.1
    have hq := bytes_contents hb
    have hrun := bufPeek_spec (hs.buf hb) (n := n) (by rw [← hq]; exact hl.2)
    refine ⟨s, _, ?_, rfl, hs, rfl⟩
    simp only [step, hb, Option.bind_eq_bind, Option.bind_some, hrun, hq]
  | pullup i bytes inPlace =>
    obtain ⟨b, hb⟩ := exists_buf hl
    have hq := bytes_contents hb
    obtain ⟨b', shown, h', hrun, hbec, hpre, hmin⟩ := bufPullup_spec (hs.buf hb) (hs.covers hb) bytes inPlace
    refine ⟨_, { Reply.void with bytes := shown, len := shown.length }, ?_, ?_, hs.setBuf hb hbec, ?_⟩
    · simp only [step, hb, Option.bind_eq_bind, Option.bind_some, hrun]
    · rw [answersOf, hq]
      exact ⟨rfl, hpre, hmin, rfl⟩
    · rw [contents_setBuf, hbec.contents, ← hq, nextQueues, Queues.set_bytes]
  | moveToBuf out inp flushlen => exact moveToBuf_simulates hs hl.1 hl.2 flushlen
  | moveAll out inp => exact moveAll_simulates hs hl.1 hl.2
  | copy i =>
    obtain ⟨b, hb⟩ := exists_buf hl
    obtain ⟨b', h', hrun, hbec⟩ := bufCopy_spec (hs.buf hb) s.heap
    refine ⟨_, _, ?_, rfl, hs.push hbec, ?_⟩
    · simp only [step, hb, Option.bind_eq_bind, Option.bind_some, hrun, length_contents]
    · rw [contents_push, hbec.contents, ← bytes_contents hb, nextQueues]
  | getLine i dataLen => exact getLine_simulates hs hl dataLen
  | clear i =>
    obtain ⟨b, hb⟩ := exists_buf hl
    obtain ⟨b', h', hrun, hbec⟩ := bufClear_spec (hs.buf hb) (hs.covers hb)
    refine ⟨_, _, ?_, rfl, hs.setBuf hb hbec, ?_⟩
    · simp only [step, hb, Option.bind_eq_bind, Option.bind_some, hrun]
    · rw [contents_setBuf, hbec.contents, nextQueues]
  | addChunkWithCapacity i capacity capped =>
    obtain ⟨b, hb⟩ := exists_buf hl.1
    have hq := bytes_contents hb
    obtain ⟨b', h', hrun, hbec, -⟩ := bufAddChunkWithCapacity_spec (hs.buf hb) (hs.covers hb) hl.2 capped
    refine ⟨_, _, ?_, rfl, hs.setBuf hb hbec, ?_⟩
    · simp only [step, hb, Option.bind_eq_bind, Option.bind_some, hrun]
    · rw [contents_setBuf, hbec.contents, ← hq, nextQueues, Queues.set_bytes]

/-- No buffers yet, and nothing allocated. -/
def State.start : State := { heap := { next := 0, total := 0 }, bufs := [] }

theorem State.start_ok : State.start.Ok :=
  ⟨by simp [State.start], by simp [State.start], by simp [State.start], Nat.le_refl _⟩

/-- Legal calls run to their end, with right answers, and leave the buffers whole and with the bytes of their queues. -/
theorem legal_calls_run (ops : List Op) (hl : queueSpec.Legal [] ops) :
    ∃ s rs, runOut step State.start ops = some (s, rs) ∧ queueSpec.Answers [] ops rs ∧
      s.Ok ∧ s.contents = queueSpec.run [] ops := by
  have hstep : ∀ (s : State) (q : Queues) (op : Op), (s.Ok ∧ s.contents = q) → queueSpec.legal q op →
      ∃ t r, step s op = some (t, r) ∧ queueSpec.answers q op r ∧ (t.Ok ∧ t.contents = queueSpec.next q op) := by
    intro s q op hsq hlegal
    obtain ⟨hs, rfl⟩ := hsq
    exact step_simulates hs hlegal
  exact runOut_refines hstep ⟨State.start_ok, rfl⟩ hl

/-- After any legal calls on any buffers, each buffer holds the bytes of its queue and passes `buf_assert_ok`,
    every call ran to its end, and every answer was right. -/
theorem buffers_are_byte_queues (ops : List Op) (hl : queueSpec.Legal [] ops) :
    ∃ s rs, runOut step State.start ops = some (s, rs) ∧ queueSpec.Answers [] ops rs ∧
      s.contents = queueSpec.run [] ops ∧
      ∀ b ∈ s.bufs, b.datalen = (bytesOf b.chunks).length ∧ bufAssertOk b = true := by
  obtain ⟨s, rs, hrun, hans, hs, hq⟩ := legal_calls_run ops hl
  exact ⟨s, rs, hrun, hans, hq, fun b hb => ⟨(hs.bufs b hb).datalen, bufAssertOk_of_ok (hs.bufs b hb)⟩⟩

/-- The calls "add three bytes, read the line in them, move the rest to another buffer" are legal, and leave the
    one byte after the newline in the other buffer. -/
theorem buffers_are_byte_queues_line_then_move :
    queueSpec.run [] [.new, .new, .add 0 [97, 10, 98], .getLine 0 8, .moveAll 1 0] = [[], [98]] ∧
    ∃ s rs, runOut step State.start [.new, .new, .add 0 [97, 10, 98], .getLine 0 8, .moveAll 1 0] = some (s, rs) ∧
      queueSpec.Answers [] [.new, .new, .add 0 [97, 10, 98], .getLine 0 8, .moveAll 1 0] rs ∧
      s.contents = queueSpec.run [] [.new, .new, .add 0 [97, 10, 98], .getLine 0 8, .moveAll 1 0] ∧
      ∀ b ∈ s.bufs, b.datalen = (bytesOf b.chunks).length ∧ bufAssertOk b = true := by
  refine ⟨by decide, buffers_are_byte_queues _ ?_⟩
  exact ⟨trivial, trivial, ⟨by decide, by decide⟩, show 0 < 2 by decide, ⟨by decide, by decide⟩, trivial⟩

end Badnet.Buffers

/-
  Badnet.Socks.Cuts — which streams may be cut anywhere.

  All ways in which a stream can arrive end the handshake alike exactly if the stream is `CutSafe`
  (`socks_handshake_cut_independent_iff`). A SOCKS4a request with more than 256 bytes behind its username, a SOCKS4
  request of more than 512 bytes, and a username and password message of 513 bytes are taken or not, depending on how
  much of the stream is in the first chunk of the buffer. For each of these the two ways are built here.
-/

import Badnet.Socks.Arrivals

namespace Badnet.Socks

open Lib Net Encoding Buffers

/-! ## Chosen chunks -/

section
variable {set : Settings} {req req' : SocksRequest} {c : Conn} {head : Chunk} {rest : List Chunk}

/-- The code sees the first chunk if that is long enough. -/
theorem bufPullup_head (hc : c.Ok) (hchunks : c.inbuf.chunks = head :: rest)
    (hlong : min MAX_SOCKS_MESSAGE_LEN c.contents.length ≤ head.bytes.length) (inPlace : Bool) :
    bufPullup c.heap c.inbuf (min MAX_SOCKS_MESSAGE_LEN c.inbuf.datalen) inPlace = some (c.inbuf, head.bytes, c.heap) := by
  have hdatalen : c.inbuf.datalen = c.contents.length := hc.buf.datalen
  have hhead : head.bytes.length = head.datalen :=
    Chunk.length_bytes (hc.buf.linked.ok head (by rw [hchunks]; exact List.mem_cons_self))
  unfold bufPullup
  rw [hchunks]
  simp only
  rw [if_pos]
  · rfl
  · split <;> omega

theorem drainBuf_head (hc : c.Ok) (hchunks : c.inbuf.chunks = head :: rest) {k : Nat} (hpos : 0 < k)
    (hk : k < head.bytes.length) :
    ∃ c', drainBuf c k = some c' ∧ c'.Ok ∧ c'.contents = c.contents.drop k ∧ c'.req = c.req ∧
      c'.inbuf.chunks = head.advance k :: rest := by
  have hhead : head.bytes.length = head.datalen :=
    Chunk.length_bytes (hc.buf.linked.ok head (by rw [hchunks]; exact List.mem_cons_self))
  have hle : k ≤ c.contents.length := by
    rw [Conn.contents, hchunks, bytesOf_cons, List.length_append]
    omega
  obtain ⟨c', hdrain, hok, hcontents, hreq⟩ := drainBuf_spec hc hle
  refine ⟨c', hdrain, hok, hcontents, hreq, ?_⟩
  have hdatalen : k ≤ c.inbuf.datalen := Nat.le_trans hle (Nat.le_of_eq hc.buf.datalen.symm)
  obtain ⟨k, rfl⟩ : ∃ j, k = j + 1 := ⟨k - 1, by omega⟩
  have hlt : k + 1 < head.datalen := by omega
  rw [drainBuf, if_pos hpos, bufDrain, if_pos hdatalen, hchunks, bufDrainLoop, if_pos hlt] at hdrain
  cases hdrain
  rfl

theorem prefix_contents (hchunks : c.inbuf.chunks = head :: rest) : head.bytes <+: c.contents := by
  rw [Conn.contents, hchunks, bytesOf_cons]
  exact List.prefix_append ..

theorem long_of_head (hchunks : c.inbuf.chunks = head :: rest)
    (h : bytesOf rest = [] ∨ MAX_SOCKS_MESSAGE_LEN ≤ head.bytes.length) :
    min MAX_SOCKS_MESSAGE_LEN c.contents.length ≤ head.bytes.length := by
  rcases h with h | h
  · rw [Conn.contents, hchunks, bytesOf_cons, h, List.append_nil]
    exact Nat.min_le_right ..
  · exact Nat.le_trans (Nat.min_le_left ..) h

/-- A call on a connection of which `m` bytes are consumed answers as the outcome tells. -/
inductive Answers (m : Nat) (c : Conn) (f : Fetched) : Outcome → Prop where
  | waits (h : f.res = 0) : Answers m c f .waiting
  | rejects (h : f.res = -1) : Answers m c f .rejected
  | accepts (h : f.res = 1) (hle : f.conn.contents.length ≤ c.contents.length) :
    Answers m c f (acceptedOutcome f.conn.req (m + (c.contents.length - f.conn.contents.length)))

theorem Answers.before {m k : Nat} {c' : Conn} {f : Fetched} {o : Outcome} (h : Answers (m + k) c' f o)
    (hlen : c'.contents.length + k = c.contents.length) : Answers m c f o := by
  cases h with
  | waits h => exact .waits h
  | rejects h => exact .rejects h
  | accepts h hle =>
    have hn : m + k + (c'.contents.length - f.conn.contents.length) = m + (c.contents.length - f.conn.contents.length) := by
      omega
    rw [hn]
    exact .accepts h (by omega)

/-- The turn in which the code looks at the first chunk. -/
theorem fetchLoop_first (hc : c.Ok) (hchunks : c.inbuf.chunks = head :: rest) (hd : 2 ≤ head.bytes.length)
    (hlong : min MAX_SOCKS_MESSAGE_LEN c.contents.length ≤ head.bytes.length) (set : Settings) (inPlace : Nat → Bool)
    (n : Nat) (reply : Option (List UInt8)) : ∃ c', TurnTo set c head.bytes c' ∧
      ((parseSocks set head.bytes c.req).res = .MORE_EXPECTED →
        drainBuf { c with req := (parseSocks set head.bytes c.req).req } (parseSocks set head.bytes c.req).drain = some c') ∧
      ∀ fuel, fetchLoop set inPlace (fuel + 1) n c reply = goesOn set inPlace fuel n (parseSocks set head.bytes c.req).res c'
        ((parseSocks set head.bytes c.req).reply.or reply) := by
  obtain ⟨c', hto, hdrain, hloop⟩ := fetchLoop_of_pullup (bufPullup_head hc hchunks hlong (inPlace n)) hc
    (Becomes.refl hc.buf c.heap) ⟨prefix_contents hchunks, hlong⟩ hd set
  exact ⟨c', hto, hdrain, fun fuel => hloop set fuel reply rfl⟩

/-- If the first chunk has the whole stream, or 512 bytes to the end, then the code looks at it and at nothing else. -/
theorem fetchLoop_head {d : List UInt8} {m : Nat} {o : Outcome} (h : Verdict set req d m o) (inPlace : Nat → Bool) :
    ∀ {c : Conn} (n : Nat) {head : Chunk} {rest : List Chunk} (reply : Option (List UInt8)), c.Ok → c.req = req →
      c.inbuf.chunks = head :: rest → head.bytes = d → 2 ≤ d.length →
      (∀ req' d', Leads set req d req' d' → bytesOf rest = [] ∨ MAX_SOCKS_MESSAGE_LEN ≤ d'.length) →
      ∃ fuel f, fetchLoop set inPlace fuel n c reply = some f ∧ Answers m c f o := by
  induction h with
  | short hv =>
    intro c n head rest reply _ _ _ _ hd
    omega
  | truncated hv hres =>
    intro c n head rest reply hc hreq hchunks hhead hd hsees
    subst hreq hhead
    obtain ⟨c', -, -, hloop⟩ :=
      fetchLoop_first hc hchunks hd (long_of_head hchunks (hsees _ _ .refl)) set inPlace n reply
    refine ⟨1, _, (hloop 0).trans ?_, .waits (f := ⟨0, c', (parseSocks set head.bytes c.req).reply.or reply⟩) rfl⟩
    rw [hres]
    rfl
  | invalid hv hres =>
    intro c n head rest reply hc hreq hchunks hhead hd hsees
    subst hreq hhead
    obtain ⟨c', -, -, hloop⟩ :=
      fetchLoop_first hc hchunks hd (long_of_head hchunks (hsees _ _ .refl)) set inPlace n reply
    refine ⟨1, _, (hloop 0).trans ?_, .rejects (f := ⟨-1, c', (parseSocks set head.bytes c.req).reply.or reply⟩) rfl⟩
    rw [hres]
    rfl
  | @done req d m hv hres =>
    intro c n head rest reply hc hreq hchunks hhead hd hsees
    subst hreq hhead
    have hle := parseSocks_drain_le hd (prefix_contents hchunks) (.inl hres)
    obtain ⟨c', ⟨-, hreq', hcontents⟩, -, hloop⟩ :=
      fetchLoop_first hc hchunks hd (long_of_head hchunks (hsees _ _ .refl)) set inPlace n reply
    simp only [hres] at hcontents
    have hlen : c'.contents.length = c.contents.length - (parseSocks set head.bytes c.req).drain := by
      rw [hcontents, List.length_drop]
    have hused : c.contents.length - c'.contents.length = (parseSocks set head.bytes c.req).drain := by omega
    refine ⟨1, ⟨1, c', (parseSocks set head.bytes c.req).reply.or reply⟩, ?_, ?_⟩
    · rw [hloop, hres]
      rfl
    · have hanswers := Answers.accepts (m := m) (c := c) (f := ⟨1, c', (parseSocks set head.bytes c.req).reply.or reply⟩) rfl
        (by simp only; omega)
      simp only [hreq', hused] at hanswers
      exact hanswers
  | @more req d m o hv hres hrest ih =>
    intro c n head rest reply hc hreq hchunks hhead hd hsees
    subst hreq hhead
    obtain ⟨used, after, hused, hge, hn, -⟩ := parseSocks_more_used hd hres
    have hlen : head.bytes.length = used.length + after.length := by rw [hused, List.length_append]
    have hle := parseSocks_drain_le hd (prefix_contents hchunks) (.inr hres)
    obtain ⟨c', ⟨hok, hreq', hcontents⟩, hdrain, hloop⟩ :=
      fetchLoop_first hc hchunks hd (long_of_head hchunks (hsees _ _ .refl)) set inPlace n reply
    simp only [hres] at hcontents
    have hgoes : ∀ fuel, fetchLoop set inPlace (fuel + 1) n c reply = _ := fun fuel =>
      (hloop fuel).trans (by rw [hres, goesOn])
    by_cases hmore : 2 ≤ after.length
    · obtain ⟨c1, hdrain1, -, -, -, hchunks'⟩ := drainBuf_head
        (show Conn.Ok { c with req := (parseSocks set head.bytes c.req).req } from ⟨hc.buf, hc.covers⟩) hchunks
        (show 0 < (parseSocks set head.bytes c.req).drain by omega) (by omega)
      obtain rfl := Option.some.inj ((hdrain hres).symm.trans hdrain1)
      have hhead' := Chunk.bytes_advance (c := head) (parseSocks set head.bytes c.req).drain
      have hafter : (head.bytes.drop (parseSocks set head.bytes c.req).drain).length = after.length := by
        rw [List.length_drop]
        omega
      obtain ⟨fuel, f, hrun, hanswers⟩ := ih (n + 1) ((parseSocks set head.bytes c.req).reply.or reply)
        hok hreq' hchunks' hhead' (hafter ▸ hmore) fun req' d' hleads => hsees req' d' (.step hd hres hleads)
      have hlen' : c'.contents.length = c.contents.length - (parseSocks set head.bytes c.req).drain := by
        rw [hcontents, List.length_drop]
      have hlong' : c'.contents.length ≥ 2 := by
        have hall := (prefix_contents hchunks').length_le
        rw [hhead', hafter] at hall
        exact Nat.le_trans hmore hall
      refine ⟨fuel + 1, f, ?_, hanswers.before (by omega)⟩
      rw [hgoes, if_pos hlong', hrun]
    · -- there is nothing behind the chunk, so the loop is left
      have hdrop : (head.bytes.drop (parseSocks set head.bytes c.req).drain).length < 2 := by
        rw [List.length_drop]
        omega
      have hnone : bytesOf rest = [] :=
        (hsees _ _ (.step hd hres .refl)).resolve_right fun hmax => absurd (Nat.lt_of_le_of_lt hmax hdrop) (by decide)
      obtain rfl : o = .waiting := hrest.unique (.short hdrop)
      have hshort : ¬ c'.contents.length ≥ 2 := by
        rw [hcontents, Conn.contents, hchunks, bytesOf_cons, hnone, List.append_nil]
        exact Nat.not_le.mpr hdrop
      refine ⟨1, ⟨0, c', (parseSocks set head.bytes c.req).reply.or reply⟩, ?_, .waits rfl⟩
      rw [hgoes, if_neg hshort]

end

variable (addr : Nat) (bytes : List UInt8)

/-- A chunk with these bytes and no room for more. -/
def chunkOf : Chunk :=
  { addr, datalen := bytes.length, dbgAlloc := chunkAllocSize bytes.length, data := 0, mem := bytes }

variable (pieces : List (List UInt8))

def chunksOf : List Chunk := pieces.mapIdx chunkOf

/-- A connection with these pieces of a stream in its chunks. -/
def connOf (req : SocksRequest) (pieces : List (List UInt8)) : Conn where
  heap := ⟨pieces.length, allocationOf (chunksOf pieces)⟩
  inbuf := ⟨pieces.flatten.length, 4096, chunksOf pieces, (addrsOf (chunksOf pieces)).getLast?⟩
  req

theorem chunkOf_ok : (chunkOf addr bytes).Ok :=
  ⟨Nat.le_of_eq (Nat.zero_add _), rfl⟩

theorem chunkOf_bytes : (chunkOf addr bytes).bytes = bytes := by
  simp [chunkOf, Chunk.bytes, Chunk.read]

theorem addrsOf_chunksOf : addrsOf (chunksOf pieces) = List.range pieces.length :=
  List.ext_getElem (by simp [addrsOf, chunksOf]) (by simp [addrsOf, chunksOf, chunkOf])

theorem bytesOf_chunksOf : bytesOf (chunksOf pieces) = pieces.flatten := by
  have hbytes : (chunksOf pieces).map Chunk.bytes = pieces :=
    List.ext_getElem (by simp [chunksOf]) (by simp [chunksOf, chunkOf_bytes])
  rw [bytesOf, List.flatMap_def, hbytes]

section
variable {set : Settings} {req : SocksRequest} {pieces : List (List UInt8)}

theorem connOf_ok (hlen : pieces.flatten.length ≤ bufMaxLen) : (connOf req pieces).Ok where
  buf := by
    refine ⟨⟨?_, ?_, rfl⟩, ?_, hlen, show chunkOverhead ≤ 4096 by decide⟩
    · intro c hc
      obtain ⟨i, hi, rfl⟩ := List.mem_mapIdx.mp hc
      exact chunkOf_ok ..
    · exact addrsOf_chunksOf pieces ▸ List.nodup_range
    · rw [connOf, bytesOf_chunksOf]
  covers := by
    refine ⟨fun p hp => ?_, Nat.le_refl _⟩
    simp only [connOf, addrsOf_chunksOf] at hp
    exact List.mem_range.mp hp

theorem connOf_delivers (prefer : Bool) (hlen : pieces.flatten.length ≤ bufMaxLen) :
    Delivers (connStart prefer) pieces.flatten (connOf (socksRequestNew prefer) pieces) where
  ok := connOf_ok hlen
  contents := bytesOf_chunksOf pieces
  req := rfl

/-- How a stream ends whose first part arrives in one or two chunks, the second behind 512 bytes. -/
theorem arrives_of_verdict {prefer : Bool} {d : List UInt8} {behind : List (List UInt8)} {rest : List UInt8} {o : Outcome}
    (hlen : (d :: behind).flatten.length ≤ bufMaxLen) (hverdict : Verdict set (socksRequestNew prefer) d 0 o)
    (hsees : ∀ req' d', Leads set (socksRequestNew prefer) d req' d' →
      behind = [] ∨ MAX_SOCKS_MESSAGE_LEN ≤ d'.length) (hrest : o = .waiting → rest = []) :
    Arrives set (connStart prefer) 0 ((d :: behind).flatten ++ rest) o := by
  have hdelivers := connOf_delivers prefer hlen
  obtain ⟨fuel, f, hcall, hanswers⟩ : ∃ fuel f, fetchFromBufSocks set (fun _ => false) fuel
      (connOf (socksRequestNew prefer) (d :: behind)) = some f ∧
      Answers 0 (connOf (socksRequestNew prefer) (d :: behind)) f o := by
    unfold fetchFromBufSocks
    by_cases hd : d.length < 2
    · obtain rfl : behind = [] :=
        (hsees _ _ .refl).resolve_right fun hmax => absurd (Nat.lt_of_le_of_lt hmax hd) (by decide)
      obtain rfl : o = .waiting := hverdict.unique (.short hd)
      exact ⟨0, _, if_pos (by simpa [connOf] using hd), .waits rfl⟩
    · have hd := Nat.not_lt.mp hd
      obtain ⟨fuel, f, hloop, hanswers⟩ := fetchLoop_head hverdict (fun _ => false) 0 none
        hdelivers.ok rfl List.mapIdx_cons (chunkOf_bytes 0 d) hd fun req' d' hleads => by
          refine (hsees req' d' hleads).imp_left fun hnone => ?_
          rw [hnone]
          rfl
      have hdatalen : ¬ (connOf (socksRequestNew prefer) (d :: behind)).inbuf.datalen < 2 := by
        simp only [connOf, List.flatten_cons, List.length_append]
        omega
      exact ⟨fuel, f, by rw [if_neg hdatalen, hloop], hanswers⟩
  cases hanswers with
  | waits h =>
    obtain rfl := hrest rfl
    obtain ⟨res, conn, reply⟩ := f
    cases h
    exact .waits hdelivers hcall .finish
  | rejects h =>
    obtain ⟨res, conn, reply⟩ := f
    cases h
    exact .rejects hdelivers hcall
  | accepts h =>
    obtain ⟨res, conn, reply⟩ := f
    cases h
    exact .accepts hdelivers hcall

end

/-! ## Streams that may not be cut -/

section
variable {set : Settings} {req req' req1 : SocksRequest} {v v' v1 : List UInt8}

section

variable (h : Leads set req v req' v')
include h

/-- The messages before do not depend on what is behind them. -/
theorem Leads.before : ∃ pre, v = pre ++ v' ∧ ∀ x, Leads set req (pre ++ x) req' x := by
  induction h with
  | refl => exact ⟨[], rfl, fun _ => .refl⟩
  | @step req req' v v' hv hres _ ih =>
    obtain ⟨used, rest, rfl, hge, hn, hsame⟩ := parseSocks_more_used hv hres
    rw [hn, List.drop_left] at ih
    obtain ⟨pre, rfl, hleads⟩ := ih
    refine ⟨used ++ pre, (List.append_assoc ..).symm, fun x => ?_⟩
    rw [List.append_assoc]
    have hlen : 2 ≤ (used ++ (pre ++ x)).length := Nat.le_trans hge (by rw [List.length_append]; omega)
    refine .step hlen (by rw [hsame, hres]) ?_
    rw [hsame, hn, List.drop_left]
    exact hleads x

theorem Leads.verdict : ∀ n, ∃ m, ∀ o, Verdict set req' v' m o → Verdict set req v n o := by
  induction h with
  | refl => exact fun n => ⟨n, fun _ ho => ho⟩
  | step hv hres _ ih =>
    intro n
    obtain ⟨m, hm⟩ := ih (n + (parseSocks set _ _).drain)
    exact ⟨m, fun o ho => .more hv hres (hm o ho)⟩

theorem Leads.trans (h' : Leads set req' v' req1 v1) : Leads set req v req1 v1 := by
  induction h with
  | refl => exact h'
  | step hv hres _ ih => exact .step hv hres (ih h')

theorem Leads.length_le : v'.length ≤ v.length := by
  obtain ⟨pre, rfl, -⟩ := h.before
  rw [List.length_append]
  omega

end

/-- There is one way only, up to a message after which no more are expected. -/
theorem Leads.onward (h : Leads set req v req1 v1) (hlast : (parseSocks set v1 req1).res ≠ .MORE_EXPECTED)
    (h' : Leads set req v req' v') : Leads set req' v' req1 v1 := by
  induction h' with
  | refl => exact h
  | step hv hres _ ih =>
    cases h with
    | refl => exact absurd hres hlast
    | step _ _ hrest => exact ih hrest

end

/-- Two ways in which a stream can arrive end differently. -/
def Differs (set : Settings) (prefer : Bool) (w : List UInt8) : Prop :=
  ∃ o o', Arrives set (connStart prefer) 0 w o ∧ Arrives set (connStart prefer) 0 w o' ∧ o ≠ o'

section
variable {set : Settings} {prefer : Bool} {req : SocksRequest} {w v rest : List UInt8}

/-- Where some messages lead in a stream, what arrives in one chunk from there on decides. -/
theorem Leads.arrives {x : List UInt8} {p : Outcome → Prop} (hleads : Leads set (socksRequestNew prefer) w req (x ++ rest))
    (hw : w.length - rest.length ≤ bufMaxLen) (h : ∀ m, ∃ o, Verdict set req x m o ∧ (o = .waiting → rest = []) ∧ p o) :
    ∃ o, Arrives set (connStart prefer) 0 w o ∧ p o := by
  obtain ⟨pre, rfl, hpre⟩ := hleads.before
  obtain ⟨m, hm⟩ := (hpre x).verdict 0
  obtain ⟨o, hverdict, hrest, ho⟩ := h m
  have hlen : [pre ++ x].flatten.length ≤ bufMaxLen := by
    simp only [List.flatten_singleton, List.length_append] at hw ⊢
    omega
  have harrives := arrives_of_verdict hlen (hm o hverdict) (fun _ _ _ => .inl rfl) hrest
  rw [List.flatten_singleton, List.append_assoc] at harrives
  exact ⟨o, harrives, ho⟩

theorem Differs.intro (hyes : ∃ o, Arrives set (connStart prefer) 0 w o ∧ o ≠ .rejected)
    (hno : ∃ o, Arrives set (connStart prefer) 0 w o ∧ o = .rejected) : Differs set prefer w := by
  obtain ⟨o, hyes, hne⟩ := hyes
  obtain ⟨o', hno, rfl⟩ := hno
  exact ⟨o, .rejected, hyes, hno, hne⟩

theorem socks4_handled (hlen : ¬ v.length < SOCKS4_NETWORK_LEN) (hhead : v.head? = some SOCKS_VER_4) (req : SocksRequest) :
    parseSocks set v req = handleSocks4 set v req := by
  have hparse := @parseSocks_socks4_append set req v hhead hlen []
  rwa [List.append_nil] at hparse

section

variable (hleads : Leads set (socksRequestNew prefer) w req v)
include hleads

/-- A request that passes the checks is accepted if it comes alone. -/
theorem socks4_accepted {t : Socks4ClientRequest} (hread : socks4ClientRequestParse v = .ok (t, rest))
    (hw : w.length - rest.length ≤ bufMaxLen) (haccepts : Socks4Accepts set t) :
    ∃ k, Arrives set (connStart prefer) 0 w (acceptedOutcome (socks4Filled req t) k) := by
  obtain ⟨hlen, hhead, -⟩ := socks4_length hread
  obtain ⟨used, rfl, htakes⟩ := socks4ClientRequestParse_steady.ok hread
  have hused : used.length = t.hostnameSize + t.username.length + 9 := by
    rw [List.length_append] at hlen
    omega
  have hsize := haccepts.1.hostnameSize_le
  have hfits : Socks4Fits t used.length := by
    intro _
    unfold SOCKS4_NETWORK_LEN
    omega
  have hall : socks4ClientRequestParse used = .ok (t, []) := by
    have hok := htakes.ok []
    rwa [List.append_nil] at hok
  have hparse : parseSocks set used req = handleSocks4 set used req := by
    refine socks4_handled (fun hlt => ?_) ?_ req
    · unfold SOCKS4_NETWORK_LEN at hlt
      omega
    · rw [← head?_append_of_le (by omega) rest]
      exact hhead
  rcases @handleSocks4_ok set req _ _ _ hall with ⟨heq, -⟩ | ⟨-, hnot⟩
  · rw [heq] at hparse
    obtain ⟨o, harrives, k, rfl⟩ : ∃ o, Arrives set (connStart prefer) 0 w o ∧ ∃ k, o = acceptedOutcome (socks4Filled req t) k := by
      refine hleads.arrives hw fun m => ⟨_, .done (by omega) (by rw [hparse]), nofun, ?_⟩
      rw [hparse]
      exact ⟨_, rfl⟩
    exact ⟨k, harrives⟩
  · exact absurd ⟨haccepts, hfits⟩ hnot

/-- An accepted request of more than 512 bytes, or with too much behind it, is rejected if it comes in another way. -/
theorem socks4_differs (hw : w.length ≤ bufMaxLen) {t : Socks4ClientRequest}
    (hread : socks4ClientRequestParse v = .ok (t, rest)) (haccepts : Socks4Accepts set t)
    (hharm : ¬ (v.length - rest.length ≤ MAX_SOCKS_MESSAGE_LEN ∧ Socks4Fits t v.length)) : Differs set prefer w := by
  obtain ⟨hlen, hhead, -⟩ := socks4_length hread
  obtain ⟨k, haccepted⟩ := socks4_accepted hleads hread (Nat.le_trans (Nat.sub_le ..) hw) haccepts
  refine .intro ⟨_, haccepted, nofun⟩ ?_
  obtain ⟨used, rfl, htakes⟩ := socks4ClientRequestParse_steady.ok hread
  have hused : used.length = t.hostnameSize + t.username.length + 9 := by
    rw [List.length_append] at hlen
    omega
  by_cases hlong : used.length ≤ MAX_SOCKS_MESSAGE_LEN
  · have hnot : ¬ Socks4Fits t (used ++ rest).length := fun hfits => hharm ⟨by simpa using hlong, hfits⟩
    rw [← List.append_nil (used ++ rest)] at hleads
    refine hleads.arrives (Nat.le_trans (Nat.sub_le ..) hw) fun m =>
      ⟨_, .invalid (by rw [List.length_append]; omega) ?_, nofun, rfl⟩
    rw [socks4_handled (fun hlt => ?_) hhead]
    · rcases handleSocks4_ok hread with ⟨-, -, hfits⟩ | ⟨heq, -⟩
      · exact absurd hfits hnot
      · exact heq
    · rw [List.length_append] at hlt
      unfold SOCKS4_NETWORK_LEN at hlt
      omega
  · have htake : (used.take MAX_SOCKS_MESSAGE_LEN).length = MAX_SOCKS_MESSAGE_LEN :=
      List.length_take_of_le (Nat.le_of_not_le hlong)
    have hhead' : (used.take MAX_SOCKS_MESSAGE_LEN).head? = some SOCKS_VER_4 := by
      rw [← head?_append_of_le (by rw [htake]; decide) (used.drop MAX_SOCKS_MESSAGE_LEN ++ rest), ← List.append_assoc,
        List.take_append_drop]
      exact hhead
    rw [← List.take_append_drop MAX_SOCKS_MESSAGE_LEN used, List.append_assoc] at hleads
    refine hleads.arrives (Nat.le_trans (Nat.sub_le ..) hw) fun m =>
      ⟨_, .invalid (by rw [htake]; decide) ?_, nofun, rfl⟩
    have hshort := htakes.short (used.take MAX_SOCKS_MESSAGE_LEN) (List.take_prefix ..) (by omega)
    rw [socks4_handled (by rw [htake]; decide) hhead', handleSocks4_short hshort]
    exact if_pos (Nat.le_of_eq htake.symm)

/-- A username and password message of 513 bytes waits for ever if 512 of them are in a chunk of their own. -/
theorem userpass_differs (hw : w.length ≤ bufMaxLen) {t : Socks5ClientUserpassAuth}
    (hread : socks5ClientUserpassAuthParse v = .ok (t, rest)) (hauth : req.gotAuth = false)
    (hlong : v.length - rest.length = MAX_SOCKS_MESSAGE_LEN + 1) (hends : ¬ Verdict set req v 0 .waiting) :
    Differs set prefer w := by
  have hhead := (userpass_length hread).2.1
  obtain ⟨used, hused, htakes⟩ := socks5ClientUserpassAuthParse_steady.ok hread
  have hlen : used.length = MAX_SOCKS_MESSAGE_LEN + 1 := by
    rw [hused, List.length_append] at hlong
    omega
  have hstart : v.take MAX_SOCKS_MESSAGE_LEN = used.take MAX_SOCKS_MESSAGE_LEN := by
    rw [hused, List.take_append_of_le_length (by omega)]
  have htake : (v.take MAX_SOCKS_MESSAGE_LEN).length = MAX_SOCKS_MESSAGE_LEN := by
    rw [hstart, List.length_take_of_le (by omega)]
  have hshort : socks5ClientUserpassAuthParse (v.take MAX_SOCKS_MESSAGE_LEN) = .error .short := by
    rw [hstart]
    refine htakes.short _ (List.take_prefix ..) ?_
    rw [← hstart, htake, hlen]
    exact Nat.lt_succ_self _
  have hhead' : (v.take MAX_SOCKS_MESSAGE_LEN).head? = some SOCKS_AUTH := by
    rw [← head?_append_of_le (by rw [htake]; decide) (v.drop MAX_SOCKS_MESSAGE_LEN), List.take_append_drop]
    exact hhead
  have htrunc : (parseSocks set (v.take MAX_SOCKS_MESSAGE_LEN) req).res = .TRUNCATED := by
    rw [parseSocks_socks5 (by rw [htake]; decide) (.inr hhead'), if_pos ⟨by simp [hauth], .inl hhead'⟩]
    simp [handleSocks5UserpassAuth, parseSocks5UserpassAuth, hshort]
  have hlast : (parseSocks set (v.take MAX_SOCKS_MESSAGE_LEN) req).res ≠ .MORE_EXPECTED := by
    rw [htrunc]
    decide
  -- all of it in one chunk
  obtain ⟨o, hone, hne⟩ : ∃ o, Arrives set (connStart prefer) 0 w o ∧ o ≠ .waiting := by
    rw [← List.append_nil v] at hleads
    refine hleads.arrives (Nat.le_trans (Nat.sub_le ..) hw) fun m => ?_
    obtain ⟨o, ho⟩ := Verdict.exists set req v m
    refine ⟨o, ho, fun _ => rfl, fun hwaits => hends ?_⟩
    exact ho.waiting_of_append hwaits (List.prefix_refl v) 0
  -- and in two
  have htwo : Arrives set (connStart prefer) 0 w .waiting := by
    obtain ⟨pre, rfl, hpre⟩ := hleads.before
    have hall : [pre ++ v.take MAX_SOCKS_MESSAGE_LEN, v.drop MAX_SOCKS_MESSAGE_LEN].flatten = pre ++ v := by simp
    obtain ⟨m, hm⟩ := (hpre (v.take MAX_SOCKS_MESSAGE_LEN)).verdict 0
    have harrives := arrives_of_verdict (hall ▸ hw) (hm _ (.truncated (by rw [htake]; decide) htrunc))
      (fun req' d' hd' => .inr (htake ▸ ((hpre _).onward hlast hd').length_le)) fun _ => rfl
    rwa [hall, List.append_nil] at harrives
  exact ⟨o, .waiting, hone, htwo, hne⟩

end

theorem differs_of_not_safe (hw : w.length ≤ bufMaxLen) (h : ¬ Safe set (socksRequestNew prefer) w) : Differs set prefer w := by
  simp only [Safe, not_forall] at h
  obtain ⟨req, v, hleads, hharm⟩ := h
  by_contra hsame
  refine hharm ⟨fun t rest hread haccepts => ?_, fun t rest hread hauth hlong => ?_⟩
  · by_contra hbad
    exact hsame (socks4_differs hleads hw hread haccepts hbad)
  · by_contra hends
    exact hsame (userpass_differs hleads hw hread hauth hlong hends)

end

/-! ## The streams, as the client writes them -/

/-- If a SOCKS4 request is there that is accepted, it has at most 512 bytes, and its hostname fits with all that follows. -/
def Socks4Safe (set : Settings) (v : List UInt8) : Prop :=
  ∀ t rest, socks4ClientRequestParse v = .ok (t, rest) → Socks4Accepts set t →
    v.length - rest.length ≤ MAX_SOCKS_MESSAGE_LEN ∧ Socks4Fits t v.length

/-- Both fields are as long as they can be, and the message has 513 bytes. -/
def Longest (t : Socks5ClientUserpassAuth) : Prop := t.username.length = 255 ∧ t.passwd.length = 255

/-- A request whose end is still to come. -/
def Undecided (v : List UInt8) : Prop :=
  v.length < 2 ∨ (v.head? = some SOCKS_VER_4 ∧ v.length < SOCKS4_NETWORK_LEN) ∨
  (socks4ClientRequestParse v = .error .short ∧ v.length < MAX_SOCKS_MESSAGE_LEN) ∨
  socks5ClientRequestParse v = .error .short

structure MethodsSafe (set : Settings) (v : List UInt8) : Prop where
  socks4 : Socks4Safe set v
  userpass : ∀ t rest, socks5ClientUserpassAuthParse v = .ok (t, rest) → Socks4Safe set rest ∧ (Longest t → Undecided rest)

/-- A stream of which no part that is looked at misleads: what begins it, what follows the offered methods, and what
    follows a username and password. -/
structure CutSafe (set : Settings) (w : List UInt8) : Prop where
  socks4 : Socks4Safe set w
  userpass : ∀ t rest, socks5ClientUserpassAuthParse w = .ok (t, rest) → ¬ Longest t
  methods : ∀ t v, socks5ClientVersionParse w = .ok (t, v) → OffersMethod t → MethodsSafe set v

section
variable {set : Settings} {prefer : Bool} {req req' : SocksRequest} {w v v' rest : List UInt8}

variable {t : Socks5ClientUserpassAuth}

theorem longest_iff (hread : socks5ClientUserpassAuthParse v = .ok (t, rest)) :
    Longest t ↔ v.length - rest.length = MAX_SOCKS_MESSAGE_LEN + 1 := by
  obtain ⟨hlen, -, hu, hp⟩ := userpass_length hread
  unfold Longest MAX_SOCKS_MESSAGE_LEN
  omega

theorem parseSocks_userpass (set : Settings) (hread : socks5ClientUserpassAuthParse v = .ok (t, rest))
    (hauth : req.gotAuth = false) : parseSocks set v req = handleSocks5UserpassAuth v req := by
  obtain ⟨hlen, hhead, -⟩ := userpass_length hread
  rw [parseSocks_socks5 (by omega) (.inr hhead), if_pos ⟨by simp [hauth], .inl hhead⟩]

theorem leads_methods (set : Settings) (prefer : Bool) {t : Socks5ClientVersion} (hread : socks5ClientVersionParse w = .ok (t, v)) (hoffers : OffersMethod t) :
    ∃ req, Negotiated req ∧ req.gotAuth = false ∧ Leads set (socksRequestNew prefer) w req v := by
  obtain ⟨hlen, hhead⟩ := methods_length hread
  have hparse : parseSocks set w (socksRequestNew prefer) = handleSocks5Methods w (socksRequestNew prefer) := by
    rw [parseSocks_socks5 (by omega) (.inl hhead), hhead]
    rfl
  rcases @handleSocks5Methods_ok (socksRequestNew prefer) _ _ _ hread with ⟨-, req, reply, hneg, hauth, heq⟩ | ⟨hnot, -⟩
  · refine ⟨req, hneg, hauth, .step (by omega) (by rw [hparse, heq]) ?_⟩
    rw [hparse, heq, socks5ClientVersionParse_steady.drop hread]
    exact .refl
  · exact absurd hoffers hnot

theorem leads_userpass (set : Settings) (hread : socks5ClientUserpassAuthParse v = .ok (t, rest))
    (hneg : Negotiated req) (hauth : req.gotAuth = false) : Leads set req v (userpassFilled req t) rest := by
  have hlen := (userpass_length hread).1
  have hparse := parseSocks_userpass set hread hauth
  rcases @handleSocks5UserpassAuth_ok req _ _ _ hread with ⟨-, heq⟩ | ⟨hnot, -⟩
  · refine .step (by omega) (by rw [hparse, heq]) ?_
    rw [hparse, heq, socks5ClientUserpassAuthParse_steady.drop hread]
    exact .refl
  · exact absurd hneg hnot

/-- After a username and password, only a request is left. -/
theorem leads_authenticated (hneg : Negotiated req) (hauth : req.gotAuth = true) (h : Leads set req v req' v') :
    req' = req ∧ v' = v := by
  cases h with
  | refl => exact ⟨rfl, rfl⟩
  | step hv hres =>
    rcases parseSocks_more hv hres with ⟨t, rest, req', reply, hversion, -⟩ | ⟨t, rest, hnone, -⟩
    · exact absurd hneg.1 hversion
    · rw [hauth] at hnone
      cases hnone

theorem leads_negotiated (hneg : Negotiated req) (h : Leads set req v req' v') : (req' = req ∧ v' = v) ∨
    ∃ t rest, socks5ClientUserpassAuthParse v = .ok (t, rest) ∧ req' = userpassFilled req t ∧ v' = rest := by
  cases h with
  | refl => exact .inl ⟨rfl, rfl⟩
  | step hv hres hrest =>
    rcases parseSocks_more hv hres with ⟨t, rest, req', reply, hversion, -⟩ | ⟨t, rest, -, hread, -, heq⟩
    · exact absurd hneg.1 hversion
    · rw [heq, socks5ClientUserpassAuthParse_steady.drop hread] at hrest
      have hneg' : Negotiated (userpassFilled req t) := hneg
      obtain ⟨rfl, rfl⟩ := leads_authenticated hneg' rfl hrest
      exact .inr ⟨t, _, hread, rfl, rfl⟩

theorem leads_start (h : Leads set (socksRequestNew prefer) w req' v') : (req' = socksRequestNew prefer ∧ v' = w) ∨
    ∃ t v req, socks5ClientVersionParse w = .ok (t, v) ∧ OffersMethod t ∧ Negotiated req ∧ req.gotAuth = false ∧
      Leads set req v req' v' := by
  cases h with
  | refl => exact .inl ⟨rfl, rfl⟩
  | step hv hres hrest =>
    rcases parseSocks_more hv hres with ⟨t, v, req, reply, -, hread, hoffers, hneg, hauth, heq⟩ | ⟨t, rest, -, -, hneg, -⟩
    · rw [heq, socks5ClientVersionParse_steady.drop hread] at hrest
      exact .inr ⟨t, v, req, hread, hoffers, hneg, hauth, hrest⟩
    · exact absurd hneg.1 (by change (0 : UInt8) ≠ 5; decide)

/-- What is short has the version that it should have. -/
theorem head_of_short {α : Type} {k : UInt8} {f : UInt8 → Reader UInt8 α} (hv : 2 ≤ v.length)
    (h : (u8 >>= fun version => Reader.check (version = k) >>= fun _ => f version) v = .error .short) : v.head? = some k := by
  obtain ⟨b, tail, rfl⟩ : ∃ b tail, v = b :: tail := List.exists_cons_of_length_pos (by omega)
  by_contra hne
  have hb : ¬ b = k := fun hb => hne (by rw [hb]; rfl)
  simp [Reader.bind_apply, u8, Reader.item, Reader.check, hb] at h

section

variable (hneg : Negotiated req) (hauth : req.gotAuth = true) (hv : 2 ≤ v.length)
include hneg hauth hv

theorem parseSocks_authenticated (h5 : v.head? = some SOCKS_VER_5 ∨ v.head? = some SOCKS_AUTH) :
    parseSocks set v req = handleSocks5ClientRequest set v req := by
  rw [parseSocks_socks5 hv h5, if_neg fun h => h.1 hauth, if_neg fun h => h hneg.1]

theorem undecided_of_truncated (hres : (parseSocks set v req).res = .TRUNCATED) : Undecided v := by
  by_cases h4 : v.head? = some SOCKS_VER_4
  · rw [parseSocks_socks4 hv h4] at hres
    split at hres
    next hlt => exact .inr (.inl ⟨h4, hlt⟩)
    next =>
      obtain ⟨hshort, hlt, -⟩ := handleSocks4_truncated hres
      exact .inr (.inr (.inl ⟨hshort, hlt⟩))
  by_cases h5 : v.head? = some SOCKS_VER_5 ∨ v.head? = some SOCKS_AUTH
  · rw [parseSocks_authenticated hneg hauth hv h5] at hres
    exact .inr (.inr (.inr (handleSocks5ClientRequest_truncated hres).1))
  · rw [parseSocks_unknown hv h4 h5] at hres
    cases hres

theorem truncated_of_undecided (h : Undecided v) : (parseSocks set v req).res = .TRUNCATED := by
  rcases h with hlt | ⟨h4, hlt⟩ | ⟨hshort, hlt⟩ | hshort
  · omega
  · rw [parseSocks_socks4 hv h4, if_pos hlt]
  · rw [parseSocks_socks4 hv (head_of_short hv hshort)]
    split
    · rfl
    · rw [handleSocks4_short hshort]
      exact if_neg (Nat.not_le.mpr hlt)
  · rw [parseSocks_authenticated hneg hauth hv (.inl (head_of_short hv hshort))]
    simp [handleSocks5ClientRequest, parseSocks5ClientRequest, hshort]

end

theorem waiting_iff_undecided (set : Settings) (hneg : Negotiated req) (hauth : req.gotAuth = true) (m : Nat) :
    Verdict set req v m .waiting ↔ Undecided v := by
  constructor
  · intro h
    cases h with
    | short hv => exact .inl hv
    | truncated hv hres => exact undecided_of_truncated hneg hauth hv hres
    | more hv hres hrest =>
      obtain ⟨hreq, hdrop⟩ := leads_authenticated hneg hauth (.step hv hres .refl)
      obtain ⟨used, rest, rfl, hge, hn, -⟩ := parseSocks_more_used hv hres
      rw [hn, List.drop_left] at hdrop
      have hlen := congrArg List.length hdrop
      rw [List.length_append] at hlen
      omega
  · intro h
    by_cases hv : v.length < 2
    · exact .short hv
    · exact .truncated (Nat.not_lt.mp hv) (truncated_of_undecided hneg hauth (Nat.not_lt.mp hv) h)

/-- A message that is read on comes after what is read on. -/
theorem waiting_userpass (hread : socks5ClientUserpassAuthParse v = .ok (t, rest))
    (hneg : Negotiated req) (hauth : req.gotAuth = false) : Verdict set req v 0 .waiting ↔ Undecided rest := by
  have hneg' : Negotiated (userpassFilled req t) := hneg
  obtain ⟨m, hm⟩ := (leads_userpass set hread hneg hauth).verdict 0
  rw [← waiting_iff_undecided set hneg' rfl m]
  refine ⟨fun h => ?_, fun h => hm _ h⟩
  obtain ⟨o, ho⟩ := Verdict.exists set (userpassFilled req t) rest m
  obtain rfl := h.unique (hm o ho)
  exact ho

theorem safe_iff_cutSafe : Safe set (socksRequestNew prefer) w ↔ CutSafe set w := by
  constructor
  · intro h
    refine ⟨h.harmless.socks4, fun t rest hread hlongest => ?_, fun t v hread hoffers => ?_⟩
    · -- before the methods such a message is refused, so it does not wait
      have hwaits := h.harmless.userpass t rest hread rfl ((longest_iff hread).mp hlongest)
      have hlen := (userpass_length hread).1
      rcases @handleSocks5UserpassAuth_ok (socksRequestNew prefer) _ _ _ hread with ⟨hneg, -⟩ | ⟨-, heq⟩
      · exact absurd hneg.1 (by change (0 : UInt8) ≠ 5; decide)
      · rw [← parseSocks_userpass set hread rfl] at heq
        cases hwaits.unique (.invalid (by omega) heq)
    · obtain ⟨req, hneg, hauth, hleads⟩ := leads_methods set prefer hread hoffers
      refine ⟨(h _ _ hleads).socks4, fun t rest hread => ⟨?_, fun hlongest => ?_⟩⟩
      · exact (h _ _ (hleads.trans (leads_userpass set hread hneg hauth))).socks4
      · exact (waiting_userpass hread hneg hauth).mp ((h _ _ hleads).userpass t rest hread hauth ((longest_iff hread).mp hlongest))
  · intro h req' v' hleads
    rcases leads_start hleads with ⟨rfl, rfl⟩ | ⟨t, v, req, hread, hoffers, hneg, hauth, hleads⟩
    · exact ⟨h.socks4, fun t rest hread _ hlong => absurd ((longest_iff hread).mpr hlong) (h.userpass t rest hread)⟩
    have hafter := h.methods t v hread hoffers
    rcases leads_negotiated hneg hleads with ⟨rfl, rfl⟩ | ⟨t, rest, hread, rfl, rfl⟩
    · refine ⟨hafter.socks4, fun t rest hread _ hlong => ?_⟩
      exact (waiting_userpass hread hneg hauth).mpr ((hafter.userpass t rest hread).2 ((longest_iff hread).mpr hlong))
    · exact ⟨(hafter.userpass t _ hread).1, fun _ _ _ hnone => absurd hnone (by simp [userpassFilled])⟩

end

/-! ## All ways of arriving -/

/-- Every call ends, and all ways in which the stream can arrive end alike. -/
structure CutIndependent (set : Settings) (prefer : Bool) (w : List UInt8) : Prop where
  ends : ∀ (c : Conn) (inPlace : Nat → Bool), c.Ok → ∃ f, (f.res = 0 ∨ f.res = 1 ∨ f.res = -1) ∧
    ∀ fuel, c.contents.length ≤ fuel → fetchFromBufSocks set inPlace fuel c = some f
  agrees : ∀ o o', Arrives set (connStart prefer) 0 w o → Arrives set (connStart prefer) 0 w o' → o = o'

theorem Calls.answer {set : Settings} {req req' : SocksRequest} {q q' : List UInt8} {r : Int}
    (h : Calls set req q r req' q') : r = 0 ∨ r = 1 ∨ r = -1 := by
  induction h with
  | short | truncated => exact .inl rfl
  | invalid => exact .inr (.inr rfl)
  | done => exact .inr (.inl rfl)
  | more _ _ _ _ ih => exact ih

/-- A handshake does not depend on how its bytes arrive if the stream is safe to cut, and, of the streams that a buffer
    can hold, only then. -/
theorem socks_handshake_cut_independent_iff (set : Settings) (prefer : Bool) (w : List UInt8) :
    (CutSafe set w → CutIndependent set prefer w) ∧
    (w.length ≤ bufMaxLen → CutIndependent set prefer w → CutSafe set w) := by
  constructor
  · intro hsafe
    refine ⟨fun c inPlace hc => ?_, fun o o' ho ho' => ?_⟩
    · obtain ⟨f, hends, -, hcalls⟩ := fetchFromBufSocks_ends set inPlace hc
      exact ⟨f, hcalls.answer, hends⟩
    · have hsafe : Safe set (connStart prefer).req ((connStart prefer).contents ++ w) := safe_iff_cutSafe.mpr hsafe
      have hok : (connOf (socksRequestNew prefer) []).Ok := connOf_ok (by decide)
      have hwaits : ∀ m, Verdict set (connStart prefer).req (connStart prefer).contents m .waiting :=
        fun m => .short (show 0 < 2 by decide)
      exact (ho.verdict hok hsafe hwaits).unique (ho'.verdict hok hsafe hwaits)
  · intro hw hind
    by_contra hnot
    obtain ⟨o, o', ho, ho', hne⟩ := differs_of_not_safe hw fun hsafe => hnot (safe_iff_cutSafe.mp hsafe)
    exact hne (hind.agrees o o' ho ho')

def plainSettings : Settings := ⟨false, fun _ => false⟩

/-- A SOCKS4a request for the host a. -/
def requestForHost : List UInt8 := [4, 1, 0, 80, 0, 0, 0, 1, 0, 97, 0]

theorem requestForHost_parsed : socks4ClientRequestParse requestForHost = .ok (⟨4, 1, 80, 1, [], some [97]⟩, []) := rfl

theorem socks_handshake_cut_independent_iff_of_request :
    CutSafe plainSettings requestForHost ∧ CutIndependent plainSettings false requestForHost := by
  have hsafe : CutSafe plainSettings requestForHost := by
    refine ⟨fun t rest hread _ => ?_, nofun, nofun⟩
    rw [requestForHost_parsed] at hread
    cases hread
    exact ⟨by decide, fun _ => by decide⟩
  exact ⟨hsafe, (socks_handshake_cut_independent_iff plainSettings false requestForHost).1 hsafe⟩

/-- With 256 bytes behind it, the request is rejected if it comes in one piece, and accepted if it comes alone. -/
theorem a_request_depends_on_what_comes_with_it :
    ¬ CutIndependent plainSettings false (requestForHost ++ List.replicate 256 0) := by
  intro hind
  have haccepts : Socks4Accepts plainSettings ⟨4, 1, 80, 1, [], some [97]⟩ :=
    ⟨⟨nofun, by decide, by decide, by decide⟩, by decide +kernel⟩
  have hlen : (requestForHost ++ List.replicate 256 0).length = 267 := by
    rw [List.length_append, List.length_replicate]
    rfl
  have hharm : ¬ Socks4Fits ⟨4, 1, 80, 1, [], some [97]⟩ (requestForHost ++ List.replicate 256 0).length := by
    intro hfits
    rw [hlen] at hfits
    exact absurd (hfits rfl) (by decide)
  obtain ⟨o, o', ho, ho', hne⟩ := socks4_differs .refl (by rw [hlen]; decide)
    (socks4ClientRequestParse_steady.append requestForHost_parsed (List.replicate 256 0)) haccepts fun h => hharm h.2
  exact hne (hind.agrees o o' ho ho')

end Badnet.Socks

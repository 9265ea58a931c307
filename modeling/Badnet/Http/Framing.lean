/-
  Badnet.Http.Framing — one call of `fetch_from_buf_http` takes one message.

  What the code does is decided by the place of the empty line, the length of the buffer and the bytes of the head
  (`httpVerdict`). So the call takes the first message, or leaves the buffer as it was, if and only if the search comes
  to the verdict of the first empty line and each part of the message that has any bytes is copied for the caller
  (`http_takes_one_message_iff`): a part that the caller does not ask for is not discarded.
-/

import Badnet.Http.ProtoHttp

namespace Badnet.Http

open Lib Buffers Encoding

/-! ## What is decided before anything is taken -/

inductive Verdict where
  | incomplete
  | refused
  | message (headerlen bodylen : Nat)
deriving DecidableEq, Repr

/-- The return value. -/
def Verdict.value : Verdict → Int
  | incomplete => 0
  | refused => -1
  | message _ _ => 1

/-- The tests of the code, for a buffer of `datalen` bytes in which an empty line was found at `crlfOffset`; `headers`
    gives that many bytes of the head. -/
def httpVerdict (datalen : Nat) (r : Request) (headers : Nat → Option (List UInt8)) (crlfOffset : Int) : Option Verdict :=
  if datalen = 0 then some .incomplete
  else if toInt r.maxHeaderlen < crlfOffset ∨ crlfOffset < 0 ∧ r.maxHeaderlen.toNat < datalen then some .refused
  else if crlfOffset < 0 then some .incomplete
  else
    let headerlen := (crlfOffset + 4).toNat
    let bodylen := (datalen + 2 ^ 64 - headerlen) % 2 ^ 64
    if r.maxHeaderlen.toNat ≤ headerlen then some .refused
    else if r.maxBodylen.toNat ≤ bodylen then some .refused
    else (headers headerlen).map fun head =>
      match bufHttpFindContentLength head with
      | .malformed => .refused
      | .present contentlen =>
        if bodylen < contentlen ∧ r.forceComplete = false then .incomplete
        else .message headerlen (if contentlen < bodylen then contentlen else bodylen)
      | .missing => .message headerlen bodylen

/-- The head as the code sees it, once it is pulled up. -/
def pulledHead (h : Heap) (b : Buf) (inPlace : Bool) (n : Nat) : Option (List UInt8) := do
  let (b, _, _) ← bufPullup h b n inPlace
  headMemory b n

/-- The verdict on some bytes, in whatever chunks they are. -/
def contentsVerdict (xs : List UInt8) (r : Request) : Option Verdict :=
  httpVerdict xs.length r (fun n => some (xs.take n)) (offsetAnswer (search endOfHeaders xs))

/-- The verdict of the code. -/
def bufferVerdict (h : Heap) (b : Buf) (r : Request) (inPlace : Bool) : Option Verdict :=
  (bufFindStringOffset b endOfHeaders).bind (httpVerdict b.datalen r (pulledHead h b inPlace))

variable {h h' : Heap} {b b' : Buf} {r : Request} {inPlace : Bool} {xs : List UInt8} {out : Fetched}

/-- In a buffer without bytes nothing is looked for. -/
theorem bufferVerdict_of_empty (hb : b.Ok) (h0 : b.datalen = 0) : bufferVerdict h b r inPlace = some .incomplete := by
  have hnil : bytesOf b.chunks = [] := List.eq_nil_of_length_eq_zero (by rw [← hb.datalen, h0])
  have hall : ∀ c ∈ b.chunks, c.datalen = 0 := by
    intro c hc
    rw [← Chunk.length_bytes (hb.linked.ok c hc)]
    exact List.length_eq_zero_iff.mpr (List.flatMap_eq_nil_iff.mp hnil c hc)
  have hfirst : EmptyFirst b.chunks := ⟨b.chunks, [], (List.append_nil _).symm, hall, by simp⟩
  rw [bufferVerdict, bufFindStringOffset_eq hb hfirst (by decide), Option.bind_some, httpVerdict, if_pos h0]

/-! ## The head -/

theorem bufPullup_shows {bytes : Nat} {shown : List UInt8} (hrun : bufPullup h b bytes inPlace = some (b', shown, h')) :
    (b'.chunks = [] ∧ shown = []) ∨ ∃ c rest, b'.chunks = c :: rest ∧ shown = c.bytes := by
  unfold bufPullup at hrun
  cases hchunks : b.chunks with
  | nil =>
    rw [hchunks] at hrun
    cases hrun
    exact .inl ⟨hchunks, rfl⟩
  | cons head rest =>
    rw [hchunks] at hrun
    simp only at hrun
    generalize (if b.datalen < bytes then b.datalen else bytes) = n at hrun
    by_cases hhead : n ≤ head.datalen
    · rw [if_pos hhead] at hrun
      cases hrun
      exact .inr ⟨head, rest, hchunks, rfl⟩
    · rw [if_neg hhead] at hrun
      simp only [Option.bind_eq_bind, Option.bind_eq_some_iff] at hrun
      obtain ⟨⟨b1, dest, h1⟩, -, ⟨b2, h2⟩, -, head', hhead', heq⟩ := hrun
      cases heq
      obtain ⟨rest', hrest⟩ := List.head?_eq_some_iff.mp hhead'
      exact .inr ⟨head', rest', hrest, rfl⟩

/-- Where the head is in the buffer, the code sees its bytes. -/
theorem pulledHead_eq (hb : b.Ok) (hc : Covers h b.chunks) {n : Nat} (h0 : 0 < n) (hn : n ≤ (bytesOf b.chunks).length) :
    pulledHead h b inPlace n = some ((bytesOf b.chunks).take n) := by
  obtain ⟨b', shown, h', hrun, hbec, hprefix, hlen⟩ := bufPullup_spec hb hc n inPlace
  rw [Nat.min_eq_left hn] at hlen
  simp only [pulledHead, hrun, Option.bind_eq_bind, Option.bind_some]
  rcases bufPullup_shows hrun with ⟨-, rfl⟩ | ⟨c, rest, hchunks, rfl⟩
  · exact absurd hlen (Nat.not_le.mpr h0)
  · have hok := hbec.ok.linked.ok c (by rw [hchunks]; exact List.mem_cons_self)
    have hdatalen : n ≤ c.datalen := by rwa [Chunk.length_bytes hok] at hlen
    have hfit : c.data + n ≤ c.memlen := Nat.le_trans (Nat.add_le_add_left hdatalen _) hok.bounds
    obtain ⟨behind, hxs⟩ := hprefix
    simp only [headMemory, hchunks, if_pos hfit]
    rw [Chunk.read_eq_take hdatalen, ← hxs, List.take_append_of_le_length hlen]

/-! ## Taking a message out -/

/-- What is done on a verdict. -/
def takeMessage (h : Heap) (b : Buf) (r : Request) : Verdict → Option Fetched
  | .incomplete => some (.none h b 0)
  | .refused => some (.none h b (-1))
  | .message headerlen bodylen => copyParts h b r headerlen bodylen

/-- First the verdict, on the buffer as it is, and then the copying, out of the buffer with its head pulled up. -/
theorem fetchFromBufHttp_eq (hb : b.Ok) (hc : Covers h b.chunks) (r : Request) (inPlace : Bool) :
    ∃ b' h', Becomes h h' b b' (bytesOf b.chunks) ∧
      fetchFromBufHttp h b r inPlace = (bufferVerdict h b r inPlace).bind (takeMessage h' b' r) := by
  by_cases h0 : b.datalen = 0
  · refine ⟨b, h, Becomes.refl hb h, ?_⟩
    rw [bufferVerdict_of_empty hb h0, fetchFromBufHttp, if_pos h0]
    rfl
  rw [fetchFromBufHttp, if_neg h0, bufferVerdict]
  cases hfind : bufFindStringOffset b endOfHeaders with
  | none => exact ⟨b, h, Becomes.refl hb h, rfl⟩
  | some off =>
    simp only [Option.bind_eq_bind, Option.bind_some, httpVerdict, if_neg h0]
    by_cases hlong : toInt r.maxHeaderlen < off ∨ off < 0 ∧ r.maxHeaderlen.toNat < b.datalen
    · refine ⟨b, h, Becomes.refl hb h, ?_⟩
      rw [if_pos hlong, if_pos hlong]
      rfl
    by_cases hneg : off < 0
    · refine ⟨b, h, Becomes.refl hb h, ?_⟩
      rw [if_neg hlong, if_neg hlong, if_pos hneg, if_pos hneg]
      rfl
    rw [if_neg hlong, if_neg hlong, if_neg hneg, if_neg hneg]
    obtain ⟨b', shown, h', hrun, hbec, -, -⟩ := bufPullup_spec hb hc (off + 4).toNat inPlace
    have hlen : b'.datalen = b.datalen := by rw [hbec.ok.datalen, hbec.contents, hb.datalen]
    refine ⟨b', h', hbec, ?_⟩
    simp only [hrun, pulledHead, Option.bind_eq_bind, Option.bind_some, hlen]
    by_cases hhead : r.maxHeaderlen.toNat ≤ (off + 4).toNat
    · rw [if_pos hhead, if_pos hhead]
      rfl
    by_cases hbody : r.maxBodylen.toNat ≤ (b.datalen + 2 ^ 64 - (off + 4).toNat) % 2 ^ 64
    · rw [if_neg hhead, if_neg hhead, if_pos hbody, if_pos hbody]
      rfl
    rw [if_neg hhead, if_neg hhead, if_neg hbody, if_neg hbody]
    cases hmem : headMemory b' (off + 4).toNat with
    | none => rfl
    | some head =>
      simp only [Option.bind_some, Option.map_some]
      cases bufHttpFindContentLength head with
      | malformed => rfl
      | missing => rfl
      | present contentlen =>
        simp only
        split
        · rfl
        · rfl

/-- The wanted part is copied and gone from the buffer, and the other one is still there. -/
theorem copyPart_spec (hb : b.Ok) (hc : Covers h b.chunks) (wanted : Bool) (n : Nat) :
    (∃ b' h', copyPart h b wanted n =
        some (b', if wanted then some ((bytesOf b.chunks).take n ++ [0]) else none, h') ∧
      Becomes h h' b b' ((bytesOf b.chunks).drop (if wanted then n else 0)) ∧
      (if wanted then n else 0) ≤ (bytesOf b.chunks).length) ∨
    (copyPart h b wanted n = none ∧ (bytesOf b.chunks).length < if wanted then n else 0) := by
  cases wanted with
  | false => exact .inl ⟨b, h, rfl, Becomes.refl hb h, Nat.zero_le _⟩
  | true =>
    simp only [if_true, copyPart]
    by_cases hn : n ≤ (bytesOf b.chunks).length
    · obtain ⟨b', h', hget, hbec⟩ := bufGetBytes_spec hb hc hn
      exact .inl ⟨b', h', by simp [hget], hbec, hn⟩
    · have hlong : ¬ n ≤ b.datalen := by rwa [hb.datalen]
      exact .inr ⟨by simp [bufGetBytes, bufPeek, hlong], Nat.lt_of_not_le hn⟩

/-- How many bytes the copying takes out of the buffer. -/
def Request.takes (r : Request) (headerlen bodylen : Nat) : Nat :=
  (if r.headersOut then headerlen else 0) + if r.bodyOut then bodylen else 0

/-- What `copyParts` answers, on a buffer that holds `xs`. -/
structure Copied (xs : List UInt8) (r : Request) (headerlen bodylen : Nat) (out : Fetched) : Prop where
  value : out.value = 1
  headers : out.headers = if r.headersOut then some (xs.take headerlen ++ [0]) else none
  body : out.body = if r.bodyOut then some ((xs.drop (if r.headersOut then headerlen else 0)).take bodylen ++ [0]) else none
  bodyUsed : out.bodyUsed = if r.bodyOut then some bodylen else none
  left : bytesOf out.buf.chunks = xs.drop (r.takes headerlen bodylen)
  fits : r.takes headerlen bodylen ≤ xs.length

theorem copyParts_spec (hb : b.Ok) (hc : Covers h b.chunks) (r : Request) (headerlen bodylen : Nat) :
    (∃ out, copyParts h b r headerlen bodylen = some out ∧ Copied (bytesOf b.chunks) r headerlen bodylen out) ∨
    (copyParts h b r headerlen bodylen = none ∧ (bytesOf b.chunks).length < r.takes headerlen bodylen) := by
  rw [copyParts]
  rcases copyPart_spec hb hc r.headersOut headerlen with ⟨b1, h1, hrun1, hbec1, hfits1⟩ | ⟨hrun1, hlong1⟩
  · have hlen := congrArg List.length hbec1.contents
    rw [List.length_drop] at hlen
    rcases copyPart_spec hbec1.ok (hbec1.frame.covers hc) r.bodyOut bodylen with
      ⟨b2, h2, hrun2, hbec2, hfits2⟩ | ⟨hrun2, hlong2⟩
    · refine .inl ⟨_, by simp only [hrun1, hrun2, Option.bind_eq_bind, Option.bind_some]; rfl, rfl, rfl, ?_, rfl, ?_, ?_⟩
      · simp only [hbec1.contents]
      · simp only [hbec2.contents, hbec1.contents, List.drop_drop, Request.takes]
      · rw [Request.takes]
        omega
    · refine .inr ⟨by simp only [hrun1, hrun2, Option.bind_eq_bind, Option.bind_some, Option.bind_none], ?_⟩
      rw [Request.takes]
      omega
  · refine .inr ⟨by simp only [hrun1, Option.bind_eq_bind, Option.bind_none], ?_⟩
    rw [Request.takes]
    omega

/-! ## The first message -/

/-- The first message in some bytes: the head up to the first empty line, and of what follows as much as the
    Content-Length says, or all of it. -/
def firstMessage (xs : List UInt8) : Option (List UInt8 × List UInt8) :=
  (search endOfHeaders xs).bind fun k =>
    let headers := xs.take (k + 4)
    let available := xs.drop (k + 4)
    match bufHttpFindContentLength headers with
    | .malformed => none
    | .present contentlen => some (headers, available.take (min available.length contentlen))
    | .missing => some (headers, available)

theorem search_fits {needle : List UInt8} {k : Nat} (hk : search needle xs = some k) : k + needle.length ≤ xs.length := by
  induction xs generalizing k with
  | nil =>
    rw [search] at hk
    split at hk
    · next hnil =>
      cases hk
      simp [hnil]
    · cases hk
  | cons x xs ih =>
    rw [search] at hk
    split at hk
    · next hprefix =>
      cases hk
      rw [Nat.zero_add]
      exact hprefix.length_le
    · obtain ⟨j, hj, rfl⟩ := Option.map_eq_some_iff.mp hk
      have := ih hj
      rw [List.length_cons]
      omega

theorem contentsVerdict_message (hmax : xs.length ≤ bufMaxLen) {headerlen bodylen : Nat}
    (hv : contentsVerdict xs r = some (.message headerlen bodylen)) :
    firstMessage xs = some (xs.take headerlen, (xs.drop headerlen).take bodylen) ∧
      0 < headerlen ∧ headerlen + bodylen ≤ xs.length := by
  have hceil : bufMaxLen < 2 ^ 64 := by decide
  rw [contentsVerdict, httpVerdict] at hv
  by_cases h0 : xs.length = 0
  · rw [if_pos h0] at hv
    cases hv
  rw [if_neg h0] at hv
  split at hv
  · cases hv
  cases hsearch : search endOfHeaders xs with
  | none =>
    rw [hsearch] at hv
    cases hv
  | some k =>
    have hfits : k + 4 ≤ xs.length := search_fits hsearch
    have hhead : ((k : Int) + 4).toNat = k + 4 := rfl
    have hbody : (xs.length + 2 ^ 64 - (k + 4)) % 2 ^ 64 = xs.length - (k + 4) := by omega
    have hnat : ¬ (k : Int) < 0 := Int.not_lt.mpr (Int.natCast_nonneg k)
    rw [hsearch] at hv
    simp only [offsetAnswer, if_neg hnat, hhead, hbody, Option.map_some] at hv
    split at hv
    · cases hv
    split at hv
    · cases hv
    simp only [firstMessage, hsearch, Option.bind_some]
    cases hlength : bufHttpFindContentLength (xs.take (k + 4)) with
    | malformed =>
      rw [hlength] at hv
      cases hv
    | missing =>
      rw [hlength] at hv
      cases hv
      have hall : (xs.drop (k + 4)).take (xs.length - (k + 4)) = xs.drop (k + 4) :=
        List.take_of_length_le (by rw [List.length_drop])
      exact ⟨by rw [hall], by omega, by omega⟩
    | present contentlen =>
      rw [hlength] at hv
      simp only at hv
      split at hv
      · cases hv
      cases hv
      have hmin : min (xs.drop (k + 4)).length contentlen =
          if contentlen < xs.length - (k + 4) then contentlen else xs.length - (k + 4) := by
        rw [List.length_drop]
        split <;> omega
      exact ⟨by simp only [hmin], by omega, by split <;> omega⟩

theorem contentsVerdict_isSome (xs : List UInt8) (r : Request) : ∃ v, contentsVerdict xs r = some v := by
  unfold contentsVerdict httpVerdict
  split
  · exact ⟨_, rfl⟩
  split
  · exact ⟨_, rfl⟩
  split
  · exact ⟨_, rfl⟩
  simp only
  split
  · exact ⟨_, rfl⟩
  split
  · exact ⟨_, rfl⟩
  exact ⟨_, rfl⟩

/-! ## The same verdict -/

variable {datalen headerlen bodylen : Nat} {headers headers' : Nat → Option (List UInt8)} {off off' : Int}

theorem httpVerdict_congr (hsame : headers (off + 4).toNat = headers' (off + 4).toNat) :
    httpVerdict datalen r headers off = httpVerdict datalen r headers' off := by
  simp only [httpVerdict, hsame]

/-- A message begins where the empty line was found. -/
theorem httpVerdict_message (hv : httpVerdict datalen r headers off = some (.message headerlen bodylen)) :
    0 ≤ off ∧ (off + 4).toNat = headerlen := by
  rw [httpVerdict] at hv
  split at hv
  · cases hv
  split at hv
  · cases hv
  split at hv
  · cases hv
  next hneg =>
    refine ⟨Int.not_lt.mp hneg, ?_⟩
    simp only at hv
    split at hv
    · cases hv
    split at hv
    · cases hv
    obtain ⟨head, -, hmessage⟩ := Option.map_eq_some_iff.mp hv
    split at hmessage
    · cases hmessage
    · split at hmessage
      · cases hmessage
      · cases hmessage
        rfl
    · cases hmessage
      rfl

/-- With the same head, the code comes to the verdict on the contents. -/
theorem bufferVerdict_of_same_head (hb : b.Ok) (hc : Covers h b.chunks) {bodylen' : Nat}
    (hbuffer : bufferVerdict h b r inPlace = some (.message headerlen bodylen'))
    (hcontents : contentsVerdict (bytesOf b.chunks) r = some (.message headerlen bodylen)) :
    bufferVerdict h b r inPlace = contentsVerdict (bytesOf b.chunks) r := by
  obtain ⟨off, hfind, hverdict⟩ := Option.bind_eq_some_iff.mp hbuffer
  obtain ⟨hoff, hhead⟩ := httpVerdict_message hverdict
  obtain ⟨hoff', hhead'⟩ := httpVerdict_message hcontents
  obtain ⟨-, hpos, hfits⟩ := contentsVerdict_message (by rw [← hb.datalen]; exact hb.max) hcontents
  have hplace : off = offsetAnswer (search endOfHeaders (bytesOf b.chunks)) := by omega
  rw [bufferVerdict, hfind, Option.bind_some, contentsVerdict, ← hplace, hb.datalen]
  apply httpVerdict_congr
  rw [hhead]
  exact pulledHead_eq hb hc hpos (by omega)

/-! ## One message -/

/-- What one call should leave on a buffer that holds `xs`: its answer is that on `xs`, and with 1 exactly the first
message is gone and the parts that the caller wants are its head and its body. -/
structure OneMessage (xs : List UInt8) (r : Request) (out : Fetched) : Prop where
  value : (contentsVerdict xs r).map Verdict.value = some out.value
  taken : out.value = 1 → ∃ headers body, firstMessage xs = some (headers, body) ∧
    out.headers = (if r.headersOut then some (headers ++ [0]) else none) ∧
    out.body = (if r.bodyOut then some (body ++ [0]) else none) ∧
    out.bodyUsed = (if r.bodyOut then some body.length else none) ∧
    xs = headers ++ body ++ bytesOf out.buf.chunks
  left : out.value = 0 ∨ out.value = -1 → bytesOf out.buf.chunks = xs

/-- The call runs to its end, and does that. -/
def TakesOneMessage (h : Heap) (b : Buf) (r : Request) (inPlace : Bool) : Prop :=
  ∃ out, fetchFromBufHttp h b r inPlace = some out ∧ OneMessage (bytesOf b.chunks) r out

/-- The parts of the message that have any bytes are wanted. -/
def Request.WantsAll (r : Request) (xs : List UInt8) : Prop :=
  ∀ headerlen bodylen, contentsVerdict xs r = some (.message headerlen bodylen) →
    r.headersOut = true ∧ (r.bodyOut = true ∨ bodylen = 0)

theorem takes_of_wantsAll (h : r.headersOut = true ∧ (r.bodyOut = true ∨ bodylen = 0)) :
    r.takes headerlen bodylen = headerlen + bodylen := by
  rw [Request.takes, if_pos h.1]
  split
  · rfl
  · next hbody => rw [h.2.resolve_left hbody]

theorem takesOneMessage_of_verdict (hb : b.Ok) (hc : Covers h b.chunks)
    (hverdict : bufferVerdict h b r inPlace = contentsVerdict (bytesOf b.chunks) r)
    (hwants : r.WantsAll (bytesOf b.chunks)) : TakesOneMessage h b r inPlace := by
  have hmax : (bytesOf b.chunks).length ≤ bufMaxLen := by
    rw [← hb.datalen]
    exact hb.max
  obtain ⟨b', h', hbec, hfetch⟩ := fetchFromBufHttp_eq hb hc r inPlace
  obtain ⟨v, hv⟩ := contentsVerdict_isSome (bytesOf b.chunks) r
  rw [hverdict, hv, Option.bind_some] at hfetch
  cases v with
  | incomplete => exact ⟨_, hfetch, by rw [hv]; rfl, fun h1 => absurd h1 (show ¬ (0 : Int) = 1 by decide), fun _ => hbec.contents⟩
  | refused => exact ⟨_, hfetch, by rw [hv]; rfl, fun h1 => absurd h1 (show ¬ (-1 : Int) = 1 by decide), fun _ => hbec.contents⟩
  | message headerlen bodylen =>
    obtain ⟨hfirst, -, hfits⟩ := contentsVerdict_message hmax hv
    have hall := hwants _ _ hv
    have htakes : r.takes headerlen bodylen = headerlen + bodylen := takes_of_wantsAll hall
    rcases copyParts_spec hbec.ok (hbec.frame.covers hc) r headerlen bodylen with ⟨out, hcopy, hout⟩ | ⟨-, hlong⟩
    · rw [hbec.contents] at hout
      refine ⟨out, hfetch.trans hcopy, by rw [hv, hout.value]; rfl, fun _ => ⟨_, _, hfirst, hout.headers, ?_, ?_, ?_⟩, ?_⟩
      · rw [hout.body, if_pos hall.1]
      · rw [hout.bodyUsed, List.length_take, List.length_drop, Nat.min_eq_left (by omega)]
      · rw [hout.left, htakes, List.append_assoc, ← List.drop_drop, List.take_append_drop, List.take_append_drop]
      · rw [hout.value]
        intro hzero
        rcases hzero with h1 | h1 <;> exact absurd h1 (by decide)
    · rw [hbec.contents, htakes] at hlong
      omega

/-- What was copied tells the parts of the message apart: their lengths are those of the verdict, and all were wanted. -/
theorem parts_of_copied {headerlen' bodylen' : Nat} (hpos : 0 < headerlen) (hfits : headerlen + bodylen ≤ xs.length)
    (hcopied : Copied xs r headerlen' bodylen' out)
    (hheaders : out.headers = if r.headersOut then some (xs.take headerlen ++ [0]) else none)
    (hbody : out.bodyUsed = if r.bodyOut then some bodylen else none)
    (hleft : (bytesOf out.buf.chunks).length = xs.length - (headerlen + bodylen)) :
    headerlen' = headerlen ∧ r.headersOut = true ∧ (r.bodyOut = true ∨ bodylen = 0) := by
  have hcount := hcopied.fits
  have htaken : r.takes headerlen' bodylen' = headerlen + bodylen := by
    rw [hcopied.left, List.length_drop] at hleft
    omega
  rw [hcopied.headers] at hheaders
  rw [hcopied.bodyUsed] at hbody
  rw [Request.takes] at htaken hcount
  have hwanted : r.bodyOut = true → bodylen' = bodylen := by
    intro hwants
    rw [if_pos hwants, if_pos hwants] at hbody
    exact Option.some.inj hbody
  cases hhead : r.headersOut with
  | false =>
    rw [hhead] at htaken
    simp only [Bool.false_eq_true, if_false] at htaken
    split at htaken
    · next hwants =>
      have := hwanted hwants
      omega
    · omega
  | true =>
    rw [hhead] at htaken hcount hheaders
    simp only [if_true] at htaken hcount hheaders
    have hlen := congrArg List.length (Option.some.inj hheaders)
    simp only [List.length_append, List.length_take, List.length_singleton] at hlen
    refine ⟨by omega, rfl, ?_⟩
    cases hwants : r.bodyOut with
    | true => exact .inl rfl
    | false =>
      rw [hwants] at htaken
      simp only [Bool.false_eq_true, if_false] at htaken
      exact .inr (by omega)

theorem verdict_of_takesOneMessage (hb : b.Ok) (hc : Covers h b.chunks) (hone : TakesOneMessage h b r inPlace) :
    bufferVerdict h b r inPlace = contentsVerdict (bytesOf b.chunks) r ∧ r.WantsAll (bytesOf b.chunks) := by
  have hmax : (bytesOf b.chunks).length ≤ bufMaxLen := by
    rw [← hb.datalen]
    exact hb.max
  obtain ⟨out, hrun, hout⟩ := hone
  obtain ⟨b', h', hbec, hfetch⟩ := fetchFromBufHttp_eq hb hc r inPlace
  obtain ⟨v, hv⟩ := contentsVerdict_isSome (bytesOf b.chunks) r
  obtain ⟨v', hv', htake⟩ := Option.bind_eq_some_iff.mp (hfetch.symm.trans hrun)
  have hvalue := hout.value
  rw [hv, Option.map_some] at hvalue
  have hvalue := Option.some.inj hvalue
  -- the answers 0 and -1 are each of one verdict only
  cases v' with
  | incomplete =>
    cases htake
    cases v with
    | incomplete => exact ⟨by rw [hv', hv], fun _ _ hmessage => by rw [hv] at hmessage; cases hmessage⟩
    | refused => exact absurd hvalue (show ¬ (-1 : Int) = 0 by decide)
    | message headerlen bodylen => exact absurd hvalue (show ¬ (1 : Int) = 0 by decide)
  | refused =>
    cases htake
    cases v with
    | incomplete => exact absurd hvalue (show ¬ (0 : Int) = -1 by decide)
    | refused => exact ⟨by rw [hv', hv], fun _ _ hmessage => by rw [hv] at hmessage; cases hmessage⟩
    | message headerlen bodylen => exact absurd hvalue (show ¬ (1 : Int) = -1 by decide)
  | message headerlen' bodylen' =>
    rcases copyParts_spec hbec.ok (hbec.frame.covers hc) r headerlen' bodylen' with ⟨out', hcopy, hcopied⟩ | ⟨hnone, -⟩
    · obtain rfl := Option.some.inj (hcopy.symm.trans htake)
      rw [hbec.contents] at hcopied
      rw [hcopied.value] at hvalue
      cases v with
      | incomplete | refused => exact absurd hvalue (by decide)
      | message headerlen bodylen =>
        obtain ⟨hfirst, hpos, hfits⟩ := contentsVerdict_message hmax hv
        obtain ⟨headers, body, hmessage, hheaders, -, hused, hall⟩ := hout.taken hcopied.value
        cases Option.some.inj (hmessage.symm.trans hfirst)
        have hbodylen : ((bytesOf b.chunks).drop headerlen |>.take bodylen).length = bodylen := by
          rw [List.length_take, List.length_drop, Nat.min_eq_left (by omega)]
        have hlen := congrArg List.length hall
        simp only [List.length_append, List.length_take, hbodylen] at hlen
        rw [hbodylen] at hused
        obtain ⟨rfl, hwants⟩ := parts_of_copied hpos hfits hcopied hheaders hused (by omega)
        refine ⟨bufferVerdict_of_same_head hb hc hv' hv, fun n m hnm => ?_⟩
        cases Option.some.inj (hv.symm.trans hnm)
        exact hwants
    · rw [takeMessage, hnone] at htake
      cases htake

/-! ## Every buffer -/

/-- A reply of 19 bytes of head and 4 of body. -/
def reply : List UInt8 :=
  [72, 84, 84, 80, 47, 49, 46, 48, 32, 50, 48, 48, 32, 79, 75, 13, 10, 13, 10, 98, 111, 100, 121]

def callsOfReply : List Op := [.new, .add 0 reply]

theorem callsOfReply_legal : queueSpec.Legal [] callsOfReply := by
  refine ⟨trivial, ⟨?_, ?_⟩, trivial⟩ <;> decide

/-- Who asks for the body only. -/
def bodyOnly : Request :=
  { headersOut := false, maxHeaderlen := 1000, bodyOut := true, maxBodylen := 1000, forceComplete := false }

end Badnet.Http

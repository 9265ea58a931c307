/-
  Badnet.Socks.Arrivals — SOCKS handshakes, however their bytes arrive.

  After each read `fetch_from_buf_socks` is called on what is in the buffer, in chunks of any layout (`Arrives`). A
  stream is `Safe` when a message of it may be looked at in part without harm; then the handshake ends as if all of it
  were there at once and all of it were looked at (`Arrives.verdict`).
-/

import Badnet.Socks.Handling

namespace Badnet.Socks

open Lib Net Encoding Buffers

/-! ## Arriving -/

inductive Outcome where
  | waiting
  | rejected
  | accepted (version command : UInt8) (address : Text) (port : UInt16) (username password : List UInt8) (consumed : Nat)
  deriving DecidableEq

def acceptedOutcome (req : SocksRequest) (consumed : Nat) : Outcome :=
  .accepted req.socksVersion req.command req.address req.port req.username req.password consumed

structure Conn.Ok (c : Conn) : Prop where
  buf : c.inbuf.Ok
  covers : Covers c.heap c.inbuf.chunks

/-- A read puts bytes behind those in the buffer; the chunks may be any that hold them. -/
structure Delivers (c : Conn) (bytes : List UInt8) (c' : Conn) : Prop where
  ok : c'.Ok
  contents : c'.contents = c.contents ++ bytes
  req : c'.req = c.req

/-- A connection of which `n` bytes are consumed gets the rest of a stream in reads, until a call answers. -/
inductive Arrives (set : Settings) : Conn → Nat → List UInt8 → Outcome → Prop where
  | finish {c : Conn} {n : Nat} : Arrives set c n [] .waiting
  | waits {c c' c'' : Conn} {n fuel : Nat} {bytes rest : List UInt8} {inPlace : Nat → Bool} {reply : Option (List UInt8)}
    {o : Outcome} (hread : Delivers c bytes c') (hcall : fetchFromBufSocks set inPlace fuel c' = some ⟨0, c'', reply⟩)
    (hrest : Arrives set c'' (n + (c'.contents.length - c''.contents.length)) rest o) : Arrives set c n (bytes ++ rest) o
  | rejects {c c' c'' : Conn} {n fuel : Nat} {bytes rest : List UInt8} {inPlace : Nat → Bool} {reply : Option (List UInt8)}
    (hread : Delivers c bytes c') (hcall : fetchFromBufSocks set inPlace fuel c' = some ⟨-1, c'', reply⟩) :
    Arrives set c n (bytes ++ rest) .rejected
  | accepts {c c' c'' : Conn} {n fuel : Nat} {bytes rest : List UInt8} {inPlace : Nat → Bool} {reply : Option (List UInt8)}
    (hread : Delivers c bytes c') (hcall : fetchFromBufSocks set inPlace fuel c' = some ⟨1, c'', reply⟩) :
    Arrives set c n (bytes ++ rest) (acceptedOutcome c''.req (n + (c'.contents.length - c''.contents.length)))

/-- A new connection. -/
def connStart (socksPreferNoAuth : Bool) : Conn := ⟨⟨0, 0⟩, bufNew, socksRequestNew socksPreferNoAuth⟩

/-! ## A call -/

/-- What the code looks at of the bytes in a buffer. -/
structure View (q d : List UInt8) : Prop where
  start : d <+: q
  long : min MAX_SOCKS_MESSAGE_LEN q.length ≤ d.length

/-- A call on a request and the bytes in the buffer: its answer, and what both are after it. -/
inductive Calls (set : Settings) : SocksRequest → List UInt8 → Int → SocksRequest → List UInt8 → Prop where
  | short {req : SocksRequest} {q : List UInt8} (hq : q.length < 2) : Calls set req q 0 req q
  | truncated {req : SocksRequest} {q d : List UInt8} (hd : 2 ≤ d.length) (hview : View q d)
    (h : (parseSocks set d req).res = .TRUNCATED) : Calls set req q 0 (parseSocks set d req).req q
  | invalid {req : SocksRequest} {q d : List UInt8} (hd : 2 ≤ d.length) (hview : View q d)
    (h : (parseSocks set d req).res = .INVALID) : Calls set req q (-1) (parseSocks set d req).req []
  | done {req : SocksRequest} {q d : List UInt8} (hd : 2 ≤ d.length) (hview : View q d)
    (h : (parseSocks set d req).res = .DONE) :
    Calls set req q 1 (parseSocks set d req).req (q.drop (parseSocks set d req).drain)
  | more {req req' : SocksRequest} {q d q' : List UInt8} {r : Int} (hd : 2 ≤ d.length) (hview : View q d)
    (h : (parseSocks set d req).res = .MORE_EXPECTED)
    (hrest : Calls set (parseSocks set d req).req (q.drop (parseSocks set d req).drain) r req' q') : Calls set req q r req' q'

section
variable {set : Settings} {c c' : Conn}

theorem drainBuf_spec (hc : c.Ok) {n : Nat} (hn : n ≤ c.contents.length) :
    ∃ c', drainBuf c n = some c' ∧ c'.Ok ∧ c'.contents = c.contents.drop n ∧ c'.req = c.req := by
  unfold drainBuf
  split
  next =>
    obtain ⟨b, h, hdrain, hbecomes⟩ := bufDrain_spec hc.buf hc.covers hn
    rw [hdrain]
    exact ⟨_, rfl, ⟨hbecomes.ok, hbecomes.frame.covers hc.covers⟩, hbecomes.contents, rfl⟩
  next hzero =>
    obtain rfl : n = 0 := Nat.eq_zero_of_not_pos hzero
    exact ⟨c, rfl, hc, List.drop_zero.symm, rfl⟩

variable {fuel fuel' : Nat} {inPlace : Nat → Bool} {f : Fetched}

/-- What a turn of the loop leaves behind that looks at `d`. -/
structure TurnTo (set : Settings) (c : Conn) (d : List UInt8) (c' : Conn) : Prop where
  ok : c'.Ok
  req : c'.req = (parseSocks set d c.req).req
  contents : c'.contents = match (parseSocks set d c.req).res with
    | .INVALID => []
    | .TRUNCATED => c.contents
    | .DONE | .MORE_EXPECTED => c.contents.drop (parseSocks set d c.req).drain

/-- How the loop goes on from there. -/
def goesOn (set : Settings) (inPlace : Nat → Bool) (fuel n : Nat) (res : SocksResult) (c : Conn)
    (reply : Option (List UInt8)) : Option Fetched :=
  match res with
  | .INVALID => some ⟨-1, c, reply⟩
  | .DONE => some ⟨1, c, reply⟩
  | .TRUNCATED => some ⟨0, c, reply⟩
  | .MORE_EXPECTED => if c.contents.length ≥ 2 then fetchLoop set inPlace fuel (n + 1) c reply else some ⟨0, c, reply⟩

theorem parseSocks_drain_le {q d : List UInt8} {req : SocksRequest} (hd : 2 ≤ d.length) (hstart : d <+: q)
    (hres : (parseSocks set d req).res = .DONE ∨ (parseSocks set d req).res = .MORE_EXPECTED) :
    (parseSocks set d req).drain ≤ q.length := by
  have hle := hstart.length_le
  rcases hres with hdone | hmore
  · exact Nat.le_trans (parseSocks_done hd hdone) hle
  · obtain ⟨used, rest, hused, -, hdrain, -⟩ := parseSocks_more_used hd hmore
    rw [hused, List.length_append] at hle
    omega

/-- A turn in which the code looks at `d` goes the same way with every setting that parses `d` alike. -/
theorem fetchLoop_of_pullup {n : Nat} {inbuf : Buf} {heap : Heap} {d : List UInt8}
    (hpullup : bufPullup c.heap c.inbuf (min MAX_SOCKS_MESSAGE_LEN c.inbuf.datalen) (inPlace n) = some (inbuf, d, heap))
    (hc : c.Ok) (hbecomes : Becomes c.heap heap c.inbuf inbuf c.contents) (hview : View c.contents d) (hd : 2 ≤ d.length)
    (set : Settings) : ∃ c', TurnTo set c d c' ∧
      ((parseSocks set d c.req).res = .MORE_EXPECTED →
        drainBuf ⟨heap, inbuf, (parseSocks set d c.req).req⟩ (parseSocks set d c.req).drain = some c') ∧
      ∀ set' fuel reply, parseSocks set' d c.req = parseSocks set d c.req →
        fetchLoop set' inPlace (fuel + 1) n c reply =
          goesOn set' inPlace fuel n (parseSocks set d c.req).res c' ((parseSocks set d c.req).reply.or reply) := by
  have hdatalen : c.inbuf.datalen = c.contents.length := hc.buf.datalen
  have hc1 : Conn.Ok ⟨heap, inbuf, (parseSocks set d c.req).req⟩ := ⟨hbecomes.ok, hbecomes.frame.covers hc.covers⟩
  have hcontents : Conn.contents ⟨heap, inbuf, (parseSocks set d c.req).req⟩ = c.contents := hbecomes.contents
  cases hres : (parseSocks set d c.req).res with
  | INVALID =>
    obtain ⟨b, h, hclear, hempty⟩ := bufClear_spec hbecomes.ok hc1.covers
    refine ⟨⟨h, b, _⟩, ⟨⟨hempty.ok, hempty.frame.covers hc1.covers⟩, rfl, ?_⟩, nofun, fun set' fuel reply hsame => ?_⟩
    · simp only [hres]
      exact hempty.contents
    · rw [fetchLoop]
      simp only [hpullup, if_neg (Nat.not_lt.mpr hd), hsame, hres, hclear]
      rfl
  | TRUNCATED =>
    -- a chunk with more than 512 bytes cannot hold a truncated message, so the loop does not go on
    have hall : d.length = min MAX_SOCKS_MESSAGE_LEN c.inbuf.datalen := by
      have hmax := parseSocks_truncated_le hd hres
      have hle := hview.start.length_le
      have hge := hview.long
      omega
    refine ⟨_, ⟨hc1, rfl, ?_⟩, nofun, fun set' fuel reply hsame => ?_⟩
    · simp only [hres]
      exact hcontents
    · rw [fetchLoop]
      simp only [hpullup, if_neg (Nat.not_lt.mpr hd), hsame, hres, if_pos hall]
      rfl
  | DONE =>
    obtain ⟨c', hdrain, hok, hdrop, hreq⟩ :=
      drainBuf_spec hc1 (hcontents ▸ parseSocks_drain_le hd hview.start (.inl hres))
    refine ⟨c', ⟨hok, hreq, ?_⟩, nofun, fun set' fuel reply hsame => ?_⟩
    · simp only [hres]
      rw [hdrop, hcontents]
    · rw [fetchLoop]
      simp only [hpullup, if_neg (Nat.not_lt.mpr hd), hsame, hres, hdrain]
      rfl
  | MORE_EXPECTED =>
    obtain ⟨c', hdrain, hok, hdrop, hreq⟩ :=
      drainBuf_spec hc1 (hcontents ▸ parseSocks_drain_le hd hview.start (.inr hres))
    have hdatalen' : c'.inbuf.datalen = c'.contents.length := hok.buf.datalen
    refine ⟨c', ⟨hok, hreq, ?_⟩, fun _ => hdrain, fun set' fuel reply hsame => ?_⟩
    · simp only [hres]
      rw [hdrop, hcontents]
    · rw [fetchLoop]
      simp only [hpullup, if_neg (Nat.not_lt.mpr hd), hsame, hres, hdrain, Option.bind_some, hdatalen', goesOn]

theorem fetchLoop_turn {n : Nat} (hc : c.Ok) (hlen : 2 ≤ c.contents.length) : ∃ d, View c.contents d ∧ 2 ≤ d.length ∧
    ∀ set, ∃ c', TurnTo set c d c' ∧ ∀ set' fuel reply, parseSocks set' d c.req = parseSocks set d c.req →
      fetchLoop set' inPlace (fuel + 1) n c reply =
        goesOn set' inPlace fuel n (parseSocks set d c.req).res c' ((parseSocks set d c.req).reply.or reply) := by
  have hdatalen : c.inbuf.datalen = c.contents.length := hc.buf.datalen
  obtain ⟨inbuf, d, heap, hpullup, hbecomes, hstart, hlong⟩ :=
    bufPullup_spec hc.buf hc.covers (min MAX_SOCKS_MESSAGE_LEN c.inbuf.datalen) (inPlace n)
  have hview : View c.contents d := ⟨hstart, by rw [hdatalen] at hlong; exact Nat.le_trans (by simp [Conn.contents]) hlong⟩
  have hd : 2 ≤ d.length := Nat.le_trans (Nat.le_min.mpr ⟨by decide, hlen⟩) hview.long
  refine ⟨d, hview, hd, fun set => ?_⟩
  obtain ⟨c', hto, -, hloop⟩ := fetchLoop_of_pullup hpullup hc hbecomes hview hd set
  exact ⟨c', hto, hloop⟩

/-- A call ends after as many turns as there are bytes in the buffer. -/
theorem fetchLoop_spec (set : Settings) (inPlace : Nat → Bool) :
    ∀ {n : Nat} {c : Conn} {reply : Option (List UInt8)}, c.Ok →
    2 ≤ c.contents.length → c.contents.length ≤ fuel →
    ∃ f, fetchLoop set inPlace fuel n c reply = some f ∧ f.conn.Ok ∧
      Calls set c.req c.contents f.res f.conn.req f.conn.contents := by
  induction fuel with
  | zero =>
    intro n c reply hc hlen hfuel
    omega
  | succ fuel ih =>
    intro n c reply hc hlen hfuel
    obtain ⟨d, hview, hd, hturn⟩ := @fetchLoop_turn c inPlace n hc hlen
    obtain ⟨c', ⟨hok, hreq, hcontents⟩, hloop⟩ := hturn set
    rw [hloop set fuel reply rfl]
    cases hres : (parseSocks set d c.req).res with
    | INVALID =>
      simp only [hres] at hcontents
      have hcalls := Calls.invalid hd hview hres
      rw [← hcontents, ← hreq] at hcalls
      exact ⟨_, rfl, hok, hcalls⟩
    | DONE =>
      simp only [hres] at hcontents
      have hcalls := Calls.done hd hview hres
      rw [← hcontents, ← hreq] at hcalls
      exact ⟨_, rfl, hok, hcalls⟩
    | TRUNCATED =>
      simp only [hres] at hcontents
      refine ⟨_, rfl, hok, ?_⟩
      rw [hcontents, hreq]
      exact .truncated hd hview hres
    | MORE_EXPECTED =>
      simp only [hres] at hcontents
      obtain ⟨used, rest, -, hge, hn, -⟩ := parseSocks_more_used hd hres
      have hlen' : c'.contents.length = c.contents.length - (parseSocks set d c.req).drain := by
        rw [hcontents, List.length_drop]
      by_cases hmore : c'.contents.length ≥ 2
      · obtain ⟨f, hloop, hfok, hcalls⟩ := ih (n := n + 1) hok hmore (by omega)
        rw [hcontents, hreq] at hcalls
        exact ⟨f, (if_pos hmore).trans hloop, hfok, .more hd hview hres hcalls⟩
      · refine ⟨_, if_neg hmore, hok, .more hd hview hres ?_⟩
        rw [← hcontents, hreq]
        exact .short (Nat.not_le.mp hmore)

theorem fetchLoop_mono (inPlace : Nat → Bool) (hle : fuel ≤ fuel') :
    ∀ {n : Nat} {c : Conn} {reply : Option (List UInt8)} {f : Fetched}, fetchLoop set inPlace fuel n c reply = some f →
      fetchLoop set inPlace fuel' n c reply = some f := by
  induction fuel generalizing fuel' with
  | zero =>
    intro n c reply f h
    cases h
  | succ fuel ih =>
    intro n c reply f h
    obtain ⟨more, rfl⟩ : ∃ more, fuel' = more + 1 := ⟨fuel' - 1, by omega⟩
    have hagain : ∀ (c : Conn) (reply : Option (List UInt8)),
        (if c.inbuf.datalen ≥ 2 then fetchLoop set inPlace fuel (n + 1) c reply else some ⟨0, c, reply⟩) = some f →
        (if c.inbuf.datalen ≥ 2 then fetchLoop set inPlace more (n + 1) c reply else some ⟨0, c, reply⟩) = some f := by
      intro c reply hc
      split at hc
      next hdatalen =>
        rw [if_pos hdatalen]
        exact ih (by omega) hc
      next hdatalen => rw [if_neg hdatalen, hc]
    rw [fetchLoop] at h ⊢
    cases hpullup : bufPullup c.heap c.inbuf (min MAX_SOCKS_MESSAGE_LEN c.inbuf.datalen) (inPlace n) with
    | none =>
      rw [hpullup] at h
      cases h
    | some r =>
      simp only [hpullup] at h ⊢
      split at h
      next => cases h
      next hlen =>
        rw [if_neg hlen]
        cases hres : (parseSocks set r.2.1 c.req).res with
        | INVALID | DONE =>
          simp only [hres] at h ⊢
          exact h
        | TRUNCATED =>
          simp only [hres] at h ⊢
          split at h
          next hall => rw [if_pos hall, h]
          next hall =>
            rw [if_neg hall]
            exact hagain ⟨r.2.2, r.1, (parseSocks set r.2.1 c.req).req⟩ _ h
        | MORE_EXPECTED =>
          simp only [hres] at h ⊢
          obtain ⟨c1, hdrain, hrest⟩ := Option.bind_eq_some_iff.mp h
          exact Option.bind_eq_some_iff.mpr ⟨c1, hdrain, hagain _ _ hrest⟩

/-- Every call ends, with the same result for all numbers of turns that are large enough. -/
theorem fetchFromBufSocks_ends (set : Settings) (inPlace : Nat → Bool) (hc : c.Ok) :
    ∃ f, (∀ fuel, c.contents.length ≤ fuel → fetchFromBufSocks set inPlace fuel c = some f) ∧ f.conn.Ok ∧
      Calls set c.req c.contents f.res f.conn.req f.conn.contents := by
  have hdatalen : c.inbuf.datalen = c.contents.length := hc.buf.datalen
  unfold fetchFromBufSocks
  rw [hdatalen]
  by_cases hshort : c.contents.length < 2
  · exact ⟨_, fun fuel _ => if_pos hshort, hc, .short hshort⟩
  · obtain ⟨f, hloop, hrest⟩ := fetchLoop_spec set inPlace hc (Nat.not_lt.mp hshort) (Nat.le_refl _)
    exact ⟨f, fun fuel hfuel => by rw [if_neg hshort, fetchLoop_mono inPlace hfuel hloop], hrest⟩

theorem fetchFromBufSocks_mono (hle : fuel ≤ fuel')
    (h : fetchFromBufSocks set inPlace fuel c = some f) : fetchFromBufSocks set inPlace fuel' c = some f := by
  unfold fetchFromBufSocks at h ⊢
  split at h
  next hshort => rw [if_pos hshort, h]
  next hshort => rw [if_neg hshort, fetchLoop_mono inPlace hle h]

theorem fetchFromBufSocks_unique {f' : Fetched}
    (h : fetchFromBufSocks set inPlace fuel c = some f) (h' : fetchFromBufSocks set inPlace fuel' c = some f') : f = f' := by
  have hmax := fetchFromBufSocks_mono (Nat.le_max_left fuel fuel') h
  rw [fetchFromBufSocks_mono (Nat.le_max_right fuel fuel') h'] at hmax
  cases hmax
  rfl

theorem fetchFromBufSocks_calls (hc : c.Ok) (h : fetchFromBufSocks set inPlace fuel c = some f) :
    f.conn.Ok ∧ Calls set c.req c.contents f.res f.conn.req f.conn.contents := by
  obtain ⟨f', hends, hrest⟩ := fetchFromBufSocks_ends set inPlace hc
  obtain rfl := fetchFromBufSocks_unique h (hends _ (Nat.le_refl _))
  exact hrest

end

/-! ## A stream that is there at once -/

/-- How a handshake of which `n` bytes are consumed ends if the rest of the stream is there, and all of it is looked at. -/
inductive Verdict (set : Settings) : SocksRequest → List UInt8 → Nat → Outcome → Prop where
  | short {req : SocksRequest} {v : List UInt8} {n : Nat} (hv : v.length < 2) : Verdict set req v n .waiting
  | truncated {req : SocksRequest} {v : List UInt8} {n : Nat} (hv : 2 ≤ v.length)
    (h : (parseSocks set v req).res = .TRUNCATED) : Verdict set req v n .waiting
  | invalid {req : SocksRequest} {v : List UInt8} {n : Nat} (hv : 2 ≤ v.length)
    (h : (parseSocks set v req).res = .INVALID) : Verdict set req v n .rejected
  | done {req : SocksRequest} {v : List UInt8} {n : Nat} (hv : 2 ≤ v.length) (h : (parseSocks set v req).res = .DONE) :
    Verdict set req v n (acceptedOutcome (parseSocks set v req).req (n + (parseSocks set v req).drain))
  | more {req : SocksRequest} {v : List UInt8} {n : Nat} {o : Outcome} (hv : 2 ≤ v.length)
    (h : (parseSocks set v req).res = .MORE_EXPECTED)
    (hrest : Verdict set (parseSocks set v req).req (v.drop (parseSocks set v req).drain) (n + (parseSocks set v req).drain) o) :
    Verdict set req v n o

section
variable {set : Settings} {req req' : SocksRequest} {v v' q d f : List UInt8} {n : Nat} {o o' : Outcome}

theorem Verdict.unique (h : Verdict set req v n o) (h' : Verdict set req v n o') : o = o' := by
  induction h with
  | short hv =>
    cases h' with
    | short => rfl
    | truncated => rfl
    | invalid hv' => omega
    | done hv' => omega
    | more hv' => omega
  | truncated hv hres =>
    cases h' with
    | short => rfl
    | truncated => rfl
    | invalid _ hres' | done _ hres' | more _ hres' => cases hres.symm.trans hres'
  | invalid hv hres =>
    cases h' with
    | short hv' => omega
    | truncated _ hres' => cases hres.symm.trans hres'
    | invalid => rfl
    | done _ hres' | more _ hres' => cases hres.symm.trans hres'
  | done hv hres =>
    cases h' with
    | short hv' => omega
    | truncated _ hres' | invalid _ hres' => cases hres.symm.trans hres'
    | done => rfl
    | more _ hres' => cases hres.symm.trans hres'
  | more hv hres _ ih =>
    cases h' with
    | short hv' => omega
    | truncated _ hres' | invalid _ hres' | done _ hres' => cases hres.symm.trans hres'
    | more _ _ hrest => exact ih hrest

theorem Verdict.exists (set : Settings) (req : SocksRequest) (v : List UInt8) (n : Nat) : ∃ o, Verdict set req v n o := by
  induction hlen : v.length using Nat.strong_induction_on generalizing req v n with
  | h len ih =>
    subst hlen
    by_cases hv : v.length < 2
    · exact ⟨_, .short hv⟩
    have hv := Nat.not_lt.mp hv
    cases hres : (parseSocks set v req).res with
    | INVALID => exact ⟨_, .invalid hv hres⟩
    | TRUNCATED => exact ⟨_, .truncated hv hres⟩
    | DONE => exact ⟨_, .done hv hres⟩
    | MORE_EXPECTED =>
      obtain ⟨used, rest, hused, hge, hn, -⟩ := parseSocks_more_used hv hres
      have hlt : (v.drop (parseSocks set v req).drain).length < v.length := by
        rw [List.length_drop]
        omega
      obtain ⟨o, ho⟩ := ih _ hlt (parseSocks set v req).req (v.drop (parseSocks set v req).drain)
        (n + (parseSocks set v req).drain) rfl
      exact ⟨o, .more hv hres ho⟩

/-- Only what is parsed counts. -/
theorem Verdict.congr (hparse : parseSocks set v req' = parseSocks set v req) (h : Verdict set req' v n o) :
    Verdict set req v n o := by
  cases h with
  | short hv => exact .short hv
  | truncated hv hres => exact .truncated hv (hparse ▸ hres)
  | invalid hv hres => exact .invalid hv (hparse ▸ hres)
  | done hv hres =>
    rw [hparse] at hres ⊢
    exact .done hv hres
  | more hv hres hrest =>
    rw [hparse] at hres hrest
    exact .more hv hres hrest

/-- A handshake that waits with some bytes waits with fewer. -/
theorem Verdict.waiting_of_append (h : Verdict set req v n o) (ho : o = .waiting) (hq : q <+: v) (m : Nat) :
    Verdict set req q m .waiting := by
  induction h generalizing q m with
  | short hv => exact .short (Nat.lt_of_le_of_lt hq.length_le hv)
  | truncated hv hres =>
    by_cases hlen : q.length < 2
    · exact .short hlen
    obtain ⟨more, rfl⟩ := hq
    exact .truncated (Nat.not_lt.mp hlen) (parseSocks_truncated_of_append (Nat.not_lt.mp hlen) hres)
  | invalid => cases ho
  | done => cases ho
  | @more req v n o hv hres hrest ih =>
    by_cases hlen : q.length < 2
    · exact .short hlen
    have hlen := Nat.not_lt.mp hlen
    by_cases htrunc : (parseSocks set q req).res = .TRUNCATED
    · exact .truncated hlen htrunc
    have hdrop := ih ho (hq.drop (parseSocks set v req).drain)
    obtain ⟨more, rfl⟩ := hq
    have h4 : q.head? ≠ some SOCKS_VER_4 := by
      rw [← head?_append_of_le hlen more]
      exact parseSocks_more_head hv hres
    rw [parseSocks_append hlen h4 htrunc more] at hres hdrop
    exact .more hlen hres (hdrop _)

/-! ## Streams that may be cut anywhere -/

/-- After some messages with more to come, the handshake goes on with `req'` and the rest `v'` of the stream. -/
inductive Leads (set : Settings) : SocksRequest → List UInt8 → SocksRequest → List UInt8 → Prop where
  | refl {req : SocksRequest} {v : List UInt8} : Leads set req v req v
  | step {req req' : SocksRequest} {v v' : List UInt8} (hv : 2 ≤ v.length) (h : (parseSocks set v req).res = .MORE_EXPECTED)
    (hrest : Leads set (parseSocks set v req).req (v.drop (parseSocks set v req).drain) req' v') : Leads set req v req' v'

/-- The next message may be looked at in part: an accepted SOCKS4 request has at most 512 bytes and its hostname fits
with all that follows, and one of 513 bytes with a password decides nothing. -/
structure Harmless (set : Settings) (req : SocksRequest) (v : List UInt8) : Prop where
  socks4 : ∀ t rest, socks4ClientRequestParse v = .ok (t, rest) → Socks4Accepts set t →
    v.length - rest.length ≤ MAX_SOCKS_MESSAGE_LEN ∧ Socks4Fits t v.length
  userpass : ∀ t rest, socks5ClientUserpassAuthParse v = .ok (t, rest) → req.gotAuth = false →
    v.length - rest.length = MAX_SOCKS_MESSAGE_LEN + 1 → Verdict set req v 0 .waiting

def Safe (set : Settings) (req : SocksRequest) (v : List UInt8) : Prop :=
  ∀ req' v', Leads set req v req' v' → Harmless set req' v'

theorem Safe.harmless (h : Safe set req v) : Harmless set req v := h req v .refl

theorem Safe.step (h : Safe set req v) (hv : 2 ≤ v.length) (hres : (parseSocks set v req).res = .MORE_EXPECTED) :
    Safe set (parseSocks set v req).req (v.drop (parseSocks set v req).drain) :=
  fun req' v' hrest => h req' v' (.step hv hres hrest)

theorem Harmless.congr (hparse : parseSocks set v req' = parseSocks set v req) (hauth : req'.gotAuth = req.gotAuth)
    (h : Harmless set req v) : Harmless set req' v where
  socks4 := h.socks4
  userpass t rest hread hgot hlen := (h.userpass t rest hread (hauth ▸ hgot) hlen).congr hparse.symm

theorem Safe.congr (hparse : parseSocks set v req' = parseSocks set v req) (hauth : req'.gotAuth = req.gotAuth)
    (h : Safe set req v) : Safe set req' v := by
  intro req1 v1 hleads
  cases hleads with
  | refl => exact h.harmless.congr hparse hauth
  | step hv hres hrest =>
    rw [hparse] at hres hrest
    exact h req1 v1 (.step hv hres hrest)

/-! ## Calls on part of such a stream -/

/-- A truncated message waits, even if it is not looked at in full. -/
theorem waiting_of_truncated (hd : 2 ≤ d.length) (hview : View q d) (hres : (parseSocks set d req).res = .TRUNCATED)
    (h : Harmless set req (q ++ f)) (m : Nat) : Verdict set req q m .waiting := by
  by_cases hall : q.length ≤ d.length
  · obtain rfl := hview.start.eq_of_length_le hall
    exact .truncated hd hres
  have hlong := hview.long
  have hmax : MAX_SOCKS_MESSAGE_LEN ≤ d.length := by omega
  -- of the messages that can be truncated here, only one has more than 512 bytes
  rcases parseSocks_truncated hd hres with hlt | ⟨hauth, hhead, hshort⟩
  · omega
  have hd' := socks5ClientUserpassAuthParse_within.short hshort
  obtain ⟨more, hmore⟩ : d <+: q ++ f := hview.start.trans (List.prefix_append q f)
  rw [← hmore] at h
  rcases hread : socks5ClientUserpassAuthParse (d ++ more) with (_ | _) | ⟨t, rest⟩
  · have hlen := socks5ClientUserpassAuthParse_within.short hread
    rw [hmore, List.length_append] at hlen
    unfold MAX_SOCKS_MESSAGE_LEN at hmax
    omega
  · exact absurd hread (userpass_ne_bad (by rw [head?_append_of_le hd, hhead]; rfl))
  · have hlt := socks5ClientUserpassAuthParse_steady.lt_of_short hshort hread
    have hle := socks5ClientUserpassAuthParse_within.ok hread
    have hwaits := h.userpass t rest hread hauth (by unfold MAX_SOCKS_MESSAGE_LEN at hmax ⊢; omega)
    rw [hmore] at hwaits
    exact hwaits.waiting_of_append rfl (List.prefix_append q f) m

/-- What is refused on seeing some of the stream is refused on seeing all of it. -/
theorem Harmless.invalid (hd : 2 ≤ d.length) (hres : (parseSocks set d req).res = .INVALID) {more : List UInt8}
    (h : Harmless set req (d ++ more)) : (parseSocks set (d ++ more) req).res = .INVALID := by
  by_cases h4 : d.head? = some SOCKS_VER_4
  · rw [parseSocks_socks4 hd h4] at hres
    split at hres
    next => cases hres
    next hnet =>
      rw [parseSocks_socks4_append h4 hnet]
      have hle : d.length ≤ (d ++ more).length := (List.prefix_append d more).length_le
      rcases hread : socks4ClientRequestParse d with (_ | _) | ⟨t, rest⟩
      · -- 512 bytes that are not a whole request: a request that is accepted has no more
        have hmax : MAX_SOCKS_MESSAGE_LEN ≤ d.length := by
          rw [handleSocks4_short hread] at hres
          by_contra hlt
          rw [if_neg hlt] at hres
          cases hres
        rcases hread' : socks4ClientRequestParse (d ++ more) with (_ | _) | ⟨t, rest⟩
        · rw [handleSocks4_short hread']
          exact if_pos (Nat.le_trans hmax hle)
        · exact handleSocks4_bad hread'
        · rcases handleSocks4_ok hread' with ⟨-, haccepts, -⟩ | ⟨heq, -⟩
          · have hlt := socks4ClientRequestParse_steady.lt_of_short hread hread'
            have hused := (h.socks4 t rest hread' haccepts).1
            omega
          · exact heq
      · exact handleSocks4_bad (socks4ClientRequestParse_steady.bad hread more)
      · rcases handleSocks4_ok hread with ⟨heq, -⟩ | ⟨-, hnot⟩
        · rw [heq] at hres
          cases hres
        rcases handleSocks4_ok (socks4ClientRequestParse_steady.append hread more) with ⟨-, haccepts, hfits⟩ | ⟨heq, -⟩
        · exact absurd ⟨haccepts, fun hhost => Nat.le_trans hle (hfits hhost)⟩ hnot
        · exact heq
  · have hne : (parseSocks set d req).res ≠ .TRUNCATED := by
      rw [hres]
      nofun
    rw [parseSocks_append hd h4 hne more, hres]

/-- What is accepted on seeing some of the stream is accepted on seeing all of it. -/
theorem Harmless.done (hd : 2 ≤ d.length) (hres : (parseSocks set d req).res = .DONE) {more : List UInt8}
    (h : Harmless set req (d ++ more)) : parseSocks set (d ++ more) req = parseSocks set d req := by
  by_cases h4 : d.head? = some SOCKS_VER_4
  · rw [parseSocks_socks4 hd h4] at hres ⊢
    split at hres
    next => cases hres
    next hnet =>
      rw [parseSocks_socks4_append h4 hnet, if_neg hnet]
      rcases hread : socks4ClientRequestParse d with (_ | _) | ⟨t, rest⟩
      · rw [handleSocks4_short hread] at hres
        split at hres <;> cases hres
      · rw [handleSocks4_bad hread] at hres
        cases hres
      · have hread' := socks4ClientRequestParse_steady.append hread more
        rcases handleSocks4_ok hread with ⟨heq, haccepts, -⟩ | ⟨heq, -⟩
        · have hfits := (h.socks4 t _ hread' haccepts).2
          rcases handleSocks4_ok hread' with ⟨heq', -⟩ | ⟨-, hnot⟩
          · rw [heq', heq, drain_append]
          · exact absurd ⟨haccepts, hfits⟩ hnot
        · rw [heq] at hres
          cases hres
  · have hne : (parseSocks set d req).res ≠ .TRUNCATED := by
      rw [hres]
      nofun
    exact parseSocks_append hd h4 hne more

theorem Calls.length_le {r : Int} {q' : List UInt8} (h : Calls set req q r req' q') : q'.length ≤ q.length := by
  induction h with
  | short | truncated => exact Nat.le_refl _
  | invalid => exact Nat.zero_le _
  | done =>
    rw [List.length_drop]
    exact Nat.sub_le ..
  | more _ _ _ _ ih =>
    rw [List.length_drop] at ih
    omega

/-- What a call says about a stream of which it has seen a part. -/
structure Sound (set : Settings) (req : SocksRequest) (v : List UInt8) (n : Nat) (r : Int) (req' : SocksRequest)
    (v' q' : List UInt8) (n' : Nat) : Prop where
  waits : r = 0 → (∀ o, Verdict set req' v' n' o → Verdict set req v n o) ∧ Safe set req' v' ∧ ∀ m, Verdict set req' q' m .waiting
  rejects : r = -1 → Verdict set req v n .rejected
  accepts : r = 1 → Verdict set req v n (acceptedOutcome req' n')

theorem Calls.sound {r : Int} {q' : List UInt8} (h : Calls set req q r req' q') : ∀ {n : Nat}, Safe set req (q ++ f) →
    Sound set req (q ++ f) n r req' (q' ++ f) q' (n + (q.length - q'.length)) := by
  induction h with
  | short hq =>
    intro n hsafe
    refine ⟨fun _ => ⟨fun o ho => ?_, hsafe, fun m => .short hq⟩, nofun, nofun⟩
    simpa using ho
  | @truncated req q d hd hview hres =>
    intro n hsafe
    obtain ⟨hauth, hagain⟩ := parseSocks_again hd hres
    have hall : parseSocks set (q ++ f) (parseSocks set d req).req = parseSocks set (q ++ f) req := by
      obtain ⟨more, hmore⟩ : d <+: q ++ f := hview.start.trans (List.prefix_append q f)
      rw [← hmore]
      exact hagain more
    have hpart : parseSocks set q (parseSocks set d req).req = parseSocks set q req := by
      obtain ⟨more, rfl⟩ := hview.start
      exact hagain more
    refine ⟨fun _ => ⟨fun o ho => ?_, hsafe.congr hall hauth, fun m => ?_⟩, nofun, nofun⟩
    · rw [Nat.sub_self] at ho
      exact ho.congr hall
    · exact (waiting_of_truncated hd hview hres hsafe.harmless m).congr hpart.symm
  | @invalid req q d hd hview hres =>
    intro n hsafe
    obtain ⟨more, hmore⟩ : d <+: q ++ f := hview.start.trans (List.prefix_append q f)
    have hlen : 2 ≤ (q ++ f).length := Nat.le_trans hd (hmore ▸ (List.prefix_append d more).length_le)
    refine ⟨nofun, fun _ => .invalid hlen ?_, nofun⟩
    have hharmless := hsafe.harmless
    rw [← hmore] at hharmless ⊢
    exact hharmless.invalid hd hres
  | @done req q d hd hview hres =>
    intro n hsafe
    obtain ⟨more, hmore⟩ : d <+: q ++ f := hview.start.trans (List.prefix_append q f)
    have hlen : 2 ≤ (q ++ f).length := Nat.le_trans hd (hmore ▸ (List.prefix_append d more).length_le)
    have hsame : parseSocks set (q ++ f) req = parseSocks set d req := by
      have hharmless := hsafe.harmless
      rw [← hmore] at hharmless ⊢
      exact hharmless.done hd hres
    have hdrain := parseSocks_done hd hres
    have hle := hview.start.length_le
    refine ⟨nofun, nofun, fun _ => ?_⟩
    have hverdict := Verdict.done (n := n) hlen (hsame.symm ▸ hres)
    rw [hsame] at hverdict
    rw [List.length_drop, Nat.sub_sub_self (Nat.le_trans hdrain hle)]
    exact hverdict
  | @more req req' q d q' r hd hview hres hrest ih =>
    intro n hsafe
    obtain ⟨more, hmore⟩ : d <+: q ++ f := hview.start.trans (List.prefix_append q f)
    have hlen : 2 ≤ (q ++ f).length := Nat.le_trans hd (hmore ▸ (List.prefix_append d more).length_le)
    have hsame : parseSocks set (q ++ f) req = parseSocks set d req := by
      rw [← hmore]
      exact parseSocks_append hd (parseSocks_more_head hd hres) (by rw [hres]; nofun) more
    obtain ⟨used, rest, hused, -, hdrain, -⟩ := parseSocks_more_used hd hres
    have hle : (parseSocks set d req).drain ≤ q.length := by
      have hstart := hview.start.length_le
      rw [hused, List.length_append] at hstart
      omega
    have hdrop : (q ++ f).drop (parseSocks set d req).drain = q.drop (parseSocks set d req).drain ++ f :=
      List.drop_append_of_le_length hle
    have hstep := hsafe.step hlen (hsame.symm ▸ hres)
    rw [hsame, hdrop] at hstep
    have hafter := hrest.length_le
    rw [List.length_drop] at hafter
    have hn : n + (parseSocks set d req).drain + ((q.drop (parseSocks set d req).drain).length - q'.length) =
        n + (q.length - q'.length) := by
      rw [List.length_drop]
      omega
    have hsound := ih (n := n + (parseSocks set d req).drain) hstep
    rw [hn] at hsound
    have hmore : ∀ {o : Outcome}, Verdict set (parseSocks set d req).req (q.drop (parseSocks set d req).drain ++ f)
        (n + (parseSocks set d req).drain) o → Verdict set req (q ++ f) n o := by
      intro o ho
      refine .more hlen (hsame.symm ▸ hres) ?_
      rw [hsame, hdrop]
      exact ho
    refine ⟨fun hr => ?_, fun hr => hmore (hsound.rejects hr), fun hr => hmore (hsound.accepts hr)⟩
    obtain ⟨hwaits, hsafe', hend⟩ := hsound.waits hr
    exact ⟨fun o ho => hmore (hwaits o ho), hsafe', hend⟩

/-- However a safe stream arrives, the handshake ends as if all of it were there at once. -/
theorem Arrives.verdict {c : Conn} (h : Arrives set c n f o) : c.Ok → Safe set c.req (c.contents ++ f) →
    (∀ m, Verdict set c.req c.contents m .waiting) → Verdict set c.req (c.contents ++ f) n o := by
  induction h with
  | finish =>
    intro _ _ hwaits
    rw [List.append_nil]
    exact hwaits _
  | waits hread hcall _ ih =>
    intro _ hsafe _
    rw [← List.append_assoc, ← hread.contents, ← hread.req] at hsafe ⊢
    obtain ⟨hok, hcalls⟩ := fetchFromBufSocks_calls hread.ok hcall
    obtain ⟨hback, hsafe', hwaits⟩ := (hcalls.sound hsafe).waits rfl
    exact hback _ (ih hok hsafe' hwaits)
  | rejects hread hcall =>
    intro _ hsafe _
    rw [← List.append_assoc, ← hread.contents, ← hread.req] at hsafe ⊢
    obtain ⟨-, hcalls⟩ := fetchFromBufSocks_calls hread.ok hcall
    exact (hcalls.sound hsafe).rejects rfl
  | accepts hread hcall =>
    intro _ hsafe _
    rw [← List.append_assoc, ← hread.contents, ← hread.req] at hsafe ⊢
    obtain ⟨-, hcalls⟩ := fetchFromBufSocks_calls hread.ok hcall
    exact (hcalls.sound hsafe).accepts rfl

end

end Badnet.Socks

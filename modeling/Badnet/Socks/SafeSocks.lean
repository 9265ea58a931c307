/-
  Badnet.Socks.SafeSocks — what the option SafeSocks refuses.

  An application that gives Tor an address and not a name may have looked the name up itself; with SafeSocks such
  requests are refused, and all others should be as without it. For SOCKS4 it is the other way round:
  `process_socks4_request` refuses the requests that are SOCKS4a, and takes those with an address.
  `safe_socks_exact_iff` says for which streams the option does what it is for.
-/

import Badnet.Socks.Cuts

namespace Badnet.Socks

open Lib Net Encoding Buffers

/-! ## Reads -/

/-- Bytes that are read, and the buffer that they are in then. -/
structure Read where
  bytes : List UInt8
  inbuf : Buf
  heap : Heap
  inPlace : Nat → Bool

def Conn.after (c : Conn) (r : Read) : Conn := { c with inbuf := r.inbuf, heap := r.heap }

def Read.stream (reads : List Read) : List UInt8 := reads.flatMap Read.bytes

/-- As `Arrives`, with the reads that are made. -/
inductive ArrivesBy (set : Settings) : Conn → Nat → List Read → Outcome → Prop where
  | finish {c : Conn} {n : Nat} : ArrivesBy set c n [] .waiting
  | waits {c c' : Conn} {n fuel : Nat} {r : Read} {rs : List Read} {reply : Option (List UInt8)} {o : Outcome}
    (hread : Delivers c r.bytes (c.after r))
    (hcall : fetchFromBufSocks set r.inPlace fuel (c.after r) = some ⟨0, c', reply⟩)
    (hrest : ArrivesBy set c' (n + ((c.after r).contents.length - c'.contents.length)) rs o) : ArrivesBy set c n (r :: rs) o
  | rejects {c c' : Conn} {n fuel : Nat} {r : Read} {rs : List Read} {reply : Option (List UInt8)}
    (hread : Delivers c r.bytes (c.after r))
    (hcall : fetchFromBufSocks set r.inPlace fuel (c.after r) = some ⟨-1, c', reply⟩) : ArrivesBy set c n (r :: rs) .rejected
  | accepts {c c' : Conn} {n fuel : Nat} {r : Read} {rs : List Read} {reply : Option (List UInt8)}
    (hread : Delivers c r.bytes (c.after r))
    (hcall : fetchFromBufSocks set r.inPlace fuel (c.after r) = some ⟨1, c', reply⟩) :
    ArrivesBy set c n (r :: rs) (acceptedOutcome c'.req (n + ((c.after r).contents.length - c'.contents.length)))

/-- What arrives in some way does so in some reads. -/
theorem Arrives.reads {set : Settings} {c : Conn} {n : Nat} {w : List UInt8} {o : Outcome} (h : Arrives set c n w o) :
    ∃ reads, Read.stream reads <+: w ∧ ArrivesBy set c n reads o := by
  induction h with
  | finish => exact ⟨[], List.nil_prefix, .finish⟩
  | @waits c c' c'' n fuel bytes rest inPlace reply o hread hcall hrest ih =>
    obtain ⟨reads, hstream, hby⟩ := ih
    have hafter : c.after ⟨bytes, c'.inbuf, c'.heap, inPlace⟩ = c' := by
      rw [Conn.after, ← hread.req]
    refine ⟨⟨bytes, c'.inbuf, c'.heap, inPlace⟩ :: reads, ?_, ?_⟩
    · exact (List.prefix_append_right_inj bytes).mpr hstream
    · exact .waits (hafter.symm ▸ hread) (hafter.symm ▸ hcall) (hafter.symm ▸ hby)
  | @rejects c c' c'' n fuel bytes rest inPlace reply hread hcall =>
    have hafter : c.after ⟨bytes, c'.inbuf, c'.heap, inPlace⟩ = c' := by
      rw [Conn.after, ← hread.req]
    refine ⟨[⟨bytes, c'.inbuf, c'.heap, inPlace⟩], ?_, .rejects (hafter.symm ▸ hread) (hafter.symm ▸ hcall)⟩
    simp [Read.stream]
  | @accepts c c' c'' n fuel bytes rest inPlace reply hread hcall =>
    have hafter : c.after ⟨bytes, c'.inbuf, c'.heap, inPlace⟩ = c' := by
      rw [Conn.after, ← hread.req]
    refine ⟨[⟨bytes, c'.inbuf, c'.heap, inPlace⟩], ?_, ?_⟩
    · simp [Read.stream]
    · rw [← hafter] at hread hcall ⊢
      exact .accepts hread hcall

/-! ## The request in a stream -/

/-- Where the request stands: behind the methods that are offered, and behind the username and password that follow them. -/
def requestOf (w : List UInt8) : Option (List UInt8) :=
  match socks5ClientVersionParse w with
  | .ok (t, v) =>
    if SOCKS_USER_PASS ∈ t.methods ∨ SOCKS_NO_AUTH ∈ t.methods then
      match socks5ClientUserpassAuthParse v with
      | .ok (_, rest) => some rest
      | .error _ => some v
    else none
  | .error _ => some w

inductive Destination where
  | ip
  | hostname
  deriving DecidableEq

/-- What the destination of the request at the front is given as. -/
def destinationOf (v : List UInt8) : Option Destination :=
  match socks4ClientRequestParse v with
  | .ok (t, _) => some (if t.hostname.isSome then .hostname else .ip)
  | .error _ =>
    match socks5ClientRequestParse v with
    | .ok (t, _) => some (if t.atype = 1 ∨ t.atype = 4 then .ip else .hostname)
    | .error _ => none

/-! ## With the option and without it -/

section
variable {mapped : Text → Bool} {req : SocksRequest} {d : List UInt8}

theorem processSocks4Request_safe (mapped : Text → Bool) (req : SocksRequest) (isSocks4a : Bool) :
    processSocks4Request ⟨true, mapped⟩ req isSocks4a =
      if isSocks4a ∧ ¬ mapped req.address then .INVALID else processSocks4Request ⟨false, mapped⟩ req isSocks4a := by
  by_cases h : isSocks4a ∧ ¬ mapped req.address
  · simp [processSocks4Request, h]
  · simp only [processSocks4Request, and_true, if_neg h, Bool.false_eq_true, and_false, if_false]

/-- A request of SOCKS5 that the option is against. -/
def Reveals (mapped : Text → Bool) (req : SocksRequest) : Prop :=
  (req.socks5Atyp = 1 ∨ req.socks5Atyp = 4) ∧ req.command ≠ SOCKS_COMMAND_RESOLVE_PTR ∧ ¬ mapped req.address

instance : Decidable (Reveals mapped req) := inferInstanceAs (Decidable (_ ∧ _))

theorem processSocks5ClientRequest_safe (mapped : Text → Bool) (req : SocksRequest) :
    processSocks5ClientRequest ⟨true, mapped⟩ req =
      if (processSocks5ClientRequest ⟨false, mapped⟩ req).1 = .DONE ∧ Reveals mapped req then
        (.INVALID, some (socks5Error SOCKS5_NOT_ALLOWED))
      else processSocks5ClientRequest ⟨false, mapped⟩ req := by
  unfold processSocks5ClientRequest Reveals
  split
  · simp
  split
  · simp
  split
  · simp
  · simp

theorem handleSocks4_safe (h : (handleSocks4 ⟨false, mapped⟩ d req).res ≠ .DONE) :
    handleSocks4 ⟨true, mapped⟩ d req = handleSocks4 ⟨false, mapped⟩ d req := by
  unfold handleSocks4 at h ⊢
  by_cases hparse : (parseSocks4Request d req).1 = .DONE
  · simp only [hparse, ne_eq, not_true_eq_false, if_false] at h ⊢
    rw [processSocks4Request_safe, processSocks4Request_invalid h, ite_self]
  · simp only [ne_eq, hparse, not_false_eq_true, if_true]

theorem handleSocks5ClientRequest_safe (h : (handleSocks5ClientRequest ⟨false, mapped⟩ d req).res ≠ .DONE) :
    handleSocks5ClientRequest ⟨true, mapped⟩ d req = handleSocks5ClientRequest ⟨false, mapped⟩ d req := by
  unfold handleSocks5ClientRequest at h ⊢
  by_cases hparse : (parseSocks5ClientRequest d req).1 = .DONE
  · simp only [hparse, ne_eq, not_true_eq_false, if_false] at h ⊢
    rw [processSocks5ClientRequest_safe, if_neg fun hand => h hand.1]
  · simp only [ne_eq, hparse, not_false_eq_true, if_true]

/-- The option matters only where a request would be accepted. -/
theorem parseSocks_safe (h : (parseSocks ⟨false, mapped⟩ d req).res ≠ .DONE) :
    parseSocks ⟨true, mapped⟩ d req = parseSocks ⟨false, mapped⟩ d req := by
  by_cases hd : d.length < 2
  · rw [parseSocks, parseSocks, if_pos hd, if_pos hd]
  have hd := Nat.not_lt.mp hd
  by_cases h4 : d.head? = some SOCKS_VER_4
  · rw [parseSocks_socks4 hd h4] at h ⊢
    rw [parseSocks_socks4 hd h4]
    split
    · rfl
    next hnet =>
      rw [if_neg hnet] at h
      exact handleSocks4_safe h
  by_cases h5 : d.head? = some SOCKS_VER_5 ∨ d.head? = some SOCKS_AUTH
  · rw [parseSocks_socks5 hd h5] at h ⊢
    rw [parseSocks_socks5 hd h5]
    split
    · rfl
    next huser =>
      rw [if_neg huser] at h
      split
      · rfl
      next hversion =>
        rw [if_neg hversion] at h
        exact handleSocks5ClientRequest_safe h
  · rw [parseSocks_unknown hd h4 h5, parseSocks_unknown hd h4 h5]

end

/-! ## The message that decides -/

/-- After some messages of a stream, these bytes are looked at, and a request in them is accepted. -/
structure Decides (set : Settings) (req : SocksRequest) (v : List UInt8) (req₁ : SocksRequest) (d : List UInt8) : Prop where
  leads : ∃ more, Leads set req v req₁ (d ++ more)
  long : 2 ≤ d.length
  done : (parseSocks set d req₁).res = .DONE

/-- The same call with another setting goes the same way, up to the message that decides. -/
structure Follows (set set' : Settings) (c : Conn) (x : List UInt8) (f : Fetched) (call' : Option Fetched) : Prop where
  same : f.res ≠ 1 → call' = some f
  decides : f.res = 1 → ∃ req₁ d, Decides set c.req (c.contents ++ x) req₁ d ∧ f.conn.req = (parseSocks set d req₁).req ∧
    (parseSocks set' d req₁ = parseSocks set d req₁ → call' = some f) ∧
    ((parseSocks set' d req₁).res = .INVALID → ∃ c' reply, call' = some ⟨-1, c', reply⟩)

section
variable {set set' : Settings} {req req' req₁ : SocksRequest} {q q' d x v1 : List UInt8}

/-- A message that is seen in part of the buffer is there in all of the stream. -/
theorem Leads.of_view (hd : 2 ≤ d.length) (hview : View q d) (hres : (parseSocks set d req).res = .MORE_EXPECTED)
    (h : Leads set (parseSocks set d req).req (q.drop (parseSocks set d req).drain ++ x) req₁ v1) :
    Leads set req (q ++ x) req₁ v1 := by
  have hle := parseSocks_drain_le hd hview.start (.inr hres)
  have hsame : parseSocks set (q ++ x) req = parseSocks set d req := by
    obtain ⟨more, hmore⟩ : d <+: q ++ x := hview.start.trans (List.prefix_append q x)
    rw [← hmore]
    exact parseSocks_append hd (parseSocks_more_head hd hres) (by rw [hres]; decide) more
  have hlen : 2 ≤ (q ++ x).length := by
    have hstart := hview.start.length_le
    rw [List.length_append]
    omega
  refine .step hlen (by rw [hsame, hres]) ?_
  rw [hsame, List.drop_append_of_le_length hle]
  exact h

theorem fetchLoop_follows (hagree : ∀ d req, (parseSocks set d req).res ≠ .DONE → parseSocks set' d req = parseSocks set d req)
    (inPlace : Nat → Bool) (x : List UInt8) {fuel : Nat} : ∀ {n : Nat} {c : Conn} {reply : Option (List UInt8)} {f : Fetched},
      c.Ok → 2 ≤ c.contents.length → fetchLoop set inPlace fuel n c reply = some f →
      Follows set set' c x f (fetchLoop set' inPlace fuel n c reply) := by
  induction fuel with
  | zero =>
    intro n c reply f _ _ h
    cases h
  | succ fuel ih =>
    intro n c reply f hc hlen h
    obtain ⟨d, hview, hd, hturn⟩ := @fetchLoop_turn c inPlace n hc hlen
    obtain ⟨c', ⟨hok, hreq, hcontents⟩, hloop⟩ := hturn set
    rw [hloop set fuel reply rfl] at h
    have hfollow : (parseSocks set d c.req).res ≠ .DONE → _ := fun hne => hloop set' fuel reply (hagree d c.req hne)
    cases hres : (parseSocks set d c.req).res with
    | INVALID | TRUNCATED =>
      rw [hfollow (by rw [hres]; decide)]
      rw [hres] at h ⊢
      cases h
      exact ⟨fun _ => rfl, nofun⟩
    | DONE =>
      obtain ⟨more, hmore⟩ : d <+: c.contents ++ x := hview.start.trans (List.prefix_append c.contents x)
      rw [hres] at h
      cases h
      refine ⟨fun hne => absurd rfl hne, fun _ => ⟨c.req, d, ⟨⟨more, hmore ▸ .refl⟩, hd, hres⟩, hreq, ?_, ?_⟩⟩
      · intro hsame
        rw [hloop set' fuel reply hsame, hres]
        rfl
      · intro hinvalid
        obtain ⟨c'', -, hloop'⟩ := hturn set'
        rw [hloop' set' fuel reply rfl, hinvalid]
        exact ⟨_, _, rfl⟩
    | MORE_EXPECTED =>
      rw [hfollow (by rw [hres]; decide)]
      rw [hres] at h ⊢
      simp only [hres] at hcontents
      unfold goesOn at h ⊢
      dsimp only at h ⊢
      split at h
      next hmore =>
        rw [if_pos hmore]
        obtain ⟨hsame, hdecides⟩ := ih hok hmore h
        refine ⟨hsame, fun hone => ?_⟩
        obtain ⟨req₁, d', ⟨⟨tail, hleads⟩, hlong, hdone⟩, hrest⟩ := hdecides hone
        rw [hcontents, hreq] at hleads
        exact ⟨req₁, d', ⟨⟨tail, Leads.of_view hd hview hres hleads⟩, hlong, hdone⟩, hrest⟩
      next hmore =>
        rw [if_neg hmore]
        cases h
        exact ⟨fun _ => rfl, nofun⟩

variable {c : Conn} {req₀ : SocksRequest}

theorem fetchFromBufSocks_follows
    (hagree : ∀ d req, (parseSocks set d req).res ≠ .DONE → parseSocks set' d req = parseSocks set d req)
    {inPlace : Nat → Bool} {fuel : Nat} {f : Fetched} (hc : c.Ok) (h : fetchFromBufSocks set inPlace fuel c = some f)
    (x : List UInt8) : Follows set set' c x f (fetchFromBufSocks set' inPlace fuel c) := by
  unfold fetchFromBufSocks at h ⊢
  split at h
  next hshort =>
    rw [if_pos hshort]
    cases h
    exact ⟨fun _ => rfl, nofun⟩
  next hshort =>
    rw [if_neg hshort]
    exact fetchLoop_follows hagree inPlace x hc (hc.buf.datalen ▸ Nat.not_lt.mp hshort) h

/-- A request, or what a truncated SOCKS4 message has made of it. -/
def Marked (req req₀ : SocksRequest) (q : List UInt8) : Prop :=
  req = req₀ ∨ (q.head? = some SOCKS_VER_4 ∧ ¬ q.length < SOCKS4_NETWORK_LEN ∧ req = { req₀ with socksVersion := SOCKS_VER_4 })

theorem head_of_start (hd : 2 ≤ d.length) (h : d <+: q) : q.head? = d.head? := by
  obtain ⟨more, rfl⟩ := h
  exact head?_append_of_le hd more

theorem Marked.truncated (h : Marked req req₀ q) (hd : 2 ≤ d.length) (hq : d <+: q)
    (hres : (parseSocks set d req).res = .TRUNCATED) : Marked (parseSocks set d req).req req₀ q := by
  rcases parseSocks_truncated_req hd hres with hreq | ⟨h4, hnet, hreq⟩
  · rw [hreq]
    exact h
  · refine .inr ⟨by rw [head_of_start hd hq, h4], fun hlt => hnet (Nat.lt_of_le_of_lt hq.length_le hlt), ?_⟩
    rw [hreq]
    rcases h with rfl | ⟨-, -, rfl⟩ <;> rfl

/-- After a call that waits, the rest of the stream is where some messages lead. -/
theorem Calls.leads {r : Int} (h : Calls set req q r req' q') : ∀ {req₀ : SocksRequest}, Marked req req₀ q → r = 0 →
    ∃ req0', Leads set req₀ (q ++ x) req0' (q' ++ x) ∧ Marked req' req0' q' := by
  induction h with
  | short hq => exact fun hmarked _ => ⟨_, .refl, hmarked⟩
  | truncated hd hview hres => exact fun hmarked _ => ⟨_, .refl, hmarked.truncated hd hview.start hres⟩
  | invalid | done =>
    intro req₀ _ hr
    cases hr
  | @more req req' q d q' r hd hview hres _ ih =>
    intro req₀ hmarked hr
    rcases hmarked with rfl | ⟨h4, -⟩
    · obtain ⟨req0', hleads, hmarked'⟩ := ih (.inl rfl) hr
      exact ⟨req0', .of_view hd hview hres hleads, hmarked'⟩
    · rw [head_of_start hd hview.start] at h4
      exact absurd h4 (parseSocks_more_head hd hres)

theorem Leads.socks4 {v v' : List UInt8} (h : Leads set req v req' v') (h4 : v.head? = some SOCKS_VER_4) :
    req' = req ∧ v' = v := by
  cases h with
  | refl => exact ⟨rfl, rfl⟩
  | step hv hres => exact absurd h4 (parseSocks_more_head hv hres)

/-- The mark does not matter to the message that decides. -/
theorem Decides.unmarked (h : Decides set req (q ++ x) req₁ d) (hmarked : Marked req req₀ q) :
    ∃ req2, Decides set req₀ (q ++ x) req2 d ∧ ∀ set', parseSocks set' d req2 = parseSocks set' d req₁ := by
  rcases hmarked with rfl | ⟨h4, hnet, rfl⟩
  · exact ⟨req₁, h, fun _ => rfl⟩
  obtain ⟨⟨more, hleads⟩, hd, hdone⟩ := h
  have hhead : (q ++ x).head? = some SOCKS_VER_4 := by
    rw [head?_append_of_le (Nat.le_trans (by decide) (Nat.not_lt.mp hnet)) x, h4]
  obtain ⟨rfl, hall⟩ := hleads.socks4 hhead
  have hd4 : d.head? = some SOCKS_VER_4 := by
    rw [← head_of_start hd (List.prefix_append d more), hall, hhead]
  have hlen : ¬ d.length < SOCKS4_NETWORK_LEN := by
    intro hlt
    rw [parseSocks_socks4 hd hd4, if_pos hlt] at hdone
    cases hdone
  have hsame : ∀ set', parseSocks set' d req₀ = parseSocks set' d { req₀ with socksVersion := SOCKS_VER_4 } := by
    intro set'
    rw [parseSocks_socks4 hd hd4, parseSocks_socks4 hd hd4, if_neg hlen, if_neg hlen]
    rfl
  refine ⟨req₀, ⟨⟨more, ?_⟩, hd, by rw [hsame, hdone]⟩, hsame⟩
  rw [hall]
  exact .refl

theorem Delivers.stream_cons {r : Read} {rs : List Read} {y : List UInt8} (h : Delivers c r.bytes (c.after r)) :
    c.contents ++ (Read.stream (r :: rs) ++ y) = (c.after r).contents ++ (Read.stream rs ++ y) := by
  rw [h.contents, Read.stream, List.flatMap_cons]
  simp only [List.append_assoc]
  rfl

theorem Delivers.marked {r : Read} (h : Delivers c r.bytes (c.after r))
    (hmarked : Marked c.req req₀ c.contents) : Marked (c.after r).req req₀ (c.after r).contents := by
  rcases hmarked with hreq | ⟨h4, hnet, hreq⟩
  · exact .inl hreq
  · have hlen : 2 ≤ c.contents.length := Nat.le_trans (by decide) (Nat.not_lt.mp hnet)
    refine .inr ⟨?_, fun hlt => hnet ?_, hreq⟩
    · rw [h.contents, head?_append_of_le hlen, h4]
    · rw [h.contents, List.length_append] at hlt
      omega

/-- The same reads with another setting end the same way, up to the message that decides. -/
structure Ends (set set' : Settings) (prefer : Bool) (w : List UInt8) (c : Conn) (n : Nat) (reads : List Read) (o : Outcome) :
    Prop where
  same : (∀ req k, o ≠ acceptedOutcome req k) → ArrivesBy set' c n reads o
  decides : ∀ req k, o = acceptedOutcome req k → ∃ req₁ d, Decides set (socksRequestNew prefer) w req₁ d ∧
    o = acceptedOutcome (parseSocks set d req₁).req k ∧
    (parseSocks set' d req₁ = parseSocks set d req₁ → ArrivesBy set' c n reads o) ∧
    ((parseSocks set' d req₁).res = .INVALID → ArrivesBy set' c n reads .rejected)

theorem ArrivesBy.ends {prefer : Bool} {w y : List UInt8} {n : Nat} {reads : List Read} {o : Outcome}
    (hagree : ∀ d req, (parseSocks set d req).res ≠ .DONE → parseSocks set' d req = parseSocks set d req)
    (h : ArrivesBy set c n reads o) : ∀ {req₀ : SocksRequest},
      Leads set (socksRequestNew prefer) w req₀ (c.contents ++ (Read.stream reads ++ y)) → Marked c.req req₀ c.contents →
      Ends set set' prefer w c n reads o := by
  induction h with
  | finish =>
    intro req₀ _ _
    exact ⟨fun _ => .finish, fun req k heq => by cases heq⟩
  | @waits c c' n fuel r rs reply o hread hcall hrest ih =>
    intro req₀ hleads hmarked
    rw [hread.stream_cons] at hleads
    have hfollows := fetchFromBufSocks_follows hagree hread.ok hcall []
    have hcall' := hfollows.same (show (0 : Int) ≠ 1 by decide)
    obtain ⟨-, hcalls⟩ := fetchFromBufSocks_calls hread.ok hcall
    obtain ⟨req0', hleads', hmarked'⟩ := hcalls.leads (hread.marked hmarked) rfl
    obtain ⟨hsame, hdecides⟩ := ih (hleads.trans hleads') hmarked'
    refine ⟨fun hne => .waits hread hcall' (hsame hne), fun req k heq => ?_⟩
    obtain ⟨req₁, d, hd, ho, hkeeps, hrefuses⟩ := hdecides req k heq
    exact ⟨req₁, d, hd, ho, fun h => .waits hread hcall' (hkeeps h), fun h => .waits hread hcall' (hrefuses h)⟩
  | @rejects c c' n fuel r rs reply hread hcall =>
    intro req₀ _ _
    have hfollows := fetchFromBufSocks_follows hagree hread.ok hcall []
    exact ⟨fun _ => .rejects hread (hfollows.same (show (-1 : Int) ≠ 1 by decide)), fun req k heq => by cases heq⟩
  | @accepts c c' n fuel r rs reply hread hcall =>
    intro req₀ hleads hmarked
    rw [hread.stream_cons] at hleads
    have hfollows := fetchFromBufSocks_follows hagree hread.ok hcall (Read.stream rs ++ y)
    obtain ⟨req₁, d, hd, hreq, hkeeps, hrefuses⟩ := hfollows.decides rfl
    obtain ⟨req2, hd2, hsame⟩ := hd.unmarked (hread.marked hmarked)
    refine ⟨fun hne => absurd rfl (hne _ _), fun req k heq => ⟨req2, d, ?_, ?_, ?_, ?_⟩⟩
    · obtain ⟨⟨more, honward⟩, hlong, hdone⟩ := hd2
      exact ⟨⟨more, hleads.trans honward⟩, hlong, hdone⟩
    · obtain ⟨-, -, -, -, -, -, rfl⟩ := Outcome.accepted.inj heq
      rw [hsame, ← hreq]
    · intro h
      rw [hsame, hsame] at h
      exact .accepts hread (hkeeps h)
    · intro h
      rw [hsame] at h
      obtain ⟨c'', reply', hcall'⟩ := hrefuses h
      exact .rejects hread hcall'

end

/-! ## The request that is accepted -/

section
variable {set : Settings} {prefer : Bool} {req : SocksRequest} {w d : List UInt8}

/-- The request of a SOCKS5 message. -/
def socks5Filled (req : SocksRequest) (t : Socks5ClientRequest) : SocksRequest :=
  { req with
    command := t.command
    port := t.destPort
    socks5Atyp := t.atype
    address := (destAddrText t.destAddr).getD req.address }

theorem handleSocks5ClientRequest_fills {t : Socks5ClientRequest} {rest : List UInt8}
    (hread : socks5ClientRequestParse d = .ok (t, rest)) (set : Settings) :
    handleSocks5ClientRequest set d req = ⟨(processSocks5ClientRequest set (socks5Filled req t)).1, socks5Filled req t,
      d.length - rest.length, (processSocks5ClientRequest set (socks5Filled req t)).2⟩ := by
  have hversion := (request_version hread).1
  simp only [handleSocks5ClientRequest, parseSocks5ClientRequest, hread, hversion]
  rfl

/-- A message that is accepted is a SOCKS4 request, or a SOCKS5 request behind the methods. -/
theorem parseSocks_done_cases (hd : 2 ≤ d.length) (hdone : (parseSocks set d req).res = .DONE) :
    (d.head? = some SOCKS_VER_4 ∧ (∀ set', parseSocks set' d req = handleSocks4 set' d req) ∧
      ∃ t rest, socks4ClientRequestParse d = .ok (t, rest) ∧ Socks4Accepts set t ∧ Socks4Fits t d.length ∧
        (parseSocks set d req).req = socks4Filled req t) ∨
    (¬ (req.gotAuth = false ∧ (d.head? = some 1 ∨ req.authType = SOCKS_USER_PASS)) ∧ req.socksVersion = SOCKS_VER_5 ∧
      (∀ set', parseSocks set' d req = handleSocks5ClientRequest set' d req) ∧
      ∃ t rest, socks5ClientRequestParse d = .ok (t, rest)) := by
  by_cases h4 : d.head? = some SOCKS_VER_4
  · refine .inl ⟨h4, ?_⟩
    by_cases hnet : d.length < SOCKS4_NETWORK_LEN
    · rw [parseSocks_socks4 hd h4, if_pos hnet] at hdone
      cases hdone
    have hparse : ∀ set', parseSocks set' d req = handleSocks4 set' d req := by
      intro set'
      rw [parseSocks_socks4 hd h4, if_neg hnet]
    refine ⟨hparse, ?_⟩
    rw [hparse] at hdone ⊢
    rcases hread : socks4ClientRequestParse d with (_ | _) | ⟨t, rest⟩
    · rw [handleSocks4_short hread] at hdone
      split at hdone <;> cases hdone
    · rw [handleSocks4_bad hread] at hdone
      cases hdone
    · rcases @handleSocks4_ok set req d rest t hread with ⟨heq, haccepts, hfits⟩ | ⟨heq, -⟩
      · exact ⟨t, rest, rfl, haccepts, hfits, by rw [heq]⟩
      · rw [heq] at hdone
        cases hdone
  by_cases h5 : d.head? = some SOCKS_VER_5 ∨ d.head? = some SOCKS_AUTH
  · refine .inr ?_
    rw [parseSocks_socks5 hd h5] at hdone
    split at hdone
    next => exact absurd hdone handleSocks5UserpassAuth_ne_done
    next huser =>
      split at hdone
      next => exact absurd hdone handleSocks5Methods_ne_done
      next hversion =>
        refine ⟨fun h => huser ⟨by simp [h.1], h.2⟩, not_not.mp hversion, fun set' => ?_, ?_⟩
        · rw [parseSocks_socks5 hd h5, if_neg huser, if_neg hversion]
        · rcases hread : socks5ClientRequestParse d with (_ | _) | ⟨t, rest⟩
          · simp [handleSocks5ClientRequest, parseSocks5ClientRequest, hread] at hdone
          · simp [handleSocks5ClientRequest, parseSocks5ClientRequest, hread] at hdone
          · exact ⟨t, rest, rfl⟩
  · rw [parseSocks_unknown hd h4 h5] at hdone
    cases hdone

/-- The request that is accepted stands where the messages before it end. -/
theorem Decides.requestOf_eq {req₁ : SocksRequest} (h : Decides set (socksRequestNew prefer) w req₁ d) :
    ∃ more, requestOf w = some (d ++ more) := by
  obtain ⟨⟨more, hleads⟩, hd, hdone⟩ := h
  refine ⟨more, ?_⟩
  have hcases := parseSocks_done_cases hd hdone
  unfold requestOf
  rcases leads_start hleads with ⟨rfl, rfl⟩ | ⟨t, v, req, hread, hoffers, hneg, hauth, hleads⟩
  · -- before the methods it can only be a SOCKS4 request
    rcases hcases with ⟨h4, -⟩ | ⟨-, hversion, -⟩
    · rcases hread : socks5ClientVersionParse (d ++ more) with e | ⟨t, v⟩
      · rfl
      · have hhead := (methods_length hread).2
        rw [head?_append_of_le hd, h4] at hhead
        cases hhead
    · cases hversion
  · have hoffers' : SOCKS_USER_PASS ∈ t.methods ∨ SOCKS_NO_AUTH ∈ t.methods := hoffers
    simp only [hread, if_pos hoffers']
    rcases leads_negotiated hneg hleads with ⟨rfl, rfl⟩ | ⟨t', rest, hread', rfl, rfl⟩
    · rcases hread' : socks5ClientUserpassAuthParse (d ++ more) with e | ⟨t', rest⟩
      · rfl
      · have hhead := (userpass_length hread').2.1
        rw [head?_append_of_le hd] at hhead
        rcases hcases with ⟨h4, -⟩ | ⟨hnot, -⟩
        · rw [h4] at hhead
          cases hhead
        · exact absurd ⟨hauth, .inl hhead⟩ hnot
    · rw [hread']

end

/-! ## What the option does -/

/-- The address that a SOCKS4 request is for. -/
def Socks4ClientRequest.address (t : Socks4ClientRequest) : Text :=
  (t.hostname.map (strlcpy MAX_SOCKS_ADDR_LEN)).getD (torInetNtoa t.addr)

/-- The option refuses what gives an address, but for reverse lookups and mapped addresses, and changes nothing for what
    gives a hostname. -/
structure SafeSocksHolds (mapped : Text → Bool) (prefer : Bool) (w : List UInt8) : Prop where
  refuses : ∀ reads req n, Read.stream reads <+: w →
    ArrivesBy ⟨true, mapped⟩ (connStart prefer) 0 reads (acceptedOutcome req n) →
    (requestOf w).bind destinationOf = some .ip → req.command = SOCKS_COMMAND_RESOLVE_PTR ∨ mapped req.address = true
  keeps : ∀ reads req n, Read.stream reads <+: w →
    ArrivesBy ⟨false, mapped⟩ (connStart prefer) 0 reads (acceptedOutcome req n) →
    (requestOf w).bind destinationOf = some .hostname →
    ArrivesBy ⟨true, mapped⟩ (connStart prefer) 0 reads (acceptedOutcome req n)

section
variable {mapped : Text → Bool} {prefer : Bool} {set set' : Settings} {w v rest : List UInt8} {req : SocksRequest} {n : Nat}
  {reads : List Read} {o o' : Outcome}

variable {t : Socks4ClientRequest}

theorem socks4Accepts_safe :
    Socks4Accepts ⟨true, mapped⟩ t ↔ Socks4Accepts ⟨false, mapped⟩ t ∧ (t.hostname.isSome → mapped t.address = true) := by
  unfold Socks4Accepts
  rw [processSocks4Request_safe]
  have haddress : (socks4Filled (socksRequestNew false) t).address = t.address := rfl
  rw [haddress]
  by_cases h : t.hostname.isSome ∧ ¬ mapped t.address
  · rw [if_pos h]
    constructor
    · intro hno
      cases hno.2
    · intro hno
      exact absurd (hno.2 h.1) h.2
  · rw [if_neg h]
    constructor
    · intro hyes
      exact ⟨hyes, fun hsome => by_contra fun hnot => h ⟨hsome, hnot⟩⟩
    · exact And.left

theorem connStart_ends (hagree : ∀ d req, (parseSocks set d req).res ≠ .DONE → parseSocks set' d req = parseSocks set d req)
    (hstream : Read.stream reads <+: w) (h : ArrivesBy set (connStart prefer) 0 reads o) :
    Ends set set' prefer w (connStart prefer) 0 reads o := by
  obtain ⟨y, rfl⟩ := hstream
  exact h.ends hagree (y := y) .refl (.inl rfl)

theorem ArrivesBy.unique {c : Conn} (h : ArrivesBy set c n reads o) (h' : ArrivesBy set c n reads o') : o = o' := by
  induction h with
  | finish =>
    cases h' with
    | finish => rfl
  | waits _ hcall _ ih =>
    cases h' with
    | waits _ hcall' hrest' =>
      cases fetchFromBufSocks_unique hcall hcall'
      exact ih hrest'
    | rejects _ hcall' | accepts _ hcall' => cases fetchFromBufSocks_unique hcall hcall'
  | rejects _ hcall =>
    cases h' with
    | waits _ hcall' => cases fetchFromBufSocks_unique hcall hcall'
    | rejects => rfl
    | accepts _ hcall' => cases fetchFromBufSocks_unique hcall hcall'
  | accepts _ hcall =>
    cases h' with
    | waits _ hcall' | rejects _ hcall' => cases fetchFromBufSocks_unique hcall hcall'
    | accepts _ hcall' =>
      cases fetchFromBufSocks_unique hcall hcall'
      rfl

theorem destinationOf_socks4 (hread : socks4ClientRequestParse v = .ok (t, rest)) :
    destinationOf v = some (if t.hostname.isSome then .hostname else .ip) := by
  rw [destinationOf, hread]

theorem destinationOf_socks5 {t : Socks5ClientRequest} (hread : socks5ClientRequestParse v = .ok (t, rest)) :
    destinationOf v = some (if t.atype = 1 ∨ t.atype = 4 then .ip else .hostname) := by
  have hhead := (request_version hread).2
  unfold destinationOf
  rcases hread4 : socks4ClientRequestParse v with e | ⟨t', rest'⟩
  · rw [hread]
  · rw [(socks4_length hread4).2.1] at hhead
    cases hhead

/-- A message of SOCKS5 is accepted with the option if it does not reveal anything. -/
theorem handleSocks5ClientRequest_done_safe {t : Socks5ClientRequest} (hread : socks5ClientRequestParse v = .ok (t, rest))
    (hdone : (handleSocks5ClientRequest ⟨true, mapped⟩ v req).res = .DONE) : ¬ Reveals mapped (socks5Filled req t) := by
  intro hreveals
  rw [handleSocks5ClientRequest_fills hread, processSocks5ClientRequest_safe] at hdone
  split at hdone
  next => cases hdone
  next hnot => exact hnot ⟨hdone, hreveals⟩

theorem handleSocks5ClientRequest_keeps {t : Socks5ClientRequest} (hread : socks5ClientRequestParse v = .ok (t, rest))
    (hhost : ¬ (t.atype = 1 ∨ t.atype = 4)) :
    handleSocks5ClientRequest ⟨true, mapped⟩ v req = handleSocks5ClientRequest ⟨false, mapped⟩ v req := by
  have hnot : ¬ Reveals mapped (socks5Filled req t) := fun h => hhost h.1
  rw [handleSocks5ClientRequest_fills hread, handleSocks5ClientRequest_fills hread, processSocks5ClientRequest_safe,
    if_neg fun h => hnot h.2]

/-- No SOCKS4 request that is accepted without the option is for an address that is not mapped. -/
def Socks4Mapped (mapped : Text → Bool) (w : List UInt8) : Prop :=
  ∀ v t rest, requestOf w = some v → socks4ClientRequestParse v = .ok (t, rest) → Socks4Accepts ⟨false, mapped⟩ t →
    mapped t.address = true

theorem safe_socks_of_mapped (h : Socks4Mapped mapped w) : SafeSocksHolds mapped prefer w where
  refuses reads req n hstream hby hdest := by
    obtain ⟨req₁, d, hd, ho, -⟩ := (connStart_ends (fun _ _ _ => rfl) hstream hby).decides req n rfl
    obtain ⟨-, hcommand, haddress, -⟩ := Outcome.accepted.inj ho
    obtain ⟨more, hrequest⟩ := hd.requestOf_eq
    rw [hrequest, Option.bind_some] at hdest
    rw [hcommand, haddress]
    rcases parseSocks_done_cases hd.long hd.done with ⟨-, -, t, rest, hread, haccepts, -, hfilled⟩ | ⟨-, -, hparse, t, rest, hread⟩
    · rw [hfilled]
      have hread' := socks4ClientRequestParse_steady.append hread more
      exact .inr (h _ t _ hrequest hread' (socks4Accepts_safe.mp haccepts).1)
    · have hdone := hd.done
      rw [hparse] at hdone ⊢
      rw [destinationOf_socks5 (socks5ClientRequestParse_steady.append hread more)] at hdest
      have hip : t.atype = 1 ∨ t.atype = 4 := by
        by_contra hnot
        rw [if_neg hnot] at hdest
        cases hdest
      have hnot := handleSocks5ClientRequest_done_safe hread hdone
      rw [handleSocks5ClientRequest_fills hread]
      by_contra hno
      exact hnot ⟨hip, fun hptr => hno (.inl hptr), fun hmap => hno (.inr hmap)⟩
  keeps reads req n hstream hby hdest := by
    obtain ⟨req₁, d, hd, ho, hkeeps, -⟩ := (connStart_ends (fun _ _ => parseSocks_safe) hstream hby).decides req n rfl
    apply hkeeps
    obtain ⟨more, hrequest⟩ := hd.requestOf_eq
    rw [hrequest, Option.bind_some] at hdest
    rcases parseSocks_done_cases hd.long hd.done with ⟨-, hparse, t, rest, hread, haccepts, hfits, -⟩ | ⟨-, -, hparse, t, rest, hread⟩
    · have hmapped := h _ t _ hrequest (socks4ClientRequestParse_steady.append hread more) haccepts
      rw [hparse, hparse]
      rcases @handleSocks4_ok ⟨true, mapped⟩ req₁ _ _ _ hread with ⟨hon, -⟩ | ⟨-, hnot⟩
      · rcases @handleSocks4_ok ⟨false, mapped⟩ req₁ _ _ _ hread with ⟨hoff, -⟩ | ⟨-, hnot⟩
        · rw [hon, hoff]
        · exact absurd ⟨haccepts, hfits⟩ hnot
      · exact absurd ⟨socks4Accepts_safe.mpr ⟨haccepts, fun _ => hmapped⟩, hfits⟩ hnot
    · rw [hparse, hparse]
      rw [destinationOf_socks5 (socks5ClientRequestParse_steady.append hread more)] at hdest
      refine handleSocks5ClientRequest_keeps hread fun hip => ?_
      rw [if_pos hip] at hdest
      cases hdest

/-- The messages before a SOCKS4 request lead to it. -/
theorem leads_requestOf (set : Settings) (prefer : Bool) (hrequest : requestOf w = some v)
    (hread : socks4ClientRequestParse v = .ok (t, rest)) :
    (∃ req, Leads set (socksRequestNew prefer) w req v) ∧ w.length ≤ v.length + 770 := by
  have hhead := (socks4_length hread).2.1
  unfold requestOf at hrequest
  split at hrequest
  next m v' hmethods =>
    have hlen := socks5ClientVersionParse_within.ok hmethods
    split at hrequest
    next hoffers =>
      obtain ⟨req, hneg, hauth, hleads⟩ := leads_methods set prefer hmethods hoffers
      split at hrequest
      next u rest' huser =>
        cases hrequest
        have hlen' := socks5ClientUserpassAuthParse_within.ok huser
        exact ⟨⟨_, hleads.trans (leads_userpass set huser hneg hauth)⟩, by omega⟩
      next =>
        cases hrequest
        exact ⟨⟨req, hleads⟩, by omega⟩
    next => cases hrequest
  next =>
    cases hrequest
    exact ⟨⟨_, .refl⟩, Nat.le_add_right ..⟩

theorem mapped_of_safe_socks (h : SafeSocksHolds mapped prefer w) : Socks4Mapped mapped w := by
  intro v t rest hrequest hread haccepts
  have hlen : w.length - rest.length ≤ bufMaxLen := by
    obtain ⟨hsize, -⟩ := socks4_length hread
    have hw := (leads_requestOf ⟨true, mapped⟩ prefer hrequest hread).2
    have hname := haccepts.1.username
    have hhost := haccepts.1.hostnameSize_le
    unfold MAX_SOCKS_MESSAGE_LEN at hname
    unfold MAX_SOCKS_ADDR_LEN at hhost
    unfold bufMaxLen
    omega
  have hdest : (requestOf w).bind destinationOf = some (if t.hostname.isSome then .hostname else .ip) := by
    rw [hrequest, Option.bind_some, destinationOf_socks4 hread]
  by_contra hunmapped
  by_cases hhost : t.hostname.isSome
  · obtain ⟨⟨req, hleads⟩, -⟩ := leads_requestOf ⟨false, mapped⟩ prefer hrequest hread
    obtain ⟨k, harrives⟩ := socks4_accepted hleads hread hlen haccepts
    obtain ⟨reads, hstream, hby⟩ := harrives.reads
    rw [if_pos hhost] at hdest
    have hkept := h.keeps reads _ k hstream hby hdest
    obtain ⟨req₁, d, hd, -, -, hrefused⟩ := (connStart_ends (fun _ _ => parseSocks_safe) hstream hby).decides _ k rfl
    obtain ⟨more, hrequest'⟩ := hd.requestOf_eq
    rw [hrequest] at hrequest'
    cases hrequest'
    rcases parseSocks_done_cases hd.long hd.done with ⟨-, hparse, t', rest', hread', -⟩ | ⟨-, -, -, t', rest', hread'⟩
    · rw [socks4ClientRequestParse_steady.append hread' more] at hread
      cases hread
      have hrejected := hrefused ?_
      · cases hkept.unique hrejected
      · rw [hparse]
        rcases @handleSocks4_ok ⟨true, mapped⟩ req₁ _ _ _ hread' with ⟨-, hon, -⟩ | ⟨heq, -⟩
        · exact absurd ((socks4Accepts_safe.mp hon).2 hhost) hunmapped
        · exact heq
    · have hhead := (request_version hread').2
      have hhead' := (socks4_length hread).2.1
      rw [head?_append_of_le hd.long, hhead] at hhead'
      cases hhead'
  · obtain ⟨⟨req, hleads⟩, -⟩ := leads_requestOf ⟨true, mapped⟩ prefer hrequest hread
    have haccepts' : Socks4Accepts ⟨true, mapped⟩ t := socks4Accepts_safe.mpr ⟨haccepts, fun hsome => absurd hsome hhost⟩
    obtain ⟨k, harrives⟩ := socks4_accepted hleads hread hlen haccepts'
    obtain ⟨reads, hstream, hby⟩ := harrives.reads
    rw [if_neg hhost] at hdest
    rcases h.refuses reads _ k hstream hby hdest with hptr | hmap
    · rcases processSocks4Request_command haccepts.2 with hcommand | hcommand
      · cases hcommand.symm.trans hptr
      · cases hcommand.symm.trans hptr
    · exact hunmapped hmap

end

/-- The option is exact for a stream if and only if the stream has no SOCKS4 request for an unmapped address that is
    accepted without it. -/
theorem safe_socks_exact_iff (mapped : Text → Bool) (prefer : Bool) (w : List UInt8) :
    SafeSocksHolds mapped prefer w ↔ Socks4Mapped mapped w :=
  ⟨mapped_of_safe_socks, safe_socks_of_mapped⟩

/-- A SOCKS4 request for the port 80 of 1.2.3.4. -/
def requestForAddress : List UInt8 := [4, 1, 0, 80, 1, 2, 3, 4, 0]

/-- With the option, and no mapping, the address is taken all the same. -/
theorem an_address_in_socks4_is_not_refused : ¬ SafeSocksHolds (fun _ => false) false requestForAddress := by
  intro h
  have hread : socks4ClientRequestParse requestForAddress = .ok (⟨4, 1, 80, 0x01020304, [], none⟩, []) := rfl
  have haccepts : Socks4Accepts ⟨false, fun _ => false⟩ ⟨4, 1, 80, 0x01020304, [], none⟩ :=
    ⟨⟨by decide, by decide, by decide, by decide⟩, by decide +kernel⟩
  cases mapped_of_safe_socks h requestForAddress _ _ rfl hread haccepts

end Badnet.Socks

/-
  Badnet.Socks.ProtoSocks — the server side of SOCKS (`core/proto/proto_socks.c`).

  `handle_socks_message` chooses which message to expect from what was negotiated so far. `fetch_from_buf_socks` does so
  in a loop over the connection's buffer. It looks at the first chunk after pulling up at most 512 bytes: that is every
  byte if there are no more than 512, and any number from 512 on otherwise. Replies are what a call wrote last, as the
  caller sends them after each call.
-/

import Badnet.Buf.Chunks
import Badnet.Net.AddrText
import Badnet.Socks.Messages

namespace Badnet.Socks

open Lib Net Encoding Buffers

def SOCKS_VER_5 : UInt8 := 5

def SOCKS_VER_4 : UInt8 := 4

def SOCKS_AUTH : UInt8 := 1

def SOCKS_NO_AUTH : UInt8 := 0

def SOCKS_USER_PASS : UInt8 := 2

def SOCKS_COMMAND_CONNECT : UInt8 := 0x01

def SOCKS_COMMAND_RESOLVE : UInt8 := 0xF0

def SOCKS_COMMAND_RESOLVE_PTR : UInt8 := 0xF1

def SOCKS4_NETWORK_LEN : Nat := 8

def MAX_SOCKS_ADDR_LEN : Nat := 256

def MAX_SOCKS_MESSAGE_LEN : Nat := 512

inductive SocksResult where
  | INVALID
  | TRUNCATED
  | DONE
  | MORE_EXPECTED
  deriving DecidableEq

/-- A username or password that is NULL is empty. -/
structure SocksRequest where
  socksVersion : UInt8
  authType : UInt8
  command : UInt8
  address : Text
  port : UInt16
  gotAuth : Bool
  socksPreferNoAuth : Bool
  username : List UInt8
  password : List UInt8
  socks5Atyp : UInt8
  deriving DecidableEq

def socksRequestNew (socksPreferNoAuth : Bool) : SocksRequest where
  socksVersion := 0
  authType := 0
  command := 0
  address := []
  port := 0
  gotAuth := false
  socksPreferNoAuth
  username := []
  password := []
  socks5Atyp := 0

/-- `safe_socks`, and which addresses the address map has. -/
structure Settings where
  safeSocks : Bool
  addressmapHaveMapping : Text → Bool

/-- `strlcpy` of the bytes up to the first NUL to a buffer of `size` bytes. -/
def strlcpy (size : Nat) (src : List UInt8) : Text :=
  ((src.takeWhile (· ≠ 0)).take (size - 1)).map fun b => Char.ofNat b.toNat

/-! ## Replies -/

def SOCKS5_GENERAL_ERROR : UInt8 := 0x01

def SOCKS5_NOT_ALLOWED : UInt8 := 0x02

def SOCKS5_COMMAND_NOT_SUPPORTED : UInt8 := 0x07

def SOCKS5_ADDRESS_TYPE_NOT_SUPPORTED : UInt8 := 0x08

/-- The reply that `socks_request_set_socks5_error` sets: an IPv4 address and a port of zeros. -/
def socks5Error (reason : UInt8) : List UInt8 := [SOCKS_VER_5, reason, 0, 1, 0, 0, 0, 0, 0, 0]

def SOCKS_PROXY_IS_NOT_AN_HTTP_PROXY_MSG : String :=
  "HTTP/1.0 501 Tor is not an HTTP Proxy\r\n" ++
  "Content-Type: text/html; charset=iso-8859-1\r\n\r\n" ++
  "<html>\n" ++
  "<head>\n" ++
  "<title>This is a SOCKS Proxy, Not An HTTP Proxy</title>\n" ++
  "</head>\n" ++
  "<body>\n" ++
  "<h1>This is a SOCKs proxy, not an HTTP proxy.</h1>\n" ++
  "<p>\n" ++
  "It appears you have configured your web browser to use this Tor port as\n" ++
  "an HTTP proxy.\n" ++
  "</p><p>\n" ++
  "This is not correct: This port is configured as a SOCKS proxy, not\n" ++
  "an HTTP proxy. If you need an HTTP proxy tunnel, use the HTTPTunnelPort\n" ++
  "configuration option in place of, or in addition to, SOCKSPort.\n" ++
  "Please configure your client accordingly.\n" ++
  "</p>\n" ++
  "<p>\n" ++
  "See <a href=\"https://www.torproject.org/documentation.html\">" ++
  "https://www.torproject.org/documentation.html</a> for more " ++
  "information.\n" ++
  "</p>\n" ++
  "</body>\n" ++
  "</html>\n"

/-! ## SOCKS4 -/

variable (rawData : List UInt8) (req : SocksRequest)

/-- The result, the request, whether it is SOCKS4a, and how much to drain. The length of the hostname is that of
    everything behind the username. -/
def parseSocks4Request : SocksResult × SocksRequest × Bool × Nat :=
  let req := { req with socksVersion := SOCKS_VER_4 }
  match socks4ClientRequestParse rawData with
  | .error .bad => (.INVALID, req, false, 0)
  | .error .short => (if rawData.length ≥ MAX_SOCKS_MESSAGE_LEN then .INVALID else .TRUNCATED, req, false, 0)
  | .ok (t, rest) =>
    let drainOut := rawData.length - rest.length
    let req := { req with command := t.command, port := t.port }
    if (t.port = 0 ∧ t.command ≠ SOCKS_COMMAND_RESOLVE) ∨ t.addr = 0 then (.INVALID, req, false, drainOut)
    else
      let isSocks4a := decide (t.addr >>> 8 = 0)
      if t.username.length > MAX_SOCKS_MESSAGE_LEN then (.INVALID, req, isSocks4a, drainOut)
      else
        let req := if t.username = [] then req else { req with gotAuth := true, username := t.username }
        if isSocks4a then
          let hostnameLen := rawData.length - (SOCKS4_NETWORK_LEN + t.username.length + 1)
          if hostnameLen ≤ MAX_SOCKS_ADDR_LEN then
            (.DONE, { req with address := (t.hostname.map (strlcpy MAX_SOCKS_ADDR_LEN)).getD req.address }, isSocks4a, drainOut)
          else (.INVALID, req, isSocks4a, drainOut)
        else
          match torAddrToStr (.inet t.addr) false with
          | none => (.INVALID, req, isSocks4a, drainOut)
          | some address => (.DONE, { req with address }, isSocks4a, drainOut)

variable (set : Settings)

def processSocks4Request (req : SocksRequest) (isSocks4a : Bool) : SocksResult :=
  if isSocks4a ∧ ¬ set.addressmapHaveMapping req.address ∧ set.safeSocks then .INVALID
  else if req.command ≠ SOCKS_COMMAND_CONNECT ∧ req.command ≠ SOCKS_COMMAND_RESOLVE then .INVALID
  else if ¬ stringIsValidDest req.address then .INVALID
  else .DONE

/-! ## SOCKS5 -/

/-- The result, whether there are the methods user/pass and no-auth, and how much to drain. -/
def parseSocks5MethodsRequest : SocksResult × Bool × Bool × Nat :=
  match socks5ClientVersionParse rawData with
  | .error .bad => (.INVALID, false, false, 0)
  | .error .short => (if rawData.length > MAX_SOCKS_MESSAGE_LEN then .INVALID else .TRUNCATED, false, false, 0)
  | .ok (t, rest) =>
    let drainOut := rawData.length - rest.length
    if t.methods.length = 0 then (.INVALID, false, false, drainOut)
    else (.DONE, decide (SOCKS_USER_PASS ∈ t.methods), decide (SOCKS_NO_AUTH ∈ t.methods), drainOut)

def processSocks5MethodsRequest (haveUserPass haveNoAuth : Bool) : SocksResult × SocksRequest × List UInt8 :=
  if haveUserPass ∧ ¬ (haveNoAuth ∧ req.socksPreferNoAuth) then
    (.DONE, { req with authType := SOCKS_USER_PASS, socksVersion := SOCKS_VER_5 }, [SOCKS_VER_5, SOCKS_USER_PASS])
  else if haveNoAuth then
    (.DONE, { req with authType := SOCKS_NO_AUTH, socksVersion := SOCKS_VER_5 }, [SOCKS_VER_5, SOCKS_NO_AUTH])
  else (.INVALID, req, [SOCKS_VER_5, 0xFF])

/-- An empty username or password is allowed. -/
def parseSocks5UserpassAuth : SocksResult × SocksRequest × Nat :=
  match socks5ClientUserpassAuthParse rawData with
  | .error .bad => (.INVALID, req, 0)
  | .error .short => (.TRUNCATED, req, 0)
  | .ok (t, rest) =>
    let req := if t.username = [] then req else { req with username := t.username }
    let req := if t.passwd = [] then req else { req with password := t.passwd }
    (.DONE, { req with gotAuth := true }, rawData.length - rest.length)

def processSocks5UserpassAuth : SocksResult × Option (List UInt8) :=
  if req.socksVersion ≠ SOCKS_VER_5 then (.INVALID, none)
  else if req.authType ≠ SOCKS_USER_PASS ∧ req.authType ≠ SOCKS_NO_AUTH then (.INVALID, none)
  else (.DONE, some [SOCKS_AUTH, 0])

def destAddrText : DestAddr → Option Text
  | .ipv4 addr => torAddrToStr (.inet addr) true
  | .domainname name => some (strlcpy MAX_SOCKS_ADDR_LEN name)
  | .ipv6 addr => torAddrToStr (.inet6 addr) true

def parseSocks5ClientRequest : SocksResult × SocksRequest × Nat × Option (List UInt8) :=
  match socks5ClientRequestParse rawData with
  | .error .bad => (.INVALID, req, 0, some (socks5Error SOCKS5_GENERAL_ERROR))
  | .error .short => (.TRUNCATED, req, 0, none)
  | .ok (t, rest) =>
    let drainOut := rawData.length - rest.length
    if t.version ≠ 5 then (.INVALID, req, drainOut, some (socks5Error SOCKS5_GENERAL_ERROR))
    else
      let req := { req with command := t.command, port := t.destPort, socks5Atyp := t.atype }
      (.DONE, { req with address := (destAddrText t.destAddr).getD req.address }, drainOut, none)

/-- The result, and the error that is sent. -/
def processSocks5ClientRequest (req : SocksRequest) : SocksResult × Option (List UInt8) :=
  if req.command ≠ SOCKS_COMMAND_CONNECT ∧ req.command ≠ SOCKS_COMMAND_RESOLVE ∧ req.command ≠ SOCKS_COMMAND_RESOLVE_PTR then
    (.INVALID, some (socks5Error SOCKS5_COMMAND_NOT_SUPPORTED))
  else if req.command = SOCKS_COMMAND_RESOLVE_PTR ∧ torAddrParse req.address = none then
    (.INVALID, some (socks5Error SOCKS5_ADDRESS_TYPE_NOT_SUPPORTED))
  else if ¬ stringIsValidDest req.address then (.INVALID, some (socks5Error SOCKS5_GENERAL_ERROR))
  else if (req.socks5Atyp = 1 ∨ req.socks5Atyp = 4) ∧ req.command ≠ SOCKS_COMMAND_RESOLVE_PTR ∧
      ¬ set.addressmapHaveMapping req.address ∧ set.safeSocks then
    (.INVALID, some (socks5Error SOCKS5_NOT_ALLOWED))
  else (.DONE, none)

/-! ## A message -/

/-- What handling a message gives. -/
structure Handled where
  res : SocksResult
  req : SocksRequest
  drain : Nat
  reply : Option (List UInt8)
  deriving DecidableEq

def handleSocks4 (rawData : List UInt8) (req : SocksRequest) : Handled :=
  let (res, req, isSocks4a, drain) := parseSocks4Request rawData req
  if res ≠ .DONE then ⟨res, req, drain, none⟩ else ⟨processSocks4Request set req isSocks4a, req, drain, none⟩

def handleSocks5UserpassAuth : Handled :=
  let (res, req, drain) := parseSocks5UserpassAuth rawData req
  if res ≠ .DONE then ⟨res, req, drain, none⟩
  else
    let (res, reply) := processSocks5UserpassAuth req
    ⟨if res ≠ .DONE then res else .MORE_EXPECTED, req, drain, reply⟩

def handleSocks5Methods : Handled :=
  let (res, haveUserPass, haveNoAuth, drain) := parseSocks5MethodsRequest rawData
  if res ≠ .DONE then ⟨res, req, drain, none⟩
  else
    let (res, req, reply) := processSocks5MethodsRequest req haveUserPass haveNoAuth
    ⟨if res ≠ .DONE then res else .MORE_EXPECTED, req, drain, some reply⟩

def handleSocks5ClientRequest (rawData : List UInt8) (req : SocksRequest) : Handled :=
  let (res, req, drain, reply) := parseSocks5ClientRequest rawData req
  -- a request that is refused without a reply would be a bug
  let reply := if res = .INVALID then reply.or (some (socks5Error SOCKS5_GENERAL_ERROR)) else reply
  if res ≠ .DONE then ⟨res, req, drain, reply⟩
  else
    let (res, reply) := processSocks5ClientRequest set req
    ⟨res, req, drain, reply⟩

def handleSocksMessage (rawData : List UInt8) (req : SocksRequest) : Handled :=
  let socksVersion := if rawData.head? = some SOCKS_AUTH then some SOCKS_VER_5 else rawData.head?
  if socksVersion = some SOCKS_VER_4 then
    if rawData.length < SOCKS4_NETWORK_LEN then ⟨.TRUNCATED, req, 0, none⟩ else handleSocks4 set rawData req
  else if socksVersion = some SOCKS_VER_5 then
    if rawData.length < 2 then ⟨.TRUNCATED, req, 0, none⟩
    else if ¬ req.gotAuth ∧ (rawData.head? = some 1 ∨ req.authType = SOCKS_USER_PASS) then
      handleSocks5UserpassAuth rawData req
    else if req.socksVersion ≠ SOCKS_VER_5 then handleSocks5Methods rawData req
    else handleSocks5ClientRequest set rawData req
  else ⟨.INVALID, req, rawData.length, none⟩

/-- A browser that takes this for an HTTP proxy is told so. -/
def httpReply (first : Option UInt8) : Option (List UInt8) :=
  if (first.map fun b => Char.ofNat b.toNat).any (· ∈ ['G', 'H', 'P', 'C']) then
    some (SOCKS_PROXY_IS_NOT_AN_HTTP_PROXY_MSG.toUTF8.toList ++ [0])
  else none

def parseSocks (data : List UInt8) (req : SocksRequest) : Handled :=
  if data.length < 2 then ⟨.TRUNCATED, req, 0, none⟩
  else if data.head? = some SOCKS_VER_5 ∨ data.head? = some SOCKS_VER_4 ∨ data.head? = some SOCKS_AUTH then
    handleSocksMessage set data req
  else ⟨.INVALID, req, 0, httpReply data.head?⟩

/-! ## The buffer of a connection -/

structure Conn where
  heap : Heap
  inbuf : Buf
  req : SocksRequest

def Conn.contents (c : Conn) : List UInt8 := bytesOf c.inbuf.chunks

/-- What a call of `fetch_from_buf_socks` gives: its answer, the connection after it and the reply it wrote. -/
structure Fetched where
  res : Int
  conn : Conn
  reply : Option (List UInt8)

/-- `buf_drain` where there is something to drain. -/
def drainBuf (c : Conn) (nDrain : Nat) : Option Conn :=
  if nDrain > 0 then (bufDrain c.heap c.inbuf nDrain).map fun r => { c with inbuf := r.1, heap := r.2 } else some c

/-- The loop from turn `n` on, of at most `fuel` turns; the chunk that is pulled up may grow in place or move. None
is a failed assertion, or too few turns. -/
def fetchLoop (set : Settings) (inPlace : Nat → Bool) : Nat → Nat → Conn → Option (List UInt8) → Option Fetched
  | 0, _, _, _ => none
  | fuel + 1, n, c, reply =>
    let nPullup := min MAX_SOCKS_MESSAGE_LEN c.inbuf.datalen
    match bufPullup c.heap c.inbuf nPullup (inPlace n) with
    | none => none
    | some (inbuf, head, heap) =>
      if head.length < 2 then none
      else
        let h := parseSocks set head c.req
        let reply := h.reply.or reply
        let c := { c with inbuf, heap, req := h.req }
        -- the condition of the loop
        let again (c : Conn) := if c.inbuf.datalen ≥ 2 then fetchLoop set inPlace fuel (n + 1) c reply else some ⟨0, c, reply⟩
        match h.res with
        | .INVALID => (bufClear c.heap c.inbuf).map fun r => ⟨-1, { c with inbuf := r.1, heap := r.2 }, reply⟩
        | .DONE => (drainBuf c h.drain).map fun c => ⟨1, c, reply⟩
        | .TRUNCATED => if head.length = nPullup then some ⟨0, c, reply⟩ else again c
        | .MORE_EXPECTED => (drainBuf c h.drain).bind again

def fetchFromBufSocks (inPlace : Nat → Bool) (fuel : Nat) (c : Conn) : Option Fetched :=
  if c.inbuf.datalen < 2 then some ⟨0, c, none⟩ else fetchLoop set inPlace fuel 0 c none

end Badnet.Socks

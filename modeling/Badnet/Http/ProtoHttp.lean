/-
  Badnet.Http.ProtoHttp — taking an HTTP message out of a buffer: `fetch_from_buf_http` and
  `buf_http_find_content_length` of src/core/proto/proto_http.c.

  The head of a message ends with the first empty line. Its Content-Length says where the body ends, and without one
  the body is all that is there. What the caller does not ask for is not copied, and the copying is what takes the
  bytes out of the buffer.
-/

import Badnet.Buf.Search
import Badnet.Encoding.Decimal

namespace Badnet.Http

open Lib Buffers Encoding

/-! ## The length of the body -/

/-- CRLF CRLF. -/
def endOfHeaders : List UInt8 := [13, 10, 13, 10]

/-- CONTENT_LENGTH: CRLF, "Content-Length", a colon and a space. -/
def CONTENT_LENGTH : List UInt8 := [13, 10, 67, 111, 110, 116, 101, 110, 116, 45, 76, 101, 110, 103, 116, 104, 58, 32]

def INT_MAX : Nat := 2147483647

/-- The C string in some bytes: up to the first NUL. -/
def cString (mem : List UInt8) : Text := (mem.takeWhile (· ≠ 0)).map fun b => Char.ofNat b.toNat

/-- `tor_parse_uint64(s, 10, 0, INT_MAX, &ok, &eos)`, with what the caller makes of `eos`: nothing but white space may
    follow the number. -/
def parseLength (s : Text) : Option Nat :=
  match torParseUlongNext s 0 INT_MAX with
  | some (result, eos) => if eos.all isspace then some result else none
  | none => none

/-- The answer of `buf_http_find_content_length`: -1, 0, or 1 with `*result_out`. -/
inductive ContentLength where
  | malformed
  | missing
  | present (result : Nat)
deriving DecidableEq, Repr

def bufHttpFindContentLength (headers : List UInt8) : ContentLength :=
  match search CONTENT_LENGTH headers with
  | none => .missing
  | some p =>
    let value := headers.drop (p + CONTENT_LENGTH.length)
    if newline ∈ value then
      match parseLength (cString (value.takeWhile (· ≠ newline))) with
      | some result => .present result
      | none => .malformed
    else .malformed

/-! ## Taking the message out -/

/-- What the caller asks for: which of the pointers `headers_out` and `body_out` are not NULL, and the limits. -/
structure Request where
  headersOut : Bool
  maxHeaderlen : UInt64
  bodyOut : Bool
  maxBodylen : UInt64
  forceComplete : Bool
deriving DecidableEq, Repr

/-- What the call leaves: the buffer and the allocator, the return value, and what it wrote to `*headers_out`,
    `*body_out` and `*body_used`. -/
structure Fetched where
  buf : Buf
  heap : Heap
  value : Int
  headers : Option (List UInt8)
  body : Option (List UInt8)
  bodyUsed : Option Nat
deriving DecidableEq, Repr

/-- Nothing is taken out. -/
def Fetched.none (h : Heap) (b : Buf) (value : Int) : Fetched :=
  { buf := b, heap := h, value := value, headers := .none, body := .none, bodyUsed := .none }

/-- The `n` bytes at the `headers` pointer, if so many are in the memory of the first chunk. -/
def headMemory (b : Buf) (n : Nat) : Option (List UInt8) :=
  match b.chunks with
  | [] => none
  | c :: _ => if c.data + n ≤ c.memlen then some (c.read n) else none

/-- The part of a message that the caller wants, with a NUL behind it. -/
def copyPart (h : Heap) (b : Buf) (wanted : Bool) (n : Nat) : Option (Buf × Option (List UInt8) × Heap) :=
  if wanted then do
    let (b, part, _, h) ← bufGetBytes h b n
    some (b, some (part ++ [0]), h)
  else some (b, none, h)

/-- "all happy. copy into the appropriate places, and return 1". -/
def copyParts (h : Heap) (b : Buf) (r : Request) (headerlen bodylen : Nat) : Option Fetched := do
  let (b, headers, h) ← copyPart h b r.headersOut headerlen
  let (b, body, h) ← copyPart h b r.bodyOut bodylen
  some { buf := b, heap := h, value := 1, headers := headers, body := body,
         bodyUsed := if r.bodyOut then some bodylen else none }

/-- The cast `(int)max_headerlen`. -/
def toInt (n : UInt64) : Int := n.toUInt32.toInt32.toInt

/-- `fetch_from_buf_http`; `inPlace` is what `tor_realloc` does where `buf_pullup` grows a chunk. -/
def fetchFromBufHttp (h : Heap) (b : Buf) (r : Request) (inPlace : Bool) : Option Fetched :=
  if b.datalen = 0 then some (.none h b 0)
  else do
    let crlfOffset ← bufFindStringOffset b endOfHeaders
    if toInt r.maxHeaderlen < crlfOffset ∨ crlfOffset < 0 ∧ r.maxHeaderlen.toNat < b.datalen then
      some (.none h b (-1))
    else if crlfOffset < 0 then some (.none h b 0)
    else
      let headerlen := (crlfOffset + 4).toNat
      let (b, _, h) ← bufPullup h b headerlen inPlace
      let bodylen := (b.datalen + 2 ^ 64 - headerlen) % 2 ^ 64
      if r.maxHeaderlen.toNat ≤ headerlen then some (.none h b (-1))
      else if r.maxBodylen.toNat ≤ bodylen then some (.none h b (-1))
      else
        let headers ← headMemory b headerlen
        match bufHttpFindContentLength headers with
        | .malformed => some (.none h b (-1))
        | .present contentlen =>
          if bodylen < contentlen ∧ r.forceComplete = false then some (.none h b 0)
          else copyParts h b r headerlen (if contentlen < bodylen then contentlen else bodylen)
        | .missing => copyParts h b r headerlen bodylen

end Badnet.Http

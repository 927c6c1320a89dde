import BoltApi.CNumbers
import BoltApi.Lib.Occurrence

/-! # The response parser of the client

`ResponseParser` of `http/client.cpp`. The head ends at the first empty line;
what the parser needs of it is searched for in the head as one text, so that a
field is where its name and a colon first stand, in whatever line. -/
namespace BoltApi.Client
open Octets CNumbers Lib.Occurrence

def kClientRecvChunk : Nat := 16 * 1024
def kClientMaxRespBytes : Nat := 2 ^ 20
def kClientMaxRespHeaders : Nat := 64

variable (buf : Bytes)

/-- The lowercase `needle` in the octets `b` to `e`, in any case. -/
def findCi (b e : Nat) (needle : Bytes) : Option Nat :=
  (find needle (((buf.take e).drop b).map toLowerAscii)).map (b + ·)

def findFrom (needle : Bytes) (start : Nat) : Option Nat := (find needle (buf.drop start)).map (start + ·)

structure Field where
  name : Bytes
  value : Bytes
deriving DecidableEq

def slice (b e : Nat) : Bytes := (buf.drop b).take (e - b)

/-- The lines of the head from `line` on, at most `fuel` of them. A line without
a colon is passed over. -/
def headFields (buf : Bytes) (headerEnd : Nat) : Nat → Nat → List Field → List Field
  | 0, _, fields => fields
  | fuel + 1, line, fields =>
    if line < headerEnd ∧ fields.length < kClientMaxRespHeaders then
      let eol := match findFrom buf CRLF line with
        | some e => if headerEnd < e then headerEnd else e
        | none => headerEnd
      let fields := match findFrom buf [COLON] line with
        | some colon =>
          if colon < eol then
            fields ++ [⟨slice buf line colon,
              (slice buf (colon + 1) eol).dropWhile fun c => c = SP ∨ c = HTAB⟩]
          else fields
        | none => fields
      if headerEnd ≤ eol then fields else headFields buf headerEnd fuel (eol + 2) fields
    else fields

/-- What `parse_head` sets. -/
structure Head where
  status : Int
  contentLength : Nat
  keepAlive : Bool
  fields : List Field
deriving DecidableEq

/-- `atoll` behind the first `content-length:` of the head, 0 without one. -/
def announcedLength (headerEnd : Nat) : Int :=
  match findCi buf 0 headerEnd (ascii "content-length:") with
  | some cl => atoll (buf.drop (cl + 15))
  | none => 0

def parseHead (headerEnd : Nat) : Option Head :=
  if buf.length < 12 ∨ ¬ ascii "HTTP/1." <+: buf then none
  else
    let status := atoi (buf.drop 9)
    if status < 100 ∨ 599 < status then none
    -- codings are not supported
    else if (findCi buf 0 headerEnd (ascii "transfer-encoding:")).isSome then none
    else if announcedLength buf headerEnd < 0 then none
    else
      some {
        status
        contentLength := (announcedLength buf headerEnd).toNat
        keepAlive := match findCi buf 0 headerEnd (ascii "connection:") with
          | some cc => (findCi buf cc headerEnd (ascii "close")).isNone
          | none => true
        fields := match find CRLF buf with
          | some line => headFields buf headerEnd headerEnd (line + 2) []
          | none => [] }

/-- `head` is `header_end_` and what `parse_head` has set, once the end of the
head was found. -/
structure ResponseParser where
  buf : Bytes := []
  head : Option (Nat × Head) := none
deriving DecidableEq

inductive ParserState where
  | needMore
  | complete
  | error

def CRLFCRLF : Bytes := CRLF ++ CRLF

namespace ResponseParser

def framed (buf : Bytes) (headerEnd : Nat) (h : Head) : ParserState :=
  if h.contentLength ≤ buf.length - (headerEnd + 4) then .complete else .needMore

def consume (p : ResponseParser) (data : Bytes) : ResponseParser × ParserState :=
  if kClientMaxRespBytes < p.buf.length + data.length then (p, .error)
  else
    let buf := p.buf ++ data
    match p.head with
    | some (headerEnd, h) => ({ p with buf }, framed buf headerEnd h)
    | none =>
      match find CRLFCRLF buf with
      | none => ({ p with buf }, .needMore)
      | some pos =>
        match parseHead buf pos with
        | none => ({ p with buf }, .error)
        | some h => ({ buf, head := some (pos, h) }, framed buf pos h)

def body (p : ResponseParser) : Bytes :=
  match p.head with
  | none => []
  | some (headerEnd, h) => slice p.buf (headerEnd + 4) (headerEnd + 4 + h.contentLength)

end ResponseParser

end BoltApi.Client

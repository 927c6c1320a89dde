import BoltApi.Octets
import BoltApi.Lib.Numerals

/-! # Responses on the wire

`CoroResponseHeaders` of `http/response_headers.h`, `CoroHttpResponse` of
`server/coro_unified_server.h` and, of `server/coro_unified_server.cpp`, the
part of `handle_http1_connection` that turns a handler's response into bytes,
with its helpers. Modelled are the bytes composed for the socket: a write that
fails cuts them short and closes the connection. -/
namespace BoltApi.Http1.Response
open Octets Lib.Numerals

/-! ## Headers -/

structure Entry where
  name : Bytes
  value : Bytes
  deriving DecidableEq

def MAX_RESPONSE_HEADERS : Nat := 16

structure CoroResponseHeaders where
  entries : List Entry
  bounded : entries.length ≤ MAX_RESPONSE_HEADERS

namespace CoroResponseHeaders

def ofList (es : List Entry) (h : es.length ≤ MAX_RESPONSE_HEADERS := by decide) :
    CoroResponseHeaders := ⟨es, h⟩

theorem none_bounded : ([] : List Entry).length ≤ MAX_RESPONSE_HEADERS := by decide

/-- The first entry of that name, in any case. -/
def find (h : CoroResponseHeaders) (name : Bytes) : Option Entry :=
  h.entries.find? fun e => strEqCi e.name name

def append (h : CoroResponseHeaders) (name value : Bytes) : CoroResponseHeaders :=
  if room : h.entries.length < MAX_RESPONSE_HEADERS then
    ⟨h.entries ++ [⟨name, value⟩], by rw [List.length_append]; exact room⟩
  else h

def assign (name value : Bytes) : List Entry → List Entry
  | [] => []
  | e :: es =>
    if strEqCi e.name name then { e with value } :: es else e :: assign name value es

theorem assign_length (name value : Bytes) : ∀ es, (assign name value es).length = es.length
  | [] => rfl
  | e :: es => by
    simp only [assign]
    split
    · rfl
    · rw [List.length_cons, List.length_cons, assign_length name value es]

def set (h : CoroResponseHeaders) (name value : Bytes) : CoroResponseHeaders :=
  if (h.find name).isSome then
    ⟨assign name value h.entries, by rw [assign_length]; exact h.bounded⟩
  else h.append name value

def remove (h : CoroResponseHeaders) (name : Bytes) : CoroResponseHeaders :=
  ⟨h.entries.eraseP fun e => strEqCi e.name name, Nat.le_trans List.length_eraseP_le h.bounded⟩

def removeLoop (name : Bytes) : Nat → CoroResponseHeaders → CoroResponseHeaders
  | 0, h => h
  | n + 1, h => if (h.find name).isNone then h else removeLoop name n (h.remove name)

def removeAllHeaders (h : CoroResponseHeaders) (name : Bytes) : CoroResponseHeaders :=
  removeLoop name MAX_RESPONSE_HEADERS h

end CoroResponseHeaders

/-! ## Responses -/

def kNoFixedLength : Int := -1

/-- `CoroHttpResponse`. A stream producer gets no answer from its sink, so it is
the list of the writes it makes; `borrowed_data` and `borrowed_size` are the
borrowed bytes, if any. -/
structure CoroHttpResponse where
  status : UInt16 := 200
  statusMessage : Bytes := ascii "OK"
  headers : CoroResponseHeaders := .ofList []
  body : Bytes := []
  streamProducer : Option (List Bytes) := none
  borrowed : Option Bytes := none
  bodySeparateWrite : Bool := false
  fixedStreamLength : Int := kNoFixedLength

namespace CoroHttpResponse

def bodyBytes (r : CoroHttpResponse) : Bytes := r.borrowed.getD r.body

def isFixedStream (r : CoroHttpResponse) : Bool :=
  0 ≤ r.fixedStreamLength && r.streamProducer.isSome

/-- The declared length of a fixed stream. -/
def declared (r : CoroHttpResponse) : Nat := r.fixedStreamLength.toNat

def writes (r : CoroHttpResponse) : List Bytes := r.streamProducer.getD []

end CoroHttpResponse

/-! ## Content policy -/

structure ResponseContentPolicy where
  suppressed : Bool := false
  implicitLength : Bool := true
  fixedLength : Bool := false
  representationLength : Nat := 0

def suppressed (head : Bool) (r : CoroHttpResponse) : Bool :=
  head || r.status == 204 || r.status == 304

variable (r : CoroHttpResponse)

def prepareResponseContent (head : Bool) : ResponseContentPolicy × CoroHttpResponse :=
  if suppressed head r then
    ({ suppressed := true
       implicitLength := r.status != 204 && (r.isFixedStream || r.streamProducer.isNone)
       fixedLength := r.isFixedStream
       representationLength := if r.isFixedStream then r.declared else r.bodyBytes.length },
     { r with
       streamProducer := none, fixedStreamLength := kNoFixedLength, body := []
       borrowed := none, bodySeparateWrite := false })
  else ({}, r)

/-! ## Heads

`append_uint`, and `%zu` and `%zx` of `snprintf`, are `printed`. -/

def statusLine : Bytes :=
  ascii "HTTP/1.1 " ++ printed 10 r.status.toNat ++ [SP] ++ r.statusMessage

def fieldLine (e : Entry) : Bytes := e.name ++ ascii ": " ++ e.value

def lengthLine (n : Nat) : Bytes := ascii "Content-Length: " ++ printed 10 n

def isTransferEncoding (e : Entry) : Bool := ieq e.name (ascii "transfer-encoding")

def isContentLength (e : Entry) : Bool := ieq e.name (ascii "content-length")

def connectionLines (keepAlive : Bool) : List Bytes :=
  if keepAlive then [] else [ascii "Connection: close"]

structure Emission where
  lines : List Bytes
  body : Bytes
  keepAlive : Bool

def Emission.bytes (e : Emission) : Bytes :=
  e.lines.flatMap (· ++ CRLF) ++ CRLF ++ e.body

/-- What the connection coroutine knows besides the response. -/
structure Exchange where
  method : Bytes
  keepAlive : Bool
  tls : Bool
  admitted : Bool
  maxFixedMaterializationBytes : Nat
  delivered : Bool

/-! ## Streams -/

def chunkFrame (s : Bytes) : Bytes := printed 16 s.length ++ CRLF ++ s ++ CRLF

def lastChunk : Bytes := ascii "0" ++ CRLF ++ CRLF

def codingLines (es : List Entry) : List Bytes :=
  if es.any isTransferEncoding then [] else [ascii "Transfer-Encoding: chunked"]

def streamChunkedH1 (x : Exchange) (r : CoroHttpResponse) : Emission where
  lines :=
    statusLine r ::
      ((r.headers.entries.filter fun e => !isContentLength e).map fieldLine ++
        codingLines r.headers.entries ++ connectionLines x.keepAlive)
  body := (r.writes.filter (· ≠ [])).flatMap chunkFrame ++ lastChunk
  keepAlive := x.keepAlive && x.delivered

structure FixedSink where
  written : Bytes := []
  overrun : Bool := false

def fixedWrite (declared : Nat) (k : FixedSink) (s : Bytes) : FixedSink :=
  if s.isEmpty || k.overrun then k
  else if declared - k.written.length < s.length then { k with overrun := true }
  else { k with written := k.written ++ s }

def fixedWrites (declared : Nat) (writes : List Bytes) : FixedSink :=
  writes.foldl (fixedWrite declared) {}

/-- The producer wrote what was declared. -/
def FixedSink.complete (declared : Nat) (k : FixedSink) : Bool :=
  !k.overrun && k.written.length == declared

/-- `stream_fixed_h1` behind `build_fixed_head`; the offloaded variant composes
the same bytes once a slot and a worker have admitted it. -/
def streamFixedH1 (x : Exchange) (r : CoroHttpResponse) : Emission where
  lines :=
    statusLine r ::
      ((r.headers.entries.filter fun e => !isContentLength e && !isTransferEncoding e).map
          fieldLine ++
        [lengthLine r.declared] ++ connectionLines x.keepAlive)
  body := (fixedWrites r.declared r.writes).written
  keepAlive :=
    x.keepAlive && x.delivered && (fixedWrites r.declared r.writes).complete r.declared

def refuseFixedStream : CoroHttpResponse :=
  { r with
    status := 503
    statusMessage := ascii "Service Unavailable"
    streamProducer := none
    fixedStreamLength := kNoFixedLength
    headers :=
      (((r.headers.remove (ascii "Content-Length")).remove (ascii "Content-Range")).remove
        (ascii "Content-Encoding")).set (ascii "Content-Type") (ascii "text/plain")
    borrowed := none
    bodySeparateWrite := false
    body := ascii "fixed response stream capacity exhausted" }

/-- `none` is the source's `false`. -/
def materializeFixed (capacity : Nat) : Option CoroHttpResponse :=
  if capacity < r.declared then none
  else
    let acc := fixedWrites r.declared r.writes
    if acc.complete r.declared then
      some { r with
        streamProducer := none
        body := acc.written
        borrowed := none
        fixedStreamLength := kNoFixedLength
        headers :=
          ((r.headers.removeAllHeaders (ascii "Transfer-Encoding")).removeAllHeaders
            (ascii "Content-Length")).set (ascii "Content-Length")
              (printed 10 acc.written.length) }
    else none

def refuseFixedMaterialization : CoroHttpResponse :=
  { status := 500
    statusMessage := ascii "Internal Server Error"
    headers := CoroResponseHeaders.set (.ofList []) (ascii "Content-Length") (ascii "0") }

/-- `materialize_stream` with the transfer coding kept. -/
def materializeStream : CoroHttpResponse :=
  match r.streamProducer with
  | none => r
  | some ws => { r with body := ws.flatten, streamProducer := none }

/-! ## The buffered path -/

def containsCi (hay needle : Bytes) : Bool :=
  if needle.isEmpty || hay.length < needle.length then false
  else (List.range (hay.length - needle.length + 1)).any fun i =>
    ieq ((hay.drop i).take needle.length) needle

variable (policy : ResponseContentPolicy)

/-- `use_chunked`, for a response that was not streamed. -/
def useChunked (r : CoroHttpResponse) : Bool :=
  !policy.suppressed &&
    match r.headers.find (ascii "Transfer-Encoding") with
    | some e => containsCi e.value (ascii "chunked")
    | none => false

def implicitLines (r : CoroHttpResponse) : List Bytes :=
  if !useChunked policy r && policy.implicitLength &&
      (policy.fixedLength || (r.headers.find (ascii "Content-Length")).isNone) then
    [lengthLine (if policy.suppressed then policy.representationLength else r.bodyBytes.length)]
  else []

def emitted (r : CoroHttpResponse) (e : Entry) : Bool :=
  !(policy.suppressed &&
      (isTransferEncoding e ||
        (isContentLength e && (r.status == 204 || policy.fixedLength)))) &&
    !(ieq e.name (ascii "content-encoding") && e.value == ascii "zstd")

/-- The three ways to write the body. The last one appends `response.body`, not
`body_bytes()`. -/
def bufferedBody (r : CoroHttpResponse) : Bytes :=
  if useChunked policy r then
    (if r.bodyBytes.isEmpty then [] else chunkFrame r.bodyBytes) ++ lastChunk
  else if r.bodySeparateWrite then r.bodyBytes
  else r.body

def sendBuffered (x : Exchange) (policy : ResponseContentPolicy) (r : CoroHttpResponse) :
    Emission where
  lines :=
    statusLine r ::
      (implicitLines policy r ++ (r.headers.entries.filter (emitted policy r)).map fieldLine ++
        connectionLines x.keepAlive)
  body := bufferedBody policy r
  keepAlive := x.keepAlive && x.delivered

/-- The response part of `handle_http1_connection`. -/
def emit (x : Exchange) (r : CoroHttpResponse) : Emission :=
  let (policy, r) := prepareResponseContent r (x.method == ascii "HEAD")
  if r.isFixedStream then
    if !x.tls then
      if x.admitted then streamFixedH1 x r
      else sendBuffered x policy (refuseFixedStream r)
    else
      sendBuffered x policy
        ((materializeFixed r x.maxFixedMaterializationBytes).getD refuseFixedMaterialization)
  else if r.streamProducer.isSome then
    if !x.tls then streamChunkedH1 x r
    else sendBuffered x policy (materializeStream r)
  else sendBuffered x policy r

end BoltApi.Http1.Response

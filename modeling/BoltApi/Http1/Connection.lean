import BoltApi.Http1.Parser

/-! # The HTTP/1 connection loop

The read, parse and dispatch loop of `handle_http1_connection` in
`src/server/coro_unified_server.cpp`, on a cleartext connection on which no
timeout fires and every write succeeds. The loop is cut at its three program
points: the top of the request loop, the read loop, and the code behind a
parse that has decided. The socket is the list of segments the peer's bytes
arrive in; a read takes from the first one as much as the buffer has room for. -/
namespace BoltApi.Http1.Connection
open Octets Lib.Scanning Chunked Http1.Parser

/-- The fields of `CoroUnifiedServerConfig` the loop reads. -/
structure Config where
  maxHeaderSize : Nat := 8192
  maxBodySize : Nat := 10 * 1024 * 1024
  enableH2c : Bool := true

def STACK_BUF_SIZE : Nat := 8192

/-! ## Buffers -/

/-- The capacity of the smallest slot that fits, of those that are `free` at the time, or a
heap buffer of just the needed size. -/
def acquire (free : List Nat) (needed : Nat) : Nat :=
  ((free.filter (needed ≤ ·)).min?).getD needed

variable (cfg : Config)

def chunkedBufferLimit : Nat :=
  cfg.maxHeaderSize + cfg.maxBodySize + cfg.maxBodySize / 8 + 64 * 1024

def growChunkedBuffer (free : List Nat) (cap limit : Nat) : Option Nat :=
  if limit ≤ cap then none
  else some (acquire free (min (max (cap * 4) (64 * 1024)) limit))

/-! ## The loop's variables -/

/-- The variables of the loop. `buf` holds the first `buf_len` bytes of the
buffer, `arena` is `body_buf.is_arena_backed()`, `req` is `parsed_req`. -/
structure Conn where
  buf : Bytes := []
  cap : Nat := STACK_BUF_SIZE
  arena : Bool := false
  bodyDetected : Bool := false
  chunkedBody : Bool := false
  continueSent : Bool := false
  isFirstRequest : Bool := true
  req : HTTP1Request := {}

/-- How the connection ends. `done` is a request without keep-alive, a failed
write or a hand-over to another protocol's loop. -/
inductive Close
  | badRequest
  | notHttp
  | headerFieldsTooLarge
  | payloadTooLarge
  | http2
  | peer
  | done
  deriving DecidableEq

inductive Phase
  | top
  | reading
  | parsed (r : ParseResult)
  | closed (why : Close)
  deriving DecidableEq

/-- What the handler is given, the socket apart. -/
structure CoroHttpRequest where
  method : Bytes
  path : Bytes
  query : Bytes
  headers : List Header
  body : Bytes
  deriving DecidableEq

def CoroHttpRequest.MAX_HEADERS : Nat := 64

def CoroHttpRequest.findHeader (req : CoroHttpRequest) (name : Bytes) : Option Bytes :=
  (req.headers.find? fun h => strEqCi h.name name).map Header.value

structure State where
  conn : Conn := {}
  phase : Phase := .top
  net : List Bytes
  handed : List CoroHttpRequest := []

/-! ## The top of the request loop -/

variable (c : Conn)

def beginRequest : Conn × Phase :=
  if c.buf = [] then ({ c with req := {} }, .reading)
  else
    let r := parse {} c.buf
    if r.rc = .more then ({ c with req := r.req }, .reading) else (c, .parsed r)

/-! ## The read loop -/

inductive BeforeRead
  | grown (c : Conn)
  | refuse (why : Close)
  | read

/-- The checks in front of a read: a full buffer grows or is refused, and so is
a header section over the limit. -/
def beforeRead (free : List Nat) (c : Conn) : BeforeRead :=
  if c.cap ≤ c.buf.length then
    let refusal := BeforeRead.refuse
      (if c.bodyDetected then .payloadTooLarge else .headerFieldsTooLarge)
    if c.chunkedBody then
      match growChunkedBuffer free c.cap (chunkedBufferLimit cfg) with
      | some cap => .grown { c with cap, arena := true }
      | none => refusal
    else refusal
  else if c.bodyDetected = false ∧ cfg.maxHeaderSize < c.buf.length then
    .refuse .headerFieldsTooLarge
  else .read

/-- A read of at most `room` bytes; `none` waits for the peer. -/
def recv (room : Nat) : List Bytes → Option (Bytes × List Bytes)
  | [] => none
  | seg :: segs =>
    some (seg.take room, if seg.length ≤ room then segs else seg.drop room :: segs)

def CONNECTION_PREFACE : Bytes := ascii "PRI * HTTP/2.0\r\n\r\nSM\r\n\r\n"

def looksLikeH2c (c : Conn) : Bool :=
  c.isFirstRequest && cfg.enableH2c && decide (c.buf.length ≤ STACK_BUF_SIZE) &&
    (c.buf.take CONNECTION_PREFACE.length == CONNECTION_PREFACE.take c.buf.length)

/-- An `Expect: 100-continue` is answered once the head is in. -/
def sendContinue : Conn :=
  if c.bodyDetected ∧ c.continueSent = false ∧ c.req.version = .HTTP_1_1 ∧
      strEqCi (c.req.getHeader (ascii "expect")) (ascii "100-continue") then
    { c with continueSent := true }
  else c

def detectChunked : Conn :=
  if c.bodyDetected = false ∧ c.req.chunked then
    { c with bodyDetected := true, chunkedBody := true }
  else c

def detectBody (free : List Nat) (c : Conn) : Conn × Phase :=
  if c.bodyDetected = false ∧ c.req.hasContentLength then
    if cfg.maxBodySize < c.req.contentLength then
      ({ c with bodyDetected := true }, .closed .payloadTooLarge)
    else
      let needed := cfg.maxHeaderSize + c.req.contentLength
      let c := { c with bodyDetected := true }
      let c := if STACK_BUF_SIZE < needed then
        { c with cap := acquire free needed, arena := true } else c
      (sendContinue (detectChunked c), .reading)
  else (sendContinue (detectChunked c), .reading)

def afterRead (free : List Nat) (c : Conn) (data : Bytes) : Conn × Phase :=
  let c := { c with buf := c.buf ++ data }
  if looksLikeH2c cfg c then
    if c.buf.length < CONNECTION_PREFACE.length then (c, .reading) else (c, .closed .http2)
  else
    let r := parse c.req c.buf
    if r.rc = .more then detectBody cfg free { c with req := r.req } else (c, .parsed r)

/-! ## A decided parse -/

def headerBytes (r : ParseResult) : Nat :=
  if r.req.body.length < r.consumed then r.consumed - r.req.body.length else r.consumed

def decodeInBuffer (buf : Bytes) (r : ParseResult) : Bytes × Bytes :=
  if r.req.chunked then
    let off := r.consumed - r.req.body.length
    let d := dechunkInPlace (buf.drop off) r.req.body.length
    (buf.take off ++ d.1, d.1.take d.2)
  else (buf, r.req.body)

def leadingDecimal (v : Bytes) : Nat := decimal (v.takeWhile isDigit)

def endRequest (consumed : Nat) : Conn :=
  let rest := if consumed < c.buf.length then c.buf.drop consumed else []
  let c := { c with bodyDetected := false, chunkedBody := false, continueSent := false }
  if c.arena then
    { c with buf := if STACK_BUF_SIZE < rest.length then [] else rest
             cap := STACK_BUF_SIZE
             arena := false }
  else { c with buf := rest }

/-- The code behind the read loop. `serve n req` says whether the connection
goes on after the `n`-th request, as far as the handler is concerned. -/
def dispatch (serve : Nat → CoroHttpRequest → Bool) (s : State) (r : ParseResult) : State :=
  match r.rc with
  | .more => { s with phase := .closed .done }
  | .bad => { s with phase := .closed (if r.notHttp then .notHttp else .badRequest) }
  | .ok =>
    let c := { s.conn with isFirstRequest := false }
    if cfg.maxHeaderSize ≠ 0 ∧ cfg.maxHeaderSize < headerBytes r then
      { s with conn := c, phase := .closed .headerFieldsTooLarge }
    else
      let d := decodeInBuffer c.buf r
      let c := { c with buf := d.1 }
      let req : CoroHttpRequest :=
        { method := r.req.methodStr, path := r.req.path, query := r.req.query
          headers := r.req.headers.take CoroHttpRequest.MAX_HEADERS, body := d.2 }
      if (req.findHeader (ascii "Content-Length")).any (cfg.maxBodySize < leadingDecimal ·) then
        { s with conn := c, phase := .closed .payloadTooLarge }
      else if cfg.maxBodySize < req.body.length then
        { s with conn := c, phase := .closed .payloadTooLarge }
      else
        { s with
          conn := endRequest c r.consumed
          phase := if r.req.keepAlive ∧ serve s.handed.length req then .top else .closed .done
          handed := s.handed ++ [req] }

/-! ## The loop -/

/-- One turn of the loop, with the arena slots that are free then. `none` when
the connection is closed or waits for the peer. -/
def step (serve : Nat → CoroHttpRequest → Bool) (free : List Nat) (s : State) : Option State :=
  match s.phase with
  | .closed _ => none
  | .top =>
    let b := beginRequest s.conn
    some { s with conn := b.1, phase := b.2 }
  | .parsed r => some (dispatch cfg serve s r)
  | .reading =>
    match beforeRead cfg free s.conn with
    | .grown c => some { s with conn := c }
    | .refuse why => some { s with phase := .closed why }
    | .read =>
      match recv (s.conn.cap - s.conn.buf.length) s.net with
      | none => none
      | some (data, net) =>
        if data = [] then some { s with phase := .closed .peer, net }
        else
          let a := afterRead cfg free s.conn data
          some { s with conn := a.1, phase := a.2, net }

/-- The connection after `n` turns. `env` is what the rest of the process leaves
free in the arena. -/
def run (cfg : Config) (serve : Nat → CoroHttpRequest → Bool) (env : Nat → List Nat)
    (reads : List Bytes) : Nat → State
  | 0 => { net := reads }
  | n + 1 =>
    let s := run cfg serve env reads n
    (step cfg serve (env n) s).getD s

end BoltApi.Http1.Connection

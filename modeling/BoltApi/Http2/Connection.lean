import BoltApi.Lib.Keyed
import BoltApi.Hpack.Codec
import BoltApi.Http2.Wire
import BoltApi.Http2.Fields
import BoltApi.Http1.Response

/-! # The HTTP/2 connection: state and send path

`Http2Connection` and `Http2Stream`, of `http/http2_connection.cpp` and
`http/http2_stream.cpp`. The streams stand in the order of `open_ids_`: the ids
there and the streams the manager (server) or the pool (client) holds are always
the same. The response callback of a client is a log entry, since the connection
refuses every call made from inside of it.

A `result` that is an error always comes from `connection_error`, which leaves
the connection `CLOSED`; the functions here return the connection only. -/
namespace BoltApi.Http2.Connection
open Octets Hpack.Tables Wire Fields
open Hpack.Codec (DecodeStatus)

/-! ## Constants -/

def kLocalMaxFrameSize : Nat := 16384
def kMaxConcurrentStreams : Nat := 100
def kMaxHeaderBlock : Nat := 64 * 1024
def kMaxRequestHeaders : Nat := 128
def kMaxResponseHeaderBlock : Nat := 64 * 1024
def kDefaultMaxRequestBody : Nat := 16 * 1024 * 1024
def kLocalWindow : Int := 65535
def kMaxControlBacklog : Nat := 2 ^ 20
def kClosedRing : Nat := 256
def kMaxWindow : Int := 0x7FFFFFFF
def kMaxPasses : Nat := 2 ^ 20

/-! ## Streams -/

inductive StreamState
  | idle
  | open
  | halfClosedLocal
  | halfClosedRemote
  | closed
  deriving DecidableEq

namespace StreamState

def headersSent (endStream : Bool) : StreamState → StreamState
  | .idle => if endStream then .halfClosedLocal else .open
  | .open => if endStream then .halfClosedLocal else .open
  | .halfClosedRemote => if endStream then .closed else .halfClosedRemote
  | s => s

def headersReceived (endStream : Bool) : StreamState → StreamState
  | .idle => if endStream then .halfClosedRemote else .open
  | .open => if endStream then .halfClosedRemote else .open
  | .halfClosedLocal => if endStream then .closed else .halfClosedLocal
  | s => s

def dataSent : StreamState → StreamState
  | .open => .halfClosedLocal
  | .halfClosedRemote => .closed
  | s => s

def dataReceived (endStream : Bool) : StreamState → StreamState
  | .open => if endStream then .halfClosedRemote else .open
  | .halfClosedLocal => if endStream then .closed else .halfClosedLocal
  | s => s

def canSend : StreamState → Bool
  | .open => true
  | .halfClosedRemote => true
  | _ => false

def canReceive : StreamState → Bool
  | .open => true
  | .halfClosedLocal => true
  | _ => false

end StreamState

/-- `Http2Stream` with its `Io`. `sendBuf` is the server's `send_buf` and the
client's borrowed body. -/
structure Http2Stream where
  id : Nat
  state : StreamState := .idle
  sendWindow : Int
  recvWindow : Int := kLocalWindow
  sendBuf : Bytes := []
  sendOff : Nat := 0
  sendPending : Bool := false
  isHead : Bool := false
  contentLength : Option Nat := none
  bodyReceived : Nat := 0
  requestComplete : Bool := false
  requestHeaders : List (Bytes × Bytes) := []
  requestBody : Bytes := []
  responseStatus : Nat := 200
  deriving DecidableEq

/-- A DATA frame of `n` octets leaves the stream; the last one ends it. -/
def Http2Stream.pumped (s : Http2Stream) (n : Nat) (isServer : Bool) : Http2Stream :=
  let s := { s with sendOff := s.sendOff + n, sendWindow := s.sendWindow - n }
  if s.sendOff = s.sendBuf.length then
    { s with sendPending := false, sendBuf := if isServer then [] else s.sendBuf
             state := s.state.dataSent }
  else s

/-! ## Connections -/

inductive ConnectionState
  | prefacePending
  | active
  | goawaySent
  | goawayReceived
  | closed
  deriving DecidableEq

structure ConnectionSettings where
  headerTableSize : Nat := 4096
  enablePush : Bool := true
  maxConcurrentStreams : Nat := 2 ^ 32 - 1
  initialWindowSize : Nat := 65535
  maxFrameSize : Nat := 16384
  maxHeaderListSize : Nat := 2 ^ 32 - 1

structure HeaderBlockState where
  streamId : Nat := 0
  endStream : Bool := false
  selfDependent : Bool := false

inductive ResponseEventKind
  | headers
  | data
  | trailers
  | complete
  | reset
  deriving DecidableEq

structure ResponseEvent where
  kind : ResponseEventKind
  streamId : Nat
  status : Nat
  error : ErrorCode := NO_ERROR
  headers : List HPACKHeader := []
  data : Bytes := []
  endStream : Bool := false
  deriving DecidableEq

/-- What can be seen of a connection from outside, in order. -/
inductive Event
  | received (f : Frame)
  | queued (f : Frame)
  | opened (id : Nat) (fields : List HPACKHeader)
  | sending (id : Nat) (body : Bytes)
  | request (s : Http2Stream)
  | response (e : ResponseEvent)
  deriving DecidableEq

/-- `Http2Connection`. `world` is the state of what the connection uses but
does not own. `output` is the part of `output_buffer_` behind `output_offset_`,
`inputBuffer` the first `input_buffer_len_` octets of `input_buffer_`,
`closedIds` the closed ids, latest first. -/
structure Http2Connection (X : Type) where
  isServer : Bool
  state : ConnectionState
  firstFrameSeen : Bool := false
  lastError : ErrorCode := NO_ERROR
  remote : ConnectionSettings := {}
  settingsAckPending : Bool := false
  connectionSendWindow : Int := 65535
  connectionRecvWindow : Int := kLocalWindow
  streams : List Http2Stream := []
  lastStreamId : Nat := 0
  acceptedPeerStreamId : Nat := 0
  goawayLastStreamId : Nat := 0x7FFFFFFF
  sentGoawayLastStreamId : Nat := 0x7FFFFFFF
  closedIds : List Nat := []
  maxRequestBody : Nat := kDefaultMaxRequestBody
  headerBlock : Bytes := []
  block : HeaderBlockState := {}
  inputBuffer : Bytes := []
  prefaceBytesValidated : Nat := 0
  output : Bytes := []
  trace : List Event := []
  world : X

/-- Calls into the connection, other than bytes of the peer and requests. -/
inductive Call
  | sendResponse (id status : Nat) (headers : List Http1.Response.Entry) (body : Bytes)
  | sendRstStream (id : Nat) (error : ErrorCode)
  | sendGoaway (error : ErrorCode) (debugData : Bytes)
  | commitOutput (len : Nat)
  | setMaxRequestBody (bytes : Nat)

/-- What a connection uses: the HPACK codec, the stream index, which may refuse
an insertion, and the application's request callback, which sees the connection
and the stream and makes some calls. -/
structure World (X : Type) where
  encode : X → List HPACKHeader → Nat → Option Bytes × X
  decode : X → Bytes → Nat → DecodeStatus × List HPACKHeader × X
  setMaxTableSize : X → Nat → X
  indexInsert : X → Nat → Bool × X
  indexErase : X → Nat → X
  onRequest : Http2Connection X → Http2Stream → List Call × X

namespace Http2Connection
variable {X : Type} (w : World X) (c : Http2Connection X) (s : Http2Stream) (id : Nat)

def getStream : Option Http2Stream :=
  Lib.Keyed.find (·.id) c.streams id

def putStream : Http2Connection X :=
  { c with streams := Lib.Keyed.put (·.id) s c.streams }

def log (e : Event) : Http2Connection X :=
  { c with trace := c.trace ++ [e] }

def outputBacklog : Nat := c.output.length

def queueFrame (f : Frame) : Http2Connection X :=
  { c with output := c.output ++ f.encode, trace := c.trace ++ [.queued f] }

/-! ## Closing -/

def noteClosed : Http2Connection X :=
  { c with closedIds := id :: c.closedIds }

def closeStream : Http2Connection X :=
  { c with
    streams := Lib.Keyed.swapRemove (·.id) id c.streams
    world := if c.isServer then w.indexErase c.world id else c.world }.noteClosed id

def maybeClose : Http2Connection X :=
  if s.state = .closed ∧ !s.sendPending then c.closeStream w s.id else c

def recentlyClosed : Bool :=
  (c.closedIds.take kClosedRing).contains id

def notifyResponse (e : ResponseEvent) : Http2Connection X :=
  c.log (.response e)

variable (error : ErrorCode)

def notifyReset : Http2Connection X :=
  c.notifyResponse
    { kind := .reset, streamId := s.id, status := s.responseStatus, error := error }

def resetLoop (w : World X) (error : ErrorCode) : Nat → Http2Connection X → Http2Connection X
  | 0, c => c
  | n + 1, c =>
    match c.streams.getLast? with
    | none => c
    | some s => resetLoop w error n ((c.notifyReset s error).closeStream w s.id)

def resetClientStreams : Http2Connection X :=
  if c.isServer then c else resetLoop w error kMaxConcurrentStreams c

/-! ## Errors -/

def nextGoawayCutoff : Nat :=
  min c.sentGoawayLastStreamId (if c.isServer then c.acceptedPeerStreamId else 0)

/-- The GOAWAY of `connection_error` and `send_goaway`. -/
def queueGoaway (debugData : Bytes) : Http2Connection X :=
  { c with sentGoawayLastStreamId := c.nextGoawayCutoff }.queueFrame
    { type := .goaway, flags := 0, streamId := 0
      payload := putU32 c.nextGoawayCutoff ++ putU32 error ++ debugData }

def connectionError (code : ErrorCode) : Http2Connection X :=
  if c.state = .closed then c
  else
    { c.queueGoaway code [] with lastError := code, state := .closed }.resetClientStreams w code

def rstFrame (code : ErrorCode) : Frame :=
  { type := .rstStream, flags := 0, streamId := id, payload := putU32 code }

def streamError (code : ErrorCode) : Http2Connection X :=
  if kMaxControlBacklog < c.outputBacklog then c.connectionError w ENHANCE_YOUR_CALM
  else
    let c := c.queueFrame (rstFrame id code)
    match c.getStream id with
    | some s => (if c.isServer then c else c.notifyReset s code).closeStream w id
    | none => if c.recentlyClosed id then c else c.noteClosed id

/-! ## Sending -/

def headerFrames (id max : Nat) (endStream : Bool) :
    Nat → Bool → Bytes → List Frame
  | 0, _, _ => []
  | guard + 1, first, block =>
    let n := min max block.length
    let last := n == block.length
    let flags := (if last then END_HEADERS else 0) ||| (if first && endStream then END_STREAM else 0)
    let f : Frame :=
      { type := if first then .headers else .continuation, flags := flags, streamId := id
        payload := block.take n }
    f :: if last then [] else headerFrames id max endStream guard false (block.drop n)

def queueHeaderBlock (block : Bytes) (endStream : Bool) : Http2Connection X :=
  (headerFrames id c.remote.maxFrameSize endStream (block.length + 1) true block).foldl
    queueFrame c

def pumpLength : Nat :=
  min (s.sendBuf.length - s.sendOff)
    (min (if c.isServer then c.remote.maxFrameSize else kLocalMaxFrameSize)
      (min c.connectionSendWindow s.sendWindow).toNat)

def pumpable : Bool :=
  s.sendPending && 0 < min c.connectionSendWindow s.sendWindow &&
    (c.isServer || c.outputBacklog + 9 + c.pumpLength s ≤ kMaxControlBacklog)

def dataFrame (n : Nat) : Frame :=
  { type := .data, flags := if s.sendOff + n = s.sendBuf.length then END_STREAM else 0
    streamId := s.id, payload := (s.sendBuf.drop s.sendOff).take n }

def pumpStream : Option (Http2Connection X) :=
  if c.pumpable s then
    let n := c.pumpLength s
    let c := c.queueFrame (dataFrame s n)
    let s := s.pumped n c.isServer
    let c := { c with connectionSendWindow := c.connectionSendWindow - n }.putStream s
    some (if s.sendPending then c else c.maybeClose w s)
  else none

/-- One pass of `pump_data` over the ids that were open at its start. -/
def pumpPass (w : World X) : List Nat → Bool → Http2Connection X → Bool × Http2Connection X
  | [], progress, c => (progress, c)
  | id :: ids, progress, c =>
    match (c.getStream id).bind (c.pumpStream w) with
    | some c' => pumpPass w ids true c'
    | none => pumpPass w ids progress c

def pumpPasses (w : World X) : Nat → Http2Connection X → Http2Connection X
  | 0, c => c
  | n + 1, c =>
    if c.connectionSendWindow ≤ 0 then c
    else
      match pumpPass w (c.streams.map (·.id)) false c with
      | (true, c') => pumpPasses w n c'
      | (false, c') => c'

def pumpData : Http2Connection X :=
  pumpPasses w kMaxPasses c

/-! ## Construction -/

def settingsParam (id value : Nat) : Bytes :=
  [UInt8.ofNat (id / 2 ^ 8), UInt8.ofNat id] ++ putU32 value

def sendSettings : Http2Connection X :=
  { c.queueFrame
      { type := .settings, flags := 0, streamId := 0
        payload :=
          settingsParam 0x1 DEFAULT_MAX_SIZE ++ settingsParam 0x3 kMaxConcurrentStreams ++
            settingsParam 0x4 kLocalWindow.toNat ++ settingsParam 0x5 kLocalMaxFrameSize ++
            settingsParam 0x6 kMaxHeaderListSize ++
            if c.isServer then [] else settingsParam 0x2 0 } with
    settingsAckPending := true }

def create (isServer : Bool) (x : X) : Http2Connection X :=
  sendSettings
    { isServer := isServer
      state := if isServer then .prefacePending else .active
      output := if isServer then [] else CONNECTION_PREFACE
      world := x }

/-! ## Calls -/

def isHopByHop (lower : Bytes) : Bool :=
  lower == ascii "connection" || lower == ascii "keep-alive" ||
    lower == ascii "proxy-connection" || lower == ascii "transfer-encoding" ||
    lower == ascii "upgrade"

def responseFields (status : Nat) (headers : List Http1.Response.Entry) : List HPACKHeader :=
  { name := ascii ":status", value := Lib.Numerals.printed 10 status, sensitive := false } ::
    (headers.map fun h =>
        { name := h.name.map toLowerAscii, value := h.value, sensitive := false }).filter
      fun h => !h.name.isEmpty && !isHopByHop h.name

/-- The end of `send_response`, with the encoded header block and what the
response carries of the body. -/
def respond (block content : Bytes) : Http2Connection X :=
  let c := (c.log (.sending s.id content)).queueHeaderBlock s.id block content.isEmpty
  if content.isEmpty then
    let s := { s with state := s.state.headersSent true }
    (c.putStream s).maybeClose w s
  else
    let s := { s with state := s.state.headersSent false, sendBuf := content, sendOff := 0
                      sendPending := true }
    (c.putStream s).pumpData w

def sendResponse (id status : Nat)
    (headers : List Http1.Response.Entry) (body : Bytes) : Http2Connection X :=
  if !c.isServer then c
  else
    match c.getStream id with
    | none => c
    | some s =>
      if c.state = .closed || !s.state.canSend || s.sendPending then c
      else
        let status := if status < 100 ∨ 999 < status then 500 else status
        match w.encode c.world (responseFields status headers) kMaxResponseHeaderBlock with
        | (none, x) => { c with world := x }.streamError w id INTERNAL_ERROR
        | (some block, x) =>
          { c with world := x }.respond w s block
            (if s.isHead || status = 204 || status = 304 then [] else body)

def sendRstStream : Http2Connection X :=
  if id = 0 then c
  else if !c.isServer && (c.getStream id).isNone then c
  else c.streamError w id error

def sendGoaway (debugData : Bytes) : Http2Connection X :=
  if c.state = .closed then c
  else if !c.isServer && kMaxControlBacklog < c.outputBacklog then
    c.connectionError w ENHANCE_YOUR_CALM
  else
    let c := c.queueGoaway error (debugData.take (kLocalMaxFrameSize - 8))
    if error ≠ NO_ERROR then
      { c with lastError := error, state := .closed }.resetClientStreams w error
    else if c.state = .active then { c with state := .goawaySent }
    else c

def commitOutput (len : Nat) : Http2Connection X :=
  let c := { c with output := c.output.drop len }
  if !c.isServer && c.state ≠ .closed then c.pumpData w else c

def wantsClose : Bool :=
  c.state = .closed || ((c.state = .goawayReceived || c.state = .goawaySent) && c.streams.isEmpty)

def call : Call → Http2Connection X
  | .sendResponse id status headers body => c.sendResponse w id status headers body
  | .sendRstStream id error => c.sendRstStream w id error
  | .sendGoaway error debugData => c.sendGoaway w error debugData
  | .commitOutput len => c.commitOutput w len
  | .setMaxRequestBody bytes => { c with maxRequestBody := bytes }

def acquireClientStream (body : Bytes) (isHead : Bool) : Http2Stream :=
  { id := id, sendWindow := c.remote.initialWindowSize, sendBuf := body, isHead := isHead
    responseStatus := 0 }

/-- The end of `send_request`, with the encoded header block. -/
def openRequest (fields : List HPACKHeader)
    (body block : Bytes) (isHead : Bool) : Nat × Http2Connection X :=
  let id := if c.lastStreamId = 0 then 1 else c.lastStreamId + 2
  let s := c.acquireClientStream id body isHead
  let s := { s with state := s.state.headersSent body.isEmpty, sendPending := !body.isEmpty }
  let c := { c with streams := c.streams ++ [s], lastStreamId := id }
  let c := (c.log (.opened id fields)).log (.sending id body)
  (id, (c.queueHeaderBlock id block body.isEmpty).pumpData w)

def sendRequest (fields : List HPACKHeader)
    (body : Bytes) : Option Nat × Http2Connection X :=
  if c.isServer || c.state ≠ .active then (none, c)
  else if kMaxRequestHeaders < fields.length || kDefaultMaxRequestBody < body.length ||
      kMaxConcurrentStreams ≤ c.streams.length ||
      c.remote.maxConcurrentStreams ≤ c.streams.length || 0x7FFFFFFF ≤ c.lastStreamId ||
      kMaxControlBacklog < c.outputBacklog then (none, c)
  else
    match validateRequest fields body.length c.remote.maxHeaderListSize with
    | none => (none, c)
    | some isHead =>
      match w.encode c.world fields kMaxResponseHeaderBlock with
      | (none, x) => (none, { c with world := x })
      | (some block, x) =>
        let (id, c) := { c with world := x }.openRequest w fields body block isHead
        (some id, c)

end Http2Connection

end BoltApi.Http2.Connection

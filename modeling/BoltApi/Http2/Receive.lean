import BoltApi.Http2.Connection

/-! # The HTTP/2 connection: receive path

`process_input`, `handle_frame` and the handler of each frame type, of
`http/http2_connection_recv.cpp`. -/
namespace BoltApi.Http2.Receive
open Octets Hpack.Tables Wire Fields
open Hpack.Codec (DecodeStatus)
open Connection Connection.Http2Connection

variable {X : Type} (w : World X) (c : Http2Connection X)

def isIdle (id : Nat) : Bool := id % 2 = 0 || c.lastStreamId < id

/-! ## Receive windows -/

def windowUpdate (id : Nat) (window : Int) : Frame :=
  { type := .windowUpdate, flags := 0, streamId := id
    payload := putU32 (kLocalWindow - window).toNat }

def replenishConnection : Http2Connection X :=
  if c.connectionRecvWindow ≤ kLocalWindow / 2 then
    { c.queueFrame (windowUpdate 0 c.connectionRecvWindow) with
      connectionRecvWindow := kLocalWindow }
  else c

variable (f : Frame) (s : Http2Stream)

def replenish : Http2Connection X :=
  let c := replenishConnection c
  if s.recvWindow ≤ kLocalWindow / 2 then
    (c.queueFrame (windowUpdate s.id s.recvWindow)).putStream { s with recvWindow := kLocalWindow }
  else c

/-! ## Completion -/

def completeRequest : Http2Connection X :=
  if s.contentLength.any (· != s.bodyReceived) then c.streamError w s.id PROTOCOL_ERROR
  else
    let s := { s with requestComplete := true }
    let c := (c.putStream s).log (.request s)
    match w.onRequest c s with
    | (calls, x) => calls.foldl (call w) { c with world := x }

def completeResponse : Http2Connection X :=
  if s.contentLength.any (· != s.bodyReceived) then c.streamError w s.id PROTOCOL_ERROR
  else
    let c := c.putStream { s with sendPending := false }
    let c := if s.state = .closed then c else c.queueFrame (rstFrame s.id NO_ERROR)
    (c.notifyResponse
      { kind := .complete, streamId := s.id, status := s.responseStatus
        endStream := true }).closeStream w s.id

/-! ## Header blocks -/

def addField (hs : List (Bytes × Bytes)) (f : HPACKHeader) : List (Bytes × Bytes) :=
  if hs.any fun h => h.1 == f.name then
    hs.map fun h =>
      if h.1 = f.name then
        (h.1, h.2 ++ ascii (if f.name = ascii "cookie" then "; " else ", ") ++ f.value)
      else h
  else hs ++ [(f.name, f.value)]

def openStream (id : Nat) (endStream : Bool)
    (fields : List HPACKHeader) : Http2Connection X :=
  match validateFields .request fields with
  | none => c.streamError w id PROTOCOL_ERROR
  | some facts =>
    match w.indexInsert c.world id with
    | (false, x) => { c with world := x }.connectionError w INTERNAL_ERROR
    | (true, x) =>
      let s : Http2Stream :=
        { id := id, state := StreamState.idle.headersReceived endStream
          sendWindow := c.remote.initialWindowSize, isHead := facts.isHead
          contentLength := facts.contentLength, requestHeaders := fields.foldl addField [] }
      let c := { c with world := x, streams := c.streams ++ [s], acceptedPeerStreamId := id }.log
        (.opened id fields)
      if endStream then completeRequest w c s else c

variable (st : HeaderBlockState)

def responseHeaders
    (s : Http2Stream) (facts : Facts) (fields : List HPACKHeader) : Http2Connection X :=
  let status := facts.status
  if (status < 200 && (status = 101 || st.endStream || facts.contentLength.isSome)) ||
      (status = 204 && facts.contentLength.isSome) then
    c.streamError w st.streamId PROTOCOL_ERROR
  else
    -- HEAD and 304 describe the selected representation, not this stream
    let s := { s with
      responseStatus := status
      contentLength := if s.isHead || status = 304 then none else facts.contentLength }
    let c := c.notifyResponse
      { kind := .headers, streamId := s.id, status := status, headers := fields
        endStream := st.endStream }
    if status < 200 then c.putStream { s with responseStatus := 0 }
    else
      let s := { s with state := s.state.headersReceived st.endStream }
      let c := c.putStream s
      if st.endStream then completeResponse w c s else c

def responseTrailers
    (s : Http2Stream) (facts : Facts) (fields : List HPACKHeader) : Http2Connection X :=
  if !st.endStream || facts.contentLength.isSome then c.streamError w st.streamId PROTOCOL_ERROR
  else
    let c := c.notifyResponse
      { kind := .trailers, streamId := s.id, status := s.responseStatus, headers := fields
        endStream := true }
    let s := { s with state := s.state.headersReceived true }
    completeResponse w (c.putStream s) s

variable (decoded : DecodeStatus) (fields : List HPACKHeader)

def finishResponseHeaders : Http2Connection X :=
  if isIdle c st.streamId then c.connectionError w PROTOCOL_ERROR
  else
    match c.getStream st.streamId with
    | none => c.streamError w st.streamId STREAM_CLOSED
    | some s =>
      if !s.state.canReceive then c.streamError w st.streamId STREAM_CLOSED
      else if st.selfDependent || decoded ≠ .ok then c.streamError w st.streamId PROTOCOL_ERROR
      else
        let trailers := s.responseStatus ≠ 0
        match validateFields (if trailers then .responseTrailers else .response) fields with
        | none => c.streamError w st.streamId PROTOCOL_ERROR
        | some facts =>
          if trailers then responseTrailers w c st s facts fields
          else responseHeaders w c st s facts fields

/-- The part of `finish_header_block` for an id that has no stream. -/
def finishNewStream : Http2Connection X :=
  let id := st.streamId
  if id % 2 = 0 then c.connectionError w PROTOCOL_ERROR
  else if id ≤ c.lastStreamId then
    c.connectionError w (if c.recentlyClosed id then STREAM_CLOSED else PROTOCOL_ERROR)
  else
    let c := { c with lastStreamId := id }
    if c.state ≠ .active then c.streamError w id REFUSED_STREAM
    else if st.selfDependent then c.streamError w id PROTOCOL_ERROR
    else if decoded = .tooManyHeaders then c.streamError w id REFUSED_STREAM
    else if kMaxConcurrentStreams ≤ c.streams.length then c.streamError w id REFUSED_STREAM
    else openStream w c id st.endStream fields

/-- The part of `finish_header_block` for an open stream: a trailer section. -/
def finishTrailers (s : Http2Stream) : Http2Connection X :=
  if st.selfDependent then c.streamError w s.id PROTOCOL_ERROR
  else if !s.state.canReceive then c.streamError w s.id STREAM_CLOSED
  else if !st.endStream || decoded ≠ .ok || (validateFields .requestTrailers fields).isNone then
    c.streamError w s.id PROTOCOL_ERROR
  else
    let s := { s with state := s.state.headersReceived true }
    completeRequest w (c.putStream s) s

def finishDecoded : Http2Connection X :=
  if decoded = .compressionError then c.connectionError w COMPRESSION_ERROR
  else if !c.isServer then finishResponseHeaders w c st decoded fields
  else
    match c.getStream st.streamId with
    | none => finishNewStream w c st decoded fields
    | some s => finishTrailers w c st decoded fields s

def finishHeaderBlock
    (block : Bytes) : Http2Connection X :=
  match w.decode c.world block kMaxRequestHeaders with
  | (decoded, fields, x) => finishDecoded w { c with world := x } st decoded fields

/-- The checks of `handle_headers_frame`: the block's state and its fragment, or
the error. -/
def headerFragment : Except ErrorCode (HeaderBlockState × Bytes) :=
  if f.streamId = 0 then .error PROTOCOL_ERROR
  else if f.has PADDED && f.length < 1 then .error FRAME_SIZE_ERROR
  else
    let pad := if f.has PADDED then octet f.payload 0 else 0
    let off := if f.has PADDED then 1 else 0
    if f.has PRIORITY && f.length < off + 5 then .error FRAME_SIZE_ERROR
    else
      let st : HeaderBlockState :=
        { streamId := f.streamId, endStream := f.has END_STREAM
          selfDependent := f.has PRIORITY && getU31 (f.payload.drop off) = f.streamId }
      let off := if f.has PRIORITY then off + 5 else off
      if f.length < off + pad then .error PROTOCOL_ERROR
      else .ok (st, (f.payload.drop off).take (f.length - off - pad))

def handleHeaders : Http2Connection X :=
  match headerFragment f with
  | .error code => c.connectionError w code
  | .ok (st, frag) =>
    if f.has END_HEADERS then finishHeaderBlock w c st frag
    else { c with headerBlock := frag, block := st }

def handleContinuation : Http2Connection X :=
  if c.block.streamId = 0 || f.streamId ≠ c.block.streamId then c.connectionError w PROTOCOL_ERROR
  else if kMaxHeaderBlock < c.headerBlock.length + f.length then
    c.connectionError w ENHANCE_YOUR_CALM
  else
    let c := { c with headerBlock := c.headerBlock ++ f.payload }
    if !f.has END_HEADERS then c
    else
      { finishHeaderBlock w { c with block := {} } c.block c.headerBlock with headerBlock := [] }

/-! ## DATA -/

def unpadded : Bytes :=
  if f.has PADDED then
    (f.payload.drop 1).take (f.length - 1 - octet f.payload 0)
  else f.payload

/-- `handle_data_frame`, once the stream's body has room: a server. -/
def requestData : Http2Connection X :=
  let s := { s with
    requestBody := s.requestBody ++ unpadded f
    state := s.state.dataReceived (f.has END_STREAM) }
  let c := c.putStream s
  if f.has END_STREAM then completeRequest w c s else replenish c s

def notifyData : Http2Connection X :=
  if unpadded f = [] then c
  else c.notifyResponse
    { kind := .data, streamId := s.id, status := s.responseStatus, data := unpadded f
      endStream := f.has END_STREAM }

/-- `handle_data_frame`, once the stream's body has room: a client. -/
def responseData : Http2Connection X :=
  if s.responseStatus = 0 ||
      (unpadded f ≠ [] && (s.isHead || s.responseStatus = 204 || s.responseStatus = 304)) then
    c.streamError w s.id PROTOCOL_ERROR
  else
    let c := notifyData c f s
    let s := { s with state := s.state.dataReceived (f.has END_STREAM) }
    let c := c.putStream s
    if f.has END_STREAM then completeResponse w c s else replenish c s

/-- The part of `handle_data_frame` for a stream that may receive. -/
def streamData : Http2Connection X :=
  if s.recvWindow < f.length then c.streamError w s.id FLOW_CONTROL_ERROR
  else
    let s := { s with recvWindow := s.recvWindow - f.length }
    let c := c.putStream s
    let n := (unpadded f).length
    if !c.isServer && (c.maxRequestBody < s.bodyReceived ||
        c.maxRequestBody - s.bodyReceived < n) then c.streamError w s.id ENHANCE_YOUR_CALM
    else
      let s := { s with bodyReceived := s.bodyReceived + n }
      let c := c.putStream s
      if s.contentLength.any (· < s.bodyReceived) then c.streamError w s.id PROTOCOL_ERROR
      else if c.maxRequestBody < s.bodyReceived then c.streamError w s.id ENHANCE_YOUR_CALM
      else if c.isServer then requestData w c f s
      else responseData w c f s

/-- `handle_data_frame`. The whole payload counts against the connection, also
when the stream is gone. -/
def handleData : Http2Connection X :=
  if f.streamId = 0 then c.connectionError w PROTOCOL_ERROR
  else if c.connectionRecvWindow < f.length then c.connectionError w FLOW_CONTROL_ERROR
  else
    let c := replenishConnection
      { c with connectionRecvWindow := c.connectionRecvWindow - f.length }
    if f.has PADDED && f.length < 1 then c.connectionError w FRAME_SIZE_ERROR
    else if f.has PADDED && f.length ≤ octet f.payload 0 then c.connectionError w PROTOCOL_ERROR
    else if isIdle c f.streamId then c.connectionError w PROTOCOL_ERROR
    else
      match c.getStream f.streamId with
      | none => c.streamError w f.streamId STREAM_CLOSED
      | some s =>
        if s.state.canReceive then streamData w c f s
        else c.streamError w f.streamId STREAM_CLOSED

/-! ## SETTINGS -/

def settingsParams : Bytes → List (SettingsId × Nat)
  | a :: b :: p :: q :: r :: s :: rest =>
    (.ofNat (a.toNat * 2 ^ 8 + b.toNat), getU32 [p, q, r, s]) :: settingsParams rest
  | _ => []

def adjustWindows (delta : Int) : List Http2Stream → List Http2Stream × Bool
  | [] => ([], true)
  | s :: ss =>
    if kMaxWindow < s.sendWindow + delta then (s :: ss, false)
    else
      let (ss', ok) := adjustWindows delta ss
      ({ s with sendWindow := s.sendWindow + delta } :: ss', ok)

def applySetting : SettingsId × Nat → Http2Connection X
  | (.headerTableSize, v) =>
    { c with remote := { c.remote with headerTableSize := v }
             world := w.setMaxTableSize c.world v }
  | (.enablePush, v) =>
    if !c.isServer || 1 < v then c.connectionError w PROTOCOL_ERROR
    else { c with remote := { c.remote with enablePush := v = 1 } }
  | (.maxConcurrentStreams, v) => { c with remote := { c.remote with maxConcurrentStreams := v } }
  | (.initialWindowSize, v) =>
    if kMaxWindow < v then c.connectionError w FLOW_CONTROL_ERROR
    else
      let (ss, ok) := adjustWindows (v - c.remote.initialWindowSize) c.streams
      let c := { c with streams := ss }
      if !ok then c.connectionError w FLOW_CONTROL_ERROR
      else { c with remote := { c.remote with initialWindowSize := v } }
  | (.maxFrameSize, v) =>
    if v < 16384 || 16777215 < v then c.connectionError w PROTOCOL_ERROR
    else { c with remote := { c.remote with maxFrameSize := v } }
  | (.maxHeaderListSize, v) => { c with remote := { c.remote with maxHeaderListSize := v } }
  | (.unknown _, _) => c

def applySettings (w : World X) : List (SettingsId × Nat) → Http2Connection X → Http2Connection X
  | [], c => c
  | p :: ps, c =>
    let c := applySetting w c p
    if c.state = .closed then c else applySettings w ps c

def handleSettings : Http2Connection X :=
  if f.streamId ≠ 0 then c.connectionError w PROTOCOL_ERROR
  else if f.has ACK then
    if f.length ≠ 0 then c.connectionError w FRAME_SIZE_ERROR
    else { c with settingsAckPending := false }
  else if f.length % 6 ≠ 0 then c.connectionError w FRAME_SIZE_ERROR
  else
    let c := applySettings w (settingsParams f.payload) c
    if c.state = .closed then c
    else if kMaxControlBacklog < c.outputBacklog then c.connectionError w ENHANCE_YOUR_CALM
    else
      (c.queueFrame { type := .settings, flags := ACK, streamId := 0, payload := [] }).pumpData w

/-! ## The other frames -/

def handlePing : Http2Connection X :=
  if f.streamId ≠ 0 then c.connectionError w PROTOCOL_ERROR
  else if f.length ≠ 8 then c.connectionError w FRAME_SIZE_ERROR
  else if f.has ACK then c
  else if kMaxControlBacklog < c.outputBacklog then c.connectionError w ENHANCE_YOUR_CALM
  else c.queueFrame { type := .ping, flags := ACK, streamId := 0, payload := f.payload }

def resetAbove (w : World X) : List Nat → Http2Connection X → Http2Connection X
  | [], c => c
  | id :: ids, c =>
    if id ≤ c.goawayLastStreamId then resetAbove w ids c
    else
      match c.getStream id with
      | some s => resetAbove w ids ((c.notifyReset s NO_ERROR).closeStream w id)
      | none => resetAbove w ids c

def handleGoaway : Http2Connection X :=
  if f.streamId ≠ 0 then c.connectionError w PROTOCOL_ERROR
  else if f.length < 8 then c.connectionError w FRAME_SIZE_ERROR
  else
    let c := if c.state = .active then { c with state := .goawayReceived } else c
    if c.isServer then c
    else
      let error := getU32 (f.payload.drop 4)
      if error ≠ NO_ERROR then c.resetClientStreams w error
      else
        let c := { c with goawayLastStreamId := min c.goawayLastStreamId (getU31 f.payload) }
        resetAbove w (c.streams.map (·.id)) c

def handleRstStream : Http2Connection X :=
  if f.streamId = 0 then c.connectionError w PROTOCOL_ERROR
  else if f.length ≠ 4 then c.connectionError w FRAME_SIZE_ERROR
  else if isIdle c f.streamId then c.connectionError w PROTOCOL_ERROR
  else
    match c.getStream f.streamId with
    | none => c
    | some s =>
      (if c.isServer then c else c.notifyReset s (getU32 f.payload)).closeStream w f.streamId

def handlePriority : Http2Connection X :=
  if f.streamId = 0 then c.connectionError w PROTOCOL_ERROR
  else if f.length ≠ 5 then c.streamError w f.streamId FRAME_SIZE_ERROR
  else if getU31 f.payload = f.streamId then c.streamError w f.streamId PROTOCOL_ERROR
  else c

def handleWindowUpdate : Http2Connection X :=
  if f.length ≠ 4 then c.connectionError w FRAME_SIZE_ERROR
  else
    let inc := getU31 f.payload
    if f.streamId = 0 then
      if inc = 0 then c.connectionError w PROTOCOL_ERROR
      else if kMaxWindow < c.connectionSendWindow + inc then c.connectionError w FLOW_CONTROL_ERROR
      else { c with connectionSendWindow := c.connectionSendWindow + inc }.pumpData w
    else if isIdle c f.streamId then c.connectionError w PROTOCOL_ERROR
    else
      match c.getStream f.streamId with
      | none => c
      | some s =>
        if inc = 0 then c.streamError w f.streamId PROTOCOL_ERROR
        else if kMaxWindow < s.sendWindow + inc then c.streamError w f.streamId FLOW_CONTROL_ERROR
        else (c.putStream { s with sendWindow := s.sendWindow + inc }).pumpData w

/-! ## Frames and input -/

def dispatch : Http2Connection X :=
  match f.type with
  | .data => handleData w c f
  | .headers => handleHeaders w c f
  | .priority => handlePriority w c f
  | .rstStream => handleRstStream w c f
  | .settings => handleSettings w c f
  | .pushPromise => c.connectionError w PROTOCOL_ERROR
  | .ping => handlePing w c f
  | .goaway => handleGoaway w c f
  | .windowUpdate => handleWindowUpdate w c f
  | .continuation => handleContinuation w c f
  | .unknown _ => c

def handleFrame : Http2Connection X :=
  let c := c.log (.received f)
  if !c.isServer && kMaxControlBacklog < c.outputBacklog then c.connectionError w ENHANCE_YOUR_CALM
  else
    let first := !c.firstFrameSeen
    let c := { c with firstFrameSeen := true }
    if first && (f.type ≠ .settings || f.has ACK) then c.connectionError w PROTOCOL_ERROR
    else if c.block.streamId ≠ 0 && f.type ≠ .continuation then c.connectionError w PROTOCOL_ERROR
    else dispatch w c f

inductive Taken
  | frame (f : Frame) (rest : Bytes)
  | oversize (held : Bytes)
  | more (held : Bytes)

def toFrame (h : FrameHeader) (payload : Bytes) : Frame :=
  { type := h.type, flags := h.flags, streamId := h.streamId, payload := payload }

def reassemble (buf data : Bytes) : Taken :=
  let n := min (9 - buf.length) data.length
  let buf := buf ++ data.take n
  let data := data.drop n
  if buf.length < 9 then .more buf
  else
    let h := parseFrameHeader buf
    if kLocalMaxFrameSize < h.length then .oversize buf
    else
      let need := 9 + h.length
      let n := min (need - buf.length) data.length
      let buf := buf ++ data.take n
      if buf.length < need then .more buf
      else .frame (toFrame h (buf.drop 9)) (data.drop n)

/-- "Whole frame in hand: no copy", or else the reassembly. -/
def takeFrame (buf data : Bytes) : Taken :=
  if buf.length = 0 && 9 ≤ data.length then
    let h := parseFrameHeader data
    if kLocalMaxFrameSize < h.length then .oversize buf
    else if 9 + h.length ≤ data.length then
      .frame (toFrame h ((data.drop 9).take h.length)) (data.drop (9 + h.length))
    else reassemble buf data
  else reassemble buf data

def inputLoop (w : World X) : Nat → Http2Connection X → Bytes → Http2Connection X
  | 0, c, _ => c
  | guard + 1, c, data =>
    if data = [] then c
    else
      match takeFrame c.inputBuffer data with
      | .more held => { c with inputBuffer := held }
      | .oversize held => { c with inputBuffer := held }.connectionError w FRAME_SIZE_ERROR
      | .frame f rest =>
        let c := handleFrame w { c with inputBuffer := [] } f
        if c.state = .closed then c else inputLoop w guard c rest

def processInput (data : Bytes) : Http2Connection X :=
  if c.state = .closed then c
  else if c.isServer && c.state = .prefacePending then
    let n := min (CONNECTION_PREFACE_LEN - c.prefaceBytesValidated) data.length
    if (CONNECTION_PREFACE.drop c.prefaceBytesValidated).take n ≠ data.take n then
      c.connectionError w PROTOCOL_ERROR
    else
      let c := { c with prefaceBytesValidated := c.prefaceBytesValidated + n }
      if c.prefaceBytesValidated < CONNECTION_PREFACE_LEN then c
      else inputLoop w (data.length + 1) { c with state := .active } (data.drop n)
  else inputLoop w (data.length + 1) c data

/-! ## Runs -/

/-- What can be done with a connection. -/
inductive Op
  | input (data : Bytes)
  | call (a : Call)
  | request (fields : List HPACKHeader) (body : Bytes)

def apply : Op → Http2Connection X
  | .input data => processInput w c data
  | .call a => c.call w a
  | .request fields body => (c.sendRequest w fields body).2

/-- A connection and everything that happens to it, in any order. -/
def run (isServer : Bool) (x : X) (ops : List Op) : Http2Connection X :=
  ops.foldl (apply w) (create isServer x)

end BoltApi.Http2.Receive

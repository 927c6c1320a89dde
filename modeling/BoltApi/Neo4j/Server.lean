import BoltApi.Neo4j.Chunks
import BoltApi.Neo4j.PackStream

/-! # The Bolt connection

`Connection` of `proto/neo4j_bolt_server.cpp`: the handshake, the message state
machine and the loop around it, over the octets the peer sends. What the
authenticator, the query executor and the socket answer while one message is handled
is a `Host`; the calls made to them are logged. -/
namespace BoltApi.Neo4j
open Octets Lib.BigEndian PackStream

/-! ## Versions -/

structure Version where
  major : UInt8 := 0
  minor : UInt8 := 0
  deriving DecidableEq

def Version.valid (v : Version) : Bool := v.major != 0

def Version.hasLogon (v : Version) : Bool := 5 < v.major || (v.major == 5 && 1 ≤ v.minor)

def kMaxBolt5Minor : UInt8 := 4
def kBolt4Minor : UInt8 := 4

def isSupported (v : Version) : Bool :=
  if v.major = 5 then v.minor ≤ kMaxBolt5Minor
  else if v.major = 4 then v.minor = kBolt4Minor
  else false

/-- The highest minor of one entry that is served, walking down from `minor`. -/
def servedMinor (major minor range maxMajor : UInt8) : Option Version :=
  let low := if minor < range then 0 else minor - range
  ((List.range (minor.toNat - low.toNat + 1)).map fun k =>
    (⟨major, UInt8.ofNat (minor.toNat - k)⟩ : Version)).find? fun cand =>
      isSupported cand && cand.major ≤ maxMajor

/-- `negotiate` over the entries left of the proposal block. -/
def negotiate (maxMajor : UInt8) : Version → Bytes → Version
  | best, _ :: range :: minor :: major :: entries =>
    if major = 0 ∨ major = 0xFF then negotiate maxMajor best entries
    else
      match servedMinor major minor range maxMajor with
      | none => negotiate maxMajor best entries
      | some cand =>
        if ¬best.valid ∨ best.major < cand.major ∨
            (cand.major = best.major ∧ best.minor < cand.minor) then
          negotiate maxMajor cand entries
        else negotiate maxMajor best entries
  | best, _ => best

/-! ## Messages and answers -/

inductive Signature
  | hello
  | goodbye
  | reset
  | run
  | begin
  | commit
  | rollback
  | discard
  | pull
  | telemetry
  | route
  | logon
  | logoff
  | success
  | record
  | ignored
  | failure
  deriving DecidableEq

def Signature.octet : Signature → UInt8
  | .hello => 0x01
  | .goodbye => 0x02
  | .reset => 0x0F
  | .run => 0x10
  | .begin => 0x11
  | .commit => 0x12
  | .rollback => 0x13
  | .discard => 0x2F
  | .pull => 0x3F
  | .telemetry => 0x54
  | .route => 0x66
  | .logon => 0x6A
  | .logoff => 0x6B
  | .success => 0x70
  | .record => 0x71
  | .ignored => 0x7E
  | .failure => 0x7F

def clientSignatures : List Signature :=
  [.hello, .goodbye, .reset, .run, .begin, .commit, .rollback, .discard, .pull, .telemetry, .route,
    .logon, .logoff]

/-- The case of the `switch`; the server's own signatures fall to its default. -/
def Signature.ofOctet (octet : UInt8) : Option Signature :=
  clientSignatures.find? fun sig => sig.octet == octet

def signatureOf : PackValue → Option Signature
  | .struct octet _ => Signature.ofOctet octet
  | _ => none

inductive State
  | negotiation
  | authentication
  | ready
  | streaming
  | txReady
  | txStreaming
  | failed
  | defunct
  deriving DecidableEq

structure QueryFailure where
  code : Bytes
  message : Bytes

def kMaxFields : Nat := 256
def kPullAll : BitVec 64 := -1

/-- One row the executor emits: its values, or the column `write_value` refuses and
why; and whether the socket takes the record. -/
structure Row where
  record : Except (Nat × PackError) (List PackValue)
  sent : Bool

/-- A run of `pull`: the rows it emits, and whether more remain or its failure. -/
structure Pulled where
  rows : List Row
  result : Except QueryFailure Bool

/-- What the host and the socket answer while one message is handled. -/
structure Host where
  authenticate : Bytes → Bytes → Bytes → Bool
  beginQuery : Bytes → PackValue → Except QueryFailure (List Bytes)
  pull : BitVec 64 → Pulled
  beginTx : Except QueryFailure Unit
  commitTx : Except QueryFailure Unit
  queryType : Bytes
  stats : List (Bytes × BitVec 64)
  sent : Bool

/-- A message that arrives, or a call to the authenticator or the executor. -/
inductive Event
  | message (m : PackValue)
  | authenticate (scheme principal credentials : Bytes) (granted : Bool)
  | statementContext (txTimeoutMs : BitVec 64) (db : Bytes)
  | beginQuery (cypher : Bytes) (params : PackValue)
  | pull (n : BitVec 64)
  | discard
  | beginTx (ok : Bool)
  | commitTx (ok : Bool)
  | rollbackTx

/-! ## Connection -/

structure Config where
  messageBufferBytes : Nat := 2 ^ 20
  writeBufferBytes : Nat := 2 ^ 20
  valueArenaBytes : Nat := 2 ^ 20
  serverAgent : Bytes := ascii "Neo4j/5.4.0"
  maxBoltMajor : UInt8 := 5

structure Connection where
  connId : Nat
  version : Version
  state : State
  writeFailed : Bool := false
  txOpen : Bool := false
  valueError : Option Bytes := none

/-- What handling a message does: the connection after it, the calls it makes, the
octets it sends, and what `dispatch` returns. -/
structure Turn where
  conn : Connection
  calls : List Event := []
  replies : List Bytes := []
  ok : Bool

def Turn.after (calls : List Event) (t : Turn) : Turn := { t with calls := calls ++ t.calls }

/-- What `put_string` returns is not looked at: a string that is too long is left out. -/
def putText (w : PackWriter) (s : Bytes) : Except PackError PackWriter :=
  if kMaxStringBytes < s.length then .ok w else putString w s

mutual

def putReply (w : PackWriter) : PackValue → Except PackError PackWriter
  | .string s => putText w s
  | .list items => (beginList w items.length).bind fun w => putReplies w items
  | .struct signature items =>
    (beginStruct w signature (UInt8.ofNat items.length)).bind fun w => putReplies w items
  | .dict pairs => (beginDict w pairs.length).bind fun w => putReplyPairs w pairs
  | v => putValue w v

def putReplies (w : PackWriter) : List PackValue → Except PackError PackWriter
  | [] => .ok w
  | v :: items => (putReply w v).bind fun w => putReplies w items

def putReplyPairs (w : PackWriter) : List (Bytes × PackValue) → Except PackError PackWriter
  | [] => .ok w
  | (key, v) :: pairs => (putText w key).bind fun w => (putReply w v).bind fun w => putReplyPairs w pairs

end

section
variable (cfg : Config) (sent : Bool) (c : Connection)

def outBuffer : PackWriter := ⟨[], cfg.writeBufferBytes⟩

/-- `flush` of what was written, if it fits the buffer. -/
def flush (w : Except PackError PackWriter) : Turn :=
  match w.toOption.bind fun w => writeMessage w.buf with
  | some out =>
    if sent then { conn := c, replies := [out], ok := true }
    else { conn := { c with writeFailed := true }, ok := false }
  | none => { conn := { c with writeFailed := true }, ok := false }

def sendSuccess (pairs : List (Bytes × PackValue)) : Turn :=
  flush sent c (putReply (outBuffer cfg) (.struct Signature.success.octet [.dict pairs]))

def sendSuccessEmpty : Turn := sendSuccess cfg sent c []

def sendFailure (f : QueryFailure) : Turn :=
  flush sent { c with state := .failed } (putReply (outBuffer cfg)
    (.struct Signature.failure.octet
      [.dict [(ascii "code", .string f.code), (ascii "message", .string f.message)]]))

def sendIgnored : Turn :=
  flush sent c (putReply (outBuffer cfg) (.struct Signature.ignored.octet []))

/-- The text `emit` keeps of a column it could not write; its buffer has 160 octets. -/
def columnError (v : Version) (k : Nat) (e : PackError) : Bytes :=
  (ascii "result column " ++ ascii (toString k) ++ ascii " could not be sent as a Bolt " ++
    ascii (toString v.major.toNat) ++ ascii "." ++ ascii (toString v.minor.toNat) ++
    ascii " value (" ++ packErrorName e ++ ascii "); nothing was sent for this record").take 159

def emit (t : Turn) (row : Row) : Turn :=
  if t.conn.writeFailed then t
  else
    match row.record with
    | .error (k, e) =>
      { t with conn := { t.conn with valueError := some (columnError t.conn.version k e) } }
    | .ok values =>
      let t' := flush row.sent t.conn
        (putValue (outBuffer cfg) (.struct Signature.record.octet [.list values]))
      { t with conn := t'.conn, replies := t.replies ++ t'.replies }

def extraDict (items : List PackValue) (k : Nat) : Option PackValue :=
  items[k]?.filter (·.isDict)

def authField (extra : Option PackValue) (key : String) : Bytes :=
  match extra with
  | some d => d.findStr (ascii key)
  | none => []

def authCall (h : Host) (extra : Option PackValue) : Event :=
  let scheme := authField extra "scheme"
  let scheme := if scheme = [] then ascii "none" else scheme
  let principal := authField extra "principal"
  let credentials := authField extra "credentials"
  .authenticate scheme principal credentials (h.authenticate scheme principal credentials)

/-- The answer in a call of `authenticate`. -/
def Event.granted : Event → Bool
  | .authenticate _ _ _ granted => granted
  | _ => false

def unauthorized : QueryFailure :=
  ⟨ascii "Neo.ClientError.Security.Unauthorized", ascii "authentication failed"⟩

def invalidRequest (message : String) : QueryFailure :=
  ⟨ascii "Neo.ClientError.Request.Invalid", ascii message⟩

def helloSuccess (h : Host) (c : Connection) : Turn :=
  sendSuccess cfg h.sent
    { c with state := if c.version.hasLogon then .authentication else .ready }
    [(ascii "server", .string cfg.serverAgent),
      (ascii "connection_id", .string (ascii "bolt-" ++ ascii (toString c.connId))),
      (ascii "boltapi_server", .string (ascii "boltapi/neo4j-bolt"))]

def onHello (h : Host) (c : Connection) (items : List PackValue) : Turn :=
  if items[0]?.any fun extra => !extra.isDict && !extra.isNull then
    sendFailure cfg h.sent c (invalidRequest "HELLO extra must be a dictionary")
  else if ¬c.version.hasLogon ∧ (extraDict items 0).isSome then
    let call := authCall h (extraDict items 0)
    if call.granted then (helloSuccess cfg h c).after [call]
    else (sendFailure cfg h.sent c unauthorized).after [call]
  else helloSuccess cfg h c

def onLogon (h : Host) (c : Connection) (items : List PackValue) : Turn :=
  let call := authCall h (extraDict items 0)
  if call.granted then (sendSuccessEmpty cfg h.sent { c with state := .ready }).after [call]
  else (sendFailure cfg h.sent c unauthorized).after [call]

def contextCall (extra : Option PackValue) : Event :=
  match extra with
  | some d => .statementContext (d.findInt (ascii "tx_timeout") 0) (d.findStr (ascii "db"))
  | none => .statementContext 0 []

def onRun (h : Host) (c : Connection) (items : List PackValue) : Turn :=
  match items with
  | .string cypher :: params :: _ =>
    let calls := [contextCall (extraDict items 2), .beginQuery cypher params]
    match h.beginQuery cypher params with
    | .error f => (sendFailure cfg h.sent c f).after calls
    | .ok fields =>
      if kMaxFields < fields.length then
        (sendFailure cfg h.sent c ⟨ascii "Neo.ClientError.Statement.ExecutionFailed",
          ascii "result has more columns than the server supports"⟩).after calls
      else
        (sendSuccess cfg h.sent
          { c with state := if c.state = .txReady then .txStreaming else .streaming }
          [(ascii "fields", .list (fields.map .string)), (ascii "t_first", .int 0)]).after calls
  | _ => sendFailure cfg h.sent c (invalidRequest "RUN requires [query, parameters, extra]")

def summary (h : Host) (c : Connection) : Turn :=
  let stats := (h.stats.take 16).map fun st => (st.1, PackValue.int st.2)
  sendSuccess cfg h.sent { c with state := if c.state = .txStreaming then .txReady else .ready }
    ([(ascii "type", .string h.queryType), (ascii "t_last", .int 0)] ++
      if stats = [] then [] else [(ascii "stats", .dict stats)])

def onDiscard (h : Host) (c : Connection) : Turn :=
  if c.writeFailed then { conn := c, calls := [.discard], ok := false }
  else (summary cfg h c).after [.discard]

def onPull (h : Host) (c : Connection) (items : List PackValue) : Turn :=
  let n := ((extraDict items 0).map fun d => d.findInt (ascii "n") kPullAll).getD kPullAll
  let t := (h.pull n).rows.foldl (emit cfg) { conn := c, calls := [.pull n], ok := false }
  if t.conn.writeFailed then t
  else
    let rest :=
      match (h.pull n).result with
      | .error f =>
        let failure : QueryFailure :=
          match t.conn.valueError with
          | some text => ⟨ascii "Neo.DatabaseError.Statement.ExecutionFailed", text⟩
          | none => f
        sendFailure cfg h.sent { t.conn with valueError := none } failure
      -- more rows remain, the state is kept
      | .ok true => sendSuccess cfg h.sent t.conn [(ascii "has_more", .bool true)]
      | .ok false => summary cfg h t.conn
    { rest with calls := t.calls ++ rest.calls, replies := t.replies ++ rest.replies }

def onBegin (h : Host) (c : Connection) (items : List PackValue) : Turn :=
  match h.beginTx with
  | .error f =>
    (sendFailure cfg h.sent c f).after [contextCall (extraDict items 0), .beginTx false]
  | .ok _ =>
    (sendSuccessEmpty cfg h.sent { c with txOpen := true, state := .txReady }).after
      [contextCall (extraDict items 0), .beginTx true]

def onCommit (h : Host) (c : Connection) : Turn :=
  let c := { c with txOpen := false, state := .ready }
  match h.commitTx with
  | .error f => (sendFailure cfg h.sent c f).after [.commitTx false]
  | .ok _ => (sendSuccessEmpty cfg h.sent c).after [.commitTx true]

def onRollback (h : Host) (c : Connection) : Turn :=
  (sendSuccessEmpty cfg h.sent { c with txOpen := false, state := .ready }).after [.rollbackTx]

def onReset (h : Host) (c : Connection) : Turn :=
  (sendSuccessEmpty cfg h.sent { c with txOpen := false, state := .ready }).after
    (.discard :: if c.txOpen then [.rollbackTx] else [])

def inStates (h : Host) (c : Connection) (states : List State) (refusal : String) (t : Turn) :
    Turn :=
  if c.state ∈ states then t else sendFailure cfg h.sent c (invalidRequest refusal)

def dispatchStruct (h : Host) (c : Connection) (octet : UInt8) (items : List PackValue) : Turn :=
  match Signature.ofOctet octet with
  | some .hello =>
    inStates cfg h c [.authentication] "HELLO is only valid once, right after the handshake"
      (onHello cfg h c items)
  | some .logon =>
    inStates cfg h c [.authentication] "LOGON is only valid in the authentication state"
      (onLogon cfg h c items)
  | some .logoff => sendSuccessEmpty cfg h.sent { c with state := .authentication }
  | some .run =>
    inStates cfg h c [.ready, .txReady] "RUN requires a ready connection" (onRun cfg h c items)
  | some .pull =>
    inStates cfg h c [.streaming, .txStreaming] "PULL/DISCARD requires a streaming result"
      (onPull cfg h c items)
  | some .discard =>
    inStates cfg h c [.streaming, .txStreaming] "PULL/DISCARD requires a streaming result"
      (onDiscard cfg h c)
  | some .begin =>
    inStates cfg h c [.ready] "BEGIN requires a ready connection" (onBegin cfg h c items)
  | some .commit =>
    inStates cfg h c [.txReady] "COMMIT/ROLLBACK requires an open transaction" (onCommit cfg h c)
  | some .rollback =>
    inStates cfg h c [.txReady] "COMMIT/ROLLBACK requires an open transaction"
      (onRollback cfg h c)
  | some .reset => onReset cfg h c
  | some .telemetry => sendSuccessEmpty cfg h.sent c
  | some .route =>
    sendFailure cfg h.sent c ⟨ascii "Neo.ClientError.Procedure.ProcedureNotFound",
      ascii "routing is not supported by this server"⟩
  | some .goodbye => { conn := { c with state := .defunct }, ok := false }
  | _ => sendFailure cfg h.sent c (invalidRequest "unsupported Bolt message signature")

def allowedWhenFailed (sig : Option Signature) : Bool :=
  sig = some .reset ∨ sig = some .goodbye

def dispatch (h : Host) (c : Connection) (m : PackValue) : Turn :=
  match m with
  | .struct octet items =>
    if c.state = .failed ∧ ¬allowedWhenFailed (Signature.ofOctet octet) then
      sendIgnored cfg h.sent c
    else dispatchStruct cfg h c octet items
  | _ => sendFailure cfg h.sent c (invalidRequest "expected a PackStream structure")

/-! ## The loop -/

/-- A stretch of the connection: what it called and replied, and whether the loop goes
on behind it. -/
structure Session where
  conn : Connection
  log : List Event := []
  replies : List Bytes := []
  live : Bool

def Session.after (log : List Event) (replies : List Bytes) (s : Session) : Session :=
  { s with log := log ++ s.log, replies := replies ++ s.replies }

def Turn.session (t : Turn) (live : Bool) : Session := ⟨t.conn, t.calls, t.replies, live⟩

/-- The loop of `run`, as long as there are answers of the host; without one it was told
to stop. -/
def serveLoop : List Host → Bytes → Connection → Session
  | [], _, c => { conn := c, live := true }
  | h :: hosts, stream, c =>
    if c.state = .defunct then { conn := c, live := false }
    else
      match readMessage cfg.messageBufferBytes stream with
      | .closed => { conn := c, live := false }
      | .refused =>
        (sendFailure cfg h.sent c
          (invalidRequest "message exceeds the server's bounded buffer")).session false
      | .message payload rest =>
        match PackStream.read ⟨payload, ⟨cfg.valueArenaBytes, 0⟩⟩ with
        | .error e =>
          (sendFailure cfg h.sent c
            ⟨ascii "Neo.ClientError.Request.Invalid", packErrorName e⟩).session false
        | .ok (m, _) =>
          let t := dispatch cfg h c m
          if ¬t.ok ∨ t.conn.writeFailed then (t.session false).after [.message m] []
          else (serveLoop hosts rest t.conn).after (.message m :: t.calls) t.replies

def kBoltMagic : Nat := 0x6060B017
def kHandshakeBytes : Nat := 20

def doHandshake (stream : Bytes) : Option (Version × Bytes) :=
  if stream.length < kHandshakeBytes then none
  else if loadBe (stream.take 4) ≠ kBoltMagic then none
  else
    let version := negotiate cfg.maxBoltMajor {} ((stream.take kHandshakeBytes).drop 4)
    if ¬sent ∨ ¬version.valid then none else some (version, stream.drop kHandshakeBytes)

/-- The connection behind the handshake. -/
def greeted (connId : Nat) (version : Version) : Connection :=
  { connId, version, state := .authentication }

/-- What the guard of `run` calls when the connection ends inside a transaction. -/
def txGuard : List Event := if c.txOpen then [.discard, .rollbackTx] else []

def serveConnection (connId : Nat) (sent : Bool) (hosts : List Host) (stream : Bytes) : List Event :=
  match doHandshake cfg sent stream with
  | none => [.discard]
  | some (version, rest) =>
    let s := serveLoop cfg hosts rest (greeted connId version)
    s.log ++ txGuard s.conn ++ [.discard]

end

end BoltApi.Neo4j

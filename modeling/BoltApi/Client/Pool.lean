import BoltApi.Client.Server
import Mathlib.Logic.Function.Basic

/-! # Sends over pooled connections

`Client::send` of `http/client.cpp` with the pool it takes connections from and
gives them back to. Sends are coroutines: each waits for its connection, its
writes and its reads, and others run meanwhile. A step of the system is the end
of one such wait, or something a server does. A server answers the requests of a
connection in order, each once; `answers` keeps what it answered. -/
namespace BoltApi.Client.Pool
open Octets Lib.Numerals Function

def kClientMaxReqHeaders : Nat := 32

structure ClientRequest where
  method : Bytes := ascii "GET"
  path : Bytes := ascii "/"
  host : Bytes := []
  body : Bytes := []
  contentType : Bytes := ascii "application/octet-stream"
  extraHeaders : List Field := []

def serializeRequest (req : ClientRequest) (hostFallback : Bytes) : Bytes :=
  req.method ++ SP :: (req.path ++ ascii " HTTP/1.1" ++ CRLF ++ ascii "Host: " ++
    (if req.host = [] then hostFallback else req.host) ++ CRLF ++
    (req.extraHeaders.take kClientMaxReqHeaders).flatMap (fun h => h.name ++ ascii ": " ++ h.value ++ CRLF) ++
    (if req.body = [] then []
      else ascii "Content-Type: " ++ req.contentType ++ CRLF ++ ascii "Content-Length: " ++
        printed 10 req.body.length ++ CRLF) ++
    CRLF ++ req.body)

structure ClientResponse where
  ok : Bool := false
  status : Int := 0
  keepAlive : Bool := true
  body : Bytes := []
  headers : List Field := []

structure Config where
  maxTargets : Nat := 64
  maxConnsPerTarget : Nat := 32

abbrev Fd := Nat

/-- The connections of one upstream that no send uses. -/
structure TargetPool where
  host : Bytes
  port : Nat
  idle : List Fd := []

def getTarget (cfg : Config) (targets : List TargetPool) (host : Bytes) (port : Nat) :
    Option (List TargetPool × Nat) :=
  match targets.findIdx? fun t => t.port = port ∧ t.host = host with
  | some i => some (targets, i)
  | none =>
    if cfg.maxTargets ≤ targets.length then none
    else some (targets ++ [{ host, port }], targets.length)

def popIdle (idle : List Fd) : Option (Fd × List Fd) := idle.getLast?.map fun fd => (fd, idle.dropLast)

def pushIdle (cfg : Config) (idle : List Fd) (fd : Fd) : Option (List Fd) :=
  if cfg.maxConnsPerTarget ≤ idle.length then none else some (idle ++ [fd])

inductive Phase where
  | connecting
  | writing (sent : Nat)
  | reading (parser : ResponseParser)
deriving DecidableEq

structure Call where
  target : Nat
  fd : Fd
  req : ClientRequest
  wbuf : Bytes
  phase : Phase

/-- The other end of a connection: what it sent and the client has not read, the
requests it has not answered, and whether it has closed. -/
structure Conn where
  unread : Bytes := []
  asked : List (Nat × Bytes) := []
  closed : Bool := false

structure State where
  targets : List TargetPool := []
  calls : Nat → Option Call := fun _ => none
  done : Nat → Option ClientResponse := fun _ => none
  conns : Fd → Option Conn := fun _ => none
  answers : Nat → Option Server.Reply := fun _ => none

inductive Label where
  | send (id : Nat) (host : Bytes) (port : Nat) (req : ClientRequest) (fd : Option Fd)
  | connected (id : Nat) (ok : Bool)
  | wrote (id : Nat) (n : Int)
  | read (id n : Nat)
  | readFailed (id : Nat)
  | answer (fd : Fd) (reply : Server.Reply)
  | hangUp (fd : Fd)

namespace State

variable (s : State)

def finish (id : Nat) (resp : ClientResponse) : State :=
  { s with calls := update s.calls id none, done := update s.done id (some resp) }

def closeSocket (fd : Fd) : State := { s with conns := update s.conns fd none }

def fail (id : Nat) (fd : Fd) : State := (s.closeSocket fd).finish id {}

def setCall (id : Nat) (call : Call) : State := { s with calls := update s.calls id (some call) }

def setConn (fd : Fd) (conn : Conn) : State := { s with conns := update s.conns fd (some conn) }

def setIdle (i : Nat) (tp : TargetPool) (idle : List Fd) : State :=
  { s with targets := s.targets.set i { tp with idle } }

end State

section

variable (cfg : Config) (resolves : Bytes → Bool)

def start (s : State) (id : Nat) (host : Bytes) (port : Nat) (req : ClientRequest) (fd : Option Fd) :
    Option State :=
  match getTarget cfg s.targets host port with
  | none => some (s.finish id {})
  | some (targets, i) =>
    let s := { s with targets }
    match targets[i]? with
    | none => none
    | some tp =>
      let call fd phase : Call :=
        { target := i, fd, req, wbuf := serializeRequest req (tp.host ++ COLON :: printed 10 port), phase }
      if resolves host = false then some (s.finish id {})
      else
        match popIdle tp.idle with
        | some (fd, idle) => some ((s.setIdle i tp idle).setCall id (call fd (.writing 0)))
        | none =>
          match fd with
          | none => some (s.finish id {})
          | some fd =>
            -- a new socket has the number of no open one
            if (s.conns fd).isSome then none
            else some ((s.setConn fd {}).setCall id (call fd .connecting))

def recycle (s : State) (call : Call) (keepAlive : Bool) : State :=
  if keepAlive then
    match s.targets[call.target]? with
    | none => s.closeSocket call.fd
    | some tp =>
      match pushIdle cfg tp.idle call.fd with
      | some idle => s.setIdle call.target tp idle
      | none => s.closeSocket call.fd
  else s.closeSocket call.fd

def responseOf (p : ResponseParser) (h : Head) : ClientResponse :=
  { ok := true, status := h.status, keepAlive := h.keepAlive, body := p.body, headers := h.fields }

def onRead (s : State) (id : Nat) (call : Call) (p : ResponseParser) (data : Bytes) : State :=
  match p.consume data with
  | (p, .needMore) => s.setCall id { call with phase := .reading p }
  | (_, .error) => s.fail id call.fd
  | (p, .complete) =>
    match p.head with
    | none => s.fail id call.fd
    | some (_, h) => (recycle cfg s call h.keepAlive).finish id (responseOf p h)

def step (s : State) : Label → Option State
  | .send id host port req fd =>
    if (s.calls id).isSome ∨ (s.done id).isSome then none else start cfg resolves s id host port req fd
  | .connected id ok =>
    match s.calls id with
    | some call =>
      if call.phase = .connecting then
        some (if ok then s.setCall id { call with phase := .writing 0 } else s.fail id call.fd)
      else none
    | none => none
  | .wrote id n =>
    match s.calls id with
    | some call =>
      match call.phase, s.conns call.fd with
      | .writing sent, some conn =>
        if n ≤ 0 then some (s.fail id call.fd)
        else if call.wbuf.length - sent < n.toNat then none
        else
          -- the server sees the request from its first octets on
          let s := if sent = 0 then s.setConn call.fd { conn with asked := conn.asked ++ [(id, call.req.method)] }
            else s
          some (s.setCall id { call with
            phase := if sent + n.toNat < call.wbuf.length then .writing (sent + n.toNat) else .reading {} })
      | _, _ => none
    | none => none
  | .read id n =>
    match s.calls id with
    | some call =>
      match call.phase, s.conns call.fd with
      | .reading p, some conn =>
        if 0 < n ∧ n ≤ kClientRecvChunk ∧ n ≤ conn.unread.length then
          some (onRead cfg (s.setConn call.fd { conn with unread := conn.unread.drop n }) id call p
            (conn.unread.take n))
        else none
      | _, _ => none
    | none => none
  | .readFailed id =>
    match s.calls id with
    | some call =>
      match call.phase with
      | .reading _ => some (s.fail id call.fd)
      | _ => none
    | none => none
  | .answer fd reply =>
    match s.conns fd with
    | some conn =>
      match conn.asked with
      | (id, method) :: asked =>
        if conn.closed ∨ reply.method ≠ method then none
        else some { s with
          conns := update s.conns fd (some { unread := conn.unread ++ reply.wire, asked, closed := reply.closes })
          answers := update s.answers id (some reply) }
      | [] => none
    | none => none
  | .hangUp fd =>
    match s.conns fd with
    | some conn => some (s.setConn fd { conn with closed := true })
    | none => none

/-- The state after the events, if they can happen in this order. -/
def run (s : State) : List Label → Option State
  | [] => some s
  | l :: ls => (step cfg resolves s l).bind (run · ls)

end

end BoltApi.Client.Pool

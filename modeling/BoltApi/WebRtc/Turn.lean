import BoltApi.Lib.Slots
import BoltApi.WebRtc.Stun

/-! # The TURN server

`TurnServer`: allocations by client address, each with the permissions and
channels its client asked for, and the datagrams relayed between the control
socket and the relay socket. Every datagram on either socket yields the events
it caused. -/
namespace BoltApi.WebRtc.Turn
open Lib Octets Wire Stun

def kMaxPermissions : Nat := 16
def kMaxChannels : Nat := 16
def kMaxAllocations : Nat := 8
def kChannelBase : Nat := 0x4000
def kChannelMax : Nat := 0x7FFF

namespace Method

def allocate : Nat := 0x003
def refresh : Nat := 0x004
def send : Nat := 0x006
def createPermission : Nat := 0x008
def channelBind : Nat := 0x009

end Method

namespace Attr

def channelNumber : Nat := 0x000C
def lifetime : Nat := 0x000D
def xorPeerAddress : Nat := 0x0012
def data : Nat := 0x0013
def realm : Nat := 0x0014
def nonce : Nat := 0x0015

end Attr

abbrev Peer := Option Sockaddr

structure Channel where
  number : Nat
  peer : Peer
deriving DecidableEq

/-- The tables of an allocation in slot order; slots are never freed while the
allocation lives. -/
structure Allocation where
  client : Sockaddr
  perms : List Peer := []
  chans : List Channel := []
deriving DecidableEq

structure TurnServer where
  key : Option Bytes := none
  allocs : List (Option Allocation) := []
  allocCount : Nat := 0

inductive Event where
  | replied (client : Sockaddr) (method : Nat) (txn : Bytes) (code : Option Nat)
  | toPeer (client : Sockaddr) (channel : Option Nat) (peer : Sockaddr) (payload : Bytes)
  | toClient (client : Sockaddr) (peer : Sockaddr) (datagram : Bytes)
deriving DecidableEq

structure Outcome where
  server : TurnServer
  events : List Event := []
  consumed : Bool := true

def decodeXorAddr (v : Bytes) : Peer :=
  if v.length < 8 ∨ octet v 1 ≠ 1 then none
  else some (.inet (rd16 v 2 ^^^ kMagicCookie / 2 ^ 16) (rd32 v 4 ^^^ kMagicCookie))

def isChannelData (data : Bytes) : Bool :=
  decide (4 ≤ data.length) && decide (kChannelBase ≤ rd16 data 0) && decide (rd16 data 0 ≤ kChannelMax)

def kScratch : Nat := 2048

def verifyMi (hmac : Bytes → Bytes → Bytes) (m : Message) (key : Bytes) : Bool :=
  verifyIntegrity hmac kScratch m key

def store (cap : Nat) (x : α) (l : List α) : List α := if l.length < cap then l ++ [x] else l

/-- The relay compares the stored octets, so zeros match a source that is all zeros. -/
def storedMatches (peer : Peer) (source : Sockaddr) : Bool :=
  sameAddr (peer.getD (.inet 0 0)) source

/-- `Writer::xor_addr`: nothing is written for an address that is not IPv4. -/
def xorPeerAddress : Sockaddr → Bytes
  | .inet port ip =>
    wr16 Attr.xorPeerAddress ++ wr16 8 ++ [0, 1] ++ wr16 (port ^^^ kMagicCookie / 2 ^ 16) ++
      wr32 (ip ^^^ kMagicCookie)
  | .other _ => []

def channelData (number : Nat) (data : Bytes) : Bytes :=
  wr16 number ++ wr16 data.length ++ data.take 1532

def dataIndication (slot : Nat) (source : Sockaddr) (data : Bytes) : Bytes :=
  let payload := data.take 1280
  let attrs := xorPeerAddress source ++ wr16 Attr.data ++ wr16 payload.length ++ payload ++
    List.replicate (pad4 payload.length - payload.length) 0
  frame 0x0017 (UInt8.ofNat (slot + 1) :: List.replicate 11 0) attrs

namespace TurnServer

variable (s : TurnServer) (client : Sockaddr)

def ownedBy (a : Allocation) : Bool := sameAddr a.client client

def findAlloc : Option Allocation :=
  Slots.find (ownedBy client) s.allocs

/-- Gives the client a fresh allocation when it has none; `none` when the
table is full. -/
def obtainAlloc : Option TurnServer :=
  match s.findAlloc client with
  | some _ => some s
  | none =>
    if kMaxAllocations ≤ s.allocCount then none
    else
      (Slots.alloc { client } kMaxAllocations s.allocs).map fun allocs =>
        { s with allocs, allocCount := s.allocCount + 1 }

def verifyAuth (hmac : Bytes → Bytes → Bytes) (s : TurnServer) (m : Message) : Bool :=
  (m.find AttrType.username).isSome && (m.find Attr.realm).isSome && (m.find Attr.nonce).isSome &&
    s.key.any (verifyMi hmac m)

def onChannelData (data : Bytes) : Outcome :=
  match s.findAlloc client with
  | none => { server := s, consumed := false }
  | some a =>
    if data.length < 4 + rd16 data 2 then { server := s, consumed := false }
    else
      match a.chans.find? (·.number == rd16 data 0) with
      | none => { server := s, consumed := false }
      -- a peer of length 0 is refused by the socket
      | some ⟨_, none⟩ => { server := s }
      | some ⟨n, some peer⟩ =>
        { server := s, events := [.toPeer client (some n) peer ((data.drop 4).take (rd16 data 2))] }

variable (m : Message)

def onSendIndication : Outcome :=
  match s.findAlloc client, m.value Attr.xorPeerAddress, m.value Attr.data with
  | some _, some address, some payload =>
    match decodeXorAddr address with
    | none => { server := s }
    | some peer =>
      -- an empty attribute has no octets to send from
      if payload = [] then { server := s }
      else { server := s, events := [.toPeer client none peer payload] }
  | _, _, _ => { server := s }

def reply (code : Option Nat) : Event :=
  .replied client m.method m.transactionId code

def onAllocate : Outcome :=
  match s.obtainAlloc client with
  | none => { server := s, events := [reply client m (some 508)] }
  | some s => { server := s, events := [reply client m none] }

def change (f : Allocation → Allocation) : TurnServer :=
  { s with allocs := Slots.modifyFirst (ownedBy client) f s.allocs }

def onCreatePermission : Outcome :=
  match m.value Attr.xorPeerAddress with
  | none => { server := s, events := [reply client m none] }
  | some address =>
    let peer := decodeXorAddr address
    { server := s.change client fun a => { a with perms := store kMaxPermissions peer a.perms }
      events := [reply client m none] }

def onChannelBind : Outcome :=
  match m.value Attr.channelNumber, m.value Attr.xorPeerAddress with
  | some number, some address =>
    if number.length < 2 then { server := s, events := [reply client m none] }
    else
      let peer := decodeXorAddr address
      -- the first free slot, whether or not the number is bound already
      { server := s.change client fun a =>
          { a with
            chans := store kMaxChannels ⟨rd16 number 0, peer⟩ a.chans
            perms := store kMaxPermissions peer a.perms }
        events := [reply client m none] }
  | _, _ => { server := s, events := [reply client m none] }

def requestedLifetime : Nat :=
  match m.value Attr.lifetime with
  | none => 600
  | some v => if v.length < 4 then 600 else rd32 v 0

def onRefresh : Outcome :=
  if requestedLifetime m = 0 then
    { server :=
        { s with
          allocs := Slots.freeFirst (ownedBy client) s.allocs
          allocCount := s.allocCount - 1 }
      events := [reply client m none] }
  else { server := s, events := [reply client m none] }

def onAuthenticated : Outcome :=
  if m.method = Method.allocate then s.onAllocate client m
  else
    match s.findAlloc client with
    | none => { server := s, events := [reply client m (some 437)] }
    | some _ =>
      if m.method = Method.createPermission then s.onCreatePermission client m
      else if m.method = Method.channelBind then s.onChannelBind client m
      else if m.method = Method.refresh then s.onRefresh client m
      else { server := s }

/-- One datagram on the control socket. -/
def feed (hmac : Bytes → Bytes → Bytes) (s : TurnServer) (client : Sockaddr) (data : Bytes) : Outcome :=
  if isChannelData data then s.onChannelData client data
  else
    match parse data with
    | none => { server := s, consumed := false }
    | some m =>
      if m.method = Method.send ∧ m.cls = .indication then s.onSendIndication client m
      else if m.cls ≠ .request then { server := s }
      else if m.find AttrType.messageIntegrity = none ∨ s.verifyAuth hmac m = false then
        { server := s, events := [reply client m (some 401)] }
      else s.onAuthenticated client m

/-- The loop of `feed_relay` over the allocations from slot `slot` on. -/
def deliver (source : Sockaddr) (data : Bytes) : Nat → List (Option Allocation) → List Event
  | _, [] => []
  | slot, none :: l => deliver source data (slot + 1) l
  | slot, some a :: l =>
    match a.chans.find? (storedMatches ·.peer source) with
    | some c => [.toClient a.client source (channelData c.number data)]
    | none =>
      if a.perms.any (storedMatches · source) then
        [.toClient a.client source (dataIndication slot source data)]
      else deliver source data (slot + 1) l

def feedRelay (source : Sockaddr) (data : Bytes) : Outcome :=
  let events := deliver source data 0 s.allocs
  { server := s, events, consumed := !events.isEmpty }

end TurnServer

inductive Arrival where
  | control (client : Sockaddr) (data : Bytes)
  | relay (source : Sockaddr) (data : Bytes)

def TurnServer.arrive (hmac : Bytes → Bytes → Bytes) (s : TurnServer) : Arrival → Outcome
  | .control client data => s.feed hmac client data
  | .relay source data => s.feedRelay source data

/-- The datagrams of a run, each with the server it meets. -/
def steps (hmac : Bytes → Bytes → Bytes) : TurnServer → List Arrival → List (TurnServer × Arrival)
  | _, [] => []
  | s, x :: l => (s, x) :: steps hmac (s.arrive hmac x).server l

end BoltApi.WebRtc.Turn

import BoltApi.WebRtc.Stun

/-! # The full ICE agent

What `FullIceAgent` does with an inbound STUN message: requests are answered,
may settle a role conflict, discover a peer-reflexive candidate and nominate a
pair; responses to the agent's own checks move the pair whose transaction they
name. The agent sees the transport only through whether a datagram was sent. -/
namespace BoltApi.WebRtc.Ice
open Octets Wire Stun

inductive IceRole where
  | controlling
  | controlled
deriving DecidableEq

inductive PairState where
  | frozen
  | waiting
  | inProgress
  | succeeded
  | failed
deriving DecidableEq

structure LocalCandidate where
  priority : Nat
  base : Sockaddr

structure RemoteCandidate where
  priority : Nat
  addr : Sockaddr

structure CandidatePair where
  localIdx : Nat
  remoteIdx : Nat
  priority : Nat
  state : PairState
  nominated : Bool := false
  useCandidateSent : Bool := false
  txn : Option Bytes := none
  checkSentMs : Nat := 0
  retries : Nat := 0

structure FullIceAgent where
  role : IceRole
  tiebreaker : Nat
  ufrag : Bytes
  pwd : Bytes
  remoteUfrag : Bytes := []
  remotePwd : Bytes := []
  locals : List LocalCandidate := []
  remotes : List RemoteCandidate := []
  pairs : List CandidatePair := []
  haveNominated : Bool := false
  nominatedIdx : Nat := 0
  checksSent : Nat := 0
  checksOk : Nat := 0
  reqsHandled : Nat := 0
  roleConflicts : Nat := 0

inductive HandleResult where
  | ignored
  | request
  | response
  | errorResponse
  | roleConflict
  | nominated

def kMaxCandidates : Nat := 16

def kMaxPairs : Nat := 64

namespace AttrType

def priority : Nat := 0x0024

def useCandidate : Nat := 0x0025

def iceControlled : Nat := 0x8029

def iceControlling : Nat := 0x802A

end AttrType

def binding : Nat := 0x001

def pairPriority (controlling controlled : Nat) : Nat :=
  (min controlling controlled * 2 ^ 32 + max controlling controlled * 2 +
    if controlled < controlling then 1 else 0) % 2 ^ 64

def srflxPriority (component : Nat) : Nat := 100 * 2 ^ 24 + 65535 * 2 ^ 8 + (256 - component)

def IceRole.other : IceRole → IceRole
  | .controlling => .controlled
  | .controlled => .controlling

namespace FullIceAgent

variable (a : FullIceAgent)

def formPairsForRemote (remoteIdx remotePriority : Nat) : FullIceAgent :=
  let formed := a.locals.zipIdx.map fun (l, i) =>
    { localIdx := i
      remoteIdx
      priority :=
        match a.role with
        | .controlling => pairPriority l.priority remotePriority
        | .controlled => pairPriority remotePriority l.priority
      state := .waiting : CandidatePair }
  { a with pairs := a.pairs ++ formed.take (kMaxPairs - a.pairs.length) }

/-- Adds the source of a request as a remote candidate; `none` when the table
is full or the source is not IPv4. -/
def addPrflxRemote (peer : Sockaddr) (priority : Nat) : FullIceAgent × Option Nat :=
  if kMaxCandidates ≤ a.remotes.length then (a, none)
  else
    match peer with
    | .other _ => (a, none)
    | .inet _ _ =>
      let pri := if priority ≠ 0 then priority else srflxPriority 1
      let idx := a.remotes.length
      let a := { a with remotes := a.remotes ++ [RemoteCandidate.mk pri peer] }
      (a.formPairsForRemote idx pri, some idx)

def nominateRemote (remoteIdx : Nat) : FullIceAgent × Bool :=
  match a.pairs.findIdx? (·.remoteIdx == remoteIdx) with
  | none => (a, false)
  | some i =>
    let marked := { a with
      pairs := a.pairs.modify i fun p =>
        { p with
          nominated := true
          state := if p.state = .failed then .failed else .succeeded } }
    if a.haveNominated then (marked, false)
    else ({ marked with haveNominated := true, nominatedIdx := i }, true)

def requestAuthed (hmac : Bytes → Bytes → Bytes) (a : FullIceAgent) (m : Message) : Bool :=
  match m.value Stun.AttrType.username with
  | none => false
  | some user =>
    user.contains ':'.toUInt8 && user.takeWhile (· != ':'.toUInt8) == a.ufrag &&
      verifyMessageIntegrity hmac m a.pwd

def resolveRoleConflict (m : Message) : FullIceAgent × Bool :=
  let claim :=
    match a.role with
    | .controlling => m.value AttrType.iceControlling
    | .controlled => m.value AttrType.iceControlled
  match claim with
  | none => (a, false)
  | some v =>
    if v.length ≠ 8 then (a, false)
    else
      let theirs := rd32 v 0 * 2 ^ 32 + rd32 v 4
      let a := { a with roleConflicts := a.roleConflicts + 1 }
      match a.role with
      | .controlling =>
        (if a.tiebreaker < theirs then { a with role := .controlled } else a, true)
      | .controlled =>
        (if theirs ≤ a.tiebreaker then { a with role := .controlling } else a, true)

/-- The value `Message::priority` leaves in its zero-initialised output. -/
def inboundPriority (m : Message) : Nat :=
  match m.value AttrType.priority with
  | none => 0
  | some v => if v.length < 4 then 0 else rd32 v 0

/-- `send_request_success` fails for a peer that is not IPv4 and when the
transport does. -/
def sendRequestSuccess (peer : Sockaddr) (sent : Bool) : Bool :=
  match peer with
  | .inet _ _ => sent
  | .other _ => false

def onRequest (hmac : Bytes → Bytes → Bytes) (a : FullIceAgent) (peer : Sockaddr) (sent : Bool)
    (m : Message) : FullIceAgent × HandleResult :=
  if requestAuthed hmac a m = false then (a, .errorResponse)
  else
    let (a, conflict) := resolveRoleConflict { a with reqsHandled := a.reqsHandled + 1 } m
    let result := if conflict then .roleConflict else .request
    if sendRequestSuccess peer sent = false then (a, .errorResponse)
    else
      let (a, ridx) :=
        match a.remotes.findIdx? (sameAddr ·.addr peer) with
        | some i => (a, some i)
        | none => a.addPrflxRemote peer (inboundPriority m)
      match m.value AttrType.useCandidate, ridx with
      | some _, some i =>
        let (a, fresh) := a.nominateRemote i
        (a, if fresh then .nominated else result)
      | _, _ => (a, result)

def pairForTxn (txn : Bytes) : Option Nat :=
  a.pairs.findIdx? (·.txn == some txn)

def isRoleConflict (m : Message) : Bool :=
  match m.value Stun.AttrType.errorCode with
  | none => false
  | some v => decide (4 ≤ v.length) && octet v 2 == 4 && octet v 3 == 87

/-- An error response to the check of pair `i`: no integrity check is made. -/
def onErrorResponse (m : Message) (i : Nat) : FullIceAgent × HandleResult :=
  if isRoleConflict m then
    ({ a with
      roleConflicts := a.roleConflicts + 1
      role := a.role.other
      pairs := a.pairs.modify i fun p => { p with state := .waiting, txn := none } }, .roleConflict)
  else
    ({ a with pairs := a.pairs.modify i fun p => { p with state := .failed, txn := none } },
      .errorResponse)

/-- A success response to the check of pair `i`, which is `p`. -/
def onSuccessResponse (hmac : Bytes → Bytes → Bytes) (a : FullIceAgent) (peer : Sockaddr)
    (m : Message) (i : Nat) (p : CandidatePair) : FullIceAgent × HandleResult :=
  -- an agent that does not know the remote password takes any response
  if a.remotePwd ≠ [] ∧ verifyMessageIntegrity hmac m a.remotePwd = false then (a, .ignored)
  else if (a.remotes[p.remoteIdx]?).any (sameAddr ·.addr peer) = false then (a, .ignored)
  else
    let p := { p with state := .succeeded, txn := none }
    let a := { a with checksOk := a.checksOk + 1 }
    if p.useCandidateSent then
      let a := { a with pairs := a.pairs.set i { p with nominated := true } }
      if a.haveNominated then (a, .response)
      else ({ a with haveNominated := true, nominatedIdx := i }, .nominated)
    else ({ a with pairs := a.pairs.set i p }, .response)

def onResponse (hmac : Bytes → Bytes → Bytes) (a : FullIceAgent) (peer : Sockaddr) (m : Message) :
    FullIceAgent × HandleResult :=
  match a.pairForTxn m.transactionId with
  | none => (a, .ignored)
  | some i =>
    if m.cls = .errorResponse then a.onErrorResponse m i
    else
      match a.pairs[i]? with
      | none => (a, .ignored)
      | some p => a.onSuccessResponse hmac peer m i p

def onMessage (hmac : Bytes → Bytes → Bytes) (a : FullIceAgent) (peer : Sockaddr) (sent : Bool)
    (m : Message) : FullIceAgent × HandleResult :=
  if m.method ≠ binding then (a, .ignored)
  else
    match m.cls with
    | .request => a.onRequest hmac peer sent m
    | .indication => (a, .ignored)
    | .successResponse => a.onResponse hmac peer m
    | .errorResponse => a.onResponse hmac peer m

/-- One inbound datagram; `sent` is whether the transport takes the answer. -/
def handleStun (hmac : Bytes → Bytes → Bytes) (a : FullIceAgent) (peer : Sockaddr) (sent : Bool)
    (data : Bytes) : FullIceAgent × HandleResult :=
  match parse data with
  | none => (a, .ignored)
  | some m => a.onMessage hmac peer sent m

end FullIceAgent

end BoltApi.WebRtc.Ice

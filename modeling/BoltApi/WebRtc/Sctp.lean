import BoltApi.Lib.Slots
import BoltApi.WebRtc.Wire

/-! # SCTP associations

`SctpAssociation` of `webrtc/sctp.cpp`: the handshake, the receive path with its
bitmap, fragment store and reorder buffer, and the send path with
retransmission, congestion control and partial reliability.

Sequence numbers and tags are numbers below `2 ^ 32`. The arrays of slots are
lists of slots (`Lib.Slots`); a chunk is acknowledged by freeing its slot, so
`acked` is never set in a slot in use. Random numbers and the clock are
arguments, and `cur_now_ms_` is the clock of the call. What the association does
to the outside, and the bookkeeping a reader needs to talk about a run, is
appended to its `log`. -/
namespace BoltApi.WebRtc.Sctp
open Octets Lib Wire

def kSctpPort : Nat := 5000
def kSctpMaxPacket : Nat := 1280
def kSctpMaxStreams : Nat := 256
def kSctpMaxChunkData : Nat := 1100
def kSctpMaxRecvChunkData : Nat := 1500
def kSctpMaxMessage : Nat := 256 * 1024
def kSctpSendQueue : Nat := 512
def kSctpMaxReasm : Nat := 8
def kSctpRecvReorder : Nat := 64
def kSctpCookieLen : Nat := 32
def kSctpInitialRwnd : Nat := 1024 * 1024
def kSctpRtoInitialMs : Nat := 1000
def kSctpRtoMinMs : Nat := 100
def kSctpRtoMaxMs : Nat := 8000
def kSctpRtoAlphaShift : Nat := 3
def kSctpRtoBetaShift : Nat := 2
def kSctpFastRtxDup : Nat := 3
def kSctpMaxAssocRtx : Nat := 10
def kSctpMaxFrags : Nat := 512
def kRecvWindow : Nat := 4096
def kReasmSlabs : Nat := kSctpMaxReasm + kSctpRecvReorder
def kHdrLen : Nat := 12
def kDataHdr : Nat := 16
def kMaxGaps : Nat := 32
def kMaxStreamEntries : Nat := 16

def kDataFlagEnd : UInt8 := 0x01
def kDataFlagBegin : UInt8 := 0x02
def kDataFlagUnordered : UInt8 := 0x04

/-- The chunk types `feed` handles. -/
inductive ChunkType
  | data
  | init
  | initAck
  | sack
  | abort
  | cookieEcho
  | cookieAck
  | forwardTsn
  deriving DecidableEq

def ChunkType.code : ChunkType → UInt8
  | .data => 0
  | .init => 1
  | .initAck => 2
  | .sack => 3
  | .abort => 6
  | .cookieEcho => 10
  | .cookieAck => 11
  | .forwardTsn => 192

/-- Every other type falls to the `default` of the switch. -/
def ChunkType.ofCode : Nat → Option ChunkType
  | 0 => some .data
  | 1 => some .init
  | 2 => some .initAck
  | 3 => some .sack
  | 6 => some .abort
  | 10 => some .cookieEcho
  | 11 => some .cookieAck
  | 192 => some .forwardTsn
  | _ => none

/-! ## Sequence numbers -/

def pad4 (n : Nat) : Nat := (n + 3) / 4 * 4

def tsnAdd (a n : Nat) : Nat := (a + n) % 2 ^ 32

def tsnSub (a b : Nat) : Nat := (a + 2 ^ 32 - b) % 2 ^ 32

def tsnLt (a b : Nat) : Bool := 2 ^ 31 ≤ tsnSub a b

def tsnLe (a b : Nat) : Bool := a == b || tsnLt a b

def tsnGt (a b : Nat) : Bool := tsnLt b a

/-- `a - b` in 16 bits is not negative as a signed number. -/
def ssnAhead (a b : Nat) : Bool := (a + 2 ^ 16 - b) % 2 ^ 16 < 0x8000

/-! ## The association -/

inductive Role
  | passive
  | active
  deriving DecidableEq

inductive State
  | closed
  | cookieWait
  | cookieEchoed
  | established
  | failed
  deriving DecidableEq

structure SctpReliability where
  unordered : Bool := false
  rexmitLimited : Bool := false
  timeLimited : Bool := false
  maxRetransmits : Nat := 0
  maxLifetimeMs : Nat := 0
  deriving DecidableEq

def SctpReliability.reliable (unordered : Bool) : SctpReliability := { unordered := unordered }

structure OutChunk where
  sent : Bool := false
  abandoned : Bool := false
  flags : UInt8
  streamId : Nat
  ssn : Nat
  tsn : Nat
  missCount : Nat := 0
  rtxCount : Nat := 0
  sentAtMs : Nat := 0
  rttPending : Bool := false
  payloadLen : Nat
  relRexmit : Bool
  relTimed : Bool
  relMaxRtx : Nat
  expiryMs : Nat
  packet : Bytes

structure InPending where
  streamId : Nat
  ssn : Nat
  ppid : Nat
  data : Bytes

structure InFrag where
  tsn : Nat
  streamId : Nat
  ssn : Nat
  ppid : Nat
  flags : UInt8
  data : Bytes

/-- A user message, with the mode it is sent in. -/
structure Message where
  streamId : Nat
  ppid : Nat
  unordered : Bool
  data : Bytes
  deriving DecidableEq

inductive Event
  | accepted (tsn n : Nat) (rel : SctpReliability) (m : Message)
  | shipped (packet : Bytes)
  | sacked (cum : Nat) (ranges : List (Nat × Nat))
  | abandoned (tsn : Nat)
  | delivered (m : Message)
  deriving DecidableEq

structure Assoc where
  role : Role := .passive
  state : State := .closed
  localTag : Nat
  peerTag : Nat := 0
  nextTsn : Nat
  cumAckIn : Nat := 0
  haveCumAck : Bool := false
  peerInitTsn : Nat := 0
  localInitTsn : Nat
  outSsn : List Nat := List.replicate kSctpMaxStreams 0
  peerRwnd : Nat := kSctpInitialRwnd
  advAckPoint : Nat
  needForwardTsn : Bool := false
  recvBitmap : BitVec kRecvWindow := 0
  srttMs : Nat := 0
  rttvarMs : Nat := 0
  haveRtt : Bool := false
  rtoMs : Nat := kSctpRtoInitialMs
  t3DeadlineMs : Nat := 0
  t3Running : Bool := false
  consecutiveTimeouts : Nat := 0
  cwnd : Nat := 4 * kSctpMaxPacket
  ssthresh : Nat := kSctpInitialRwnd
  flightSize : Nat := 0
  partialBytesAcked : Nat := 0
  outRing : List (Option OutChunk) := []
  inNextSsn : List Nat := List.replicate kSctpMaxStreams 0
  inPending : List (Option InPending) := []
  infrag : List (Option InFrag) := []
  slabs : Nat := 0
  rtxCount : Nat := 0
  log : List Event := []

/-- `init`, with the two random numbers it draws. -/
def init (role : Role) (tag tsn : Nat) : Assoc :=
  { role := role, localTag := tag, nextTsn := tsn, localInitTsn := tsn, advAckPoint := tsnSub tsn 1 }

/-- What the association is given: the checksum of the library and the sink of
this call. -/
structure Env where
  crc32c : Bytes → Nat
  sink : Bytes → Bool

variable (env : Env)

/-! Assignments the handlers share. -/

variable (now : Nat) (a : Assoc)

def Assoc.note (ev : Event) : Assoc := { a with log := a.log ++ [ev] }

def Assoc.become (st : State) : Assoc := { a with state := st }

def Assoc.setRing (ring : List (Option OutChunk)) : Assoc := { a with outRing := ring }

def Assoc.setFrags (frags : List (Option InFrag)) : Assoc := { a with infrag := frags }

def Assoc.takeSlab : Assoc := { a with slabs := a.slabs + 1 }

def Assoc.freeSlab : Assoc := { a with slabs := a.slabs - 1 }

def Assoc.skipTo (tsn : Nat) : Assoc :=
  if tsnGt tsn a.advAckPoint then { a with advAckPoint := tsn } else a

def Assoc.startT3 (now : Nat) : Assoc :=
  { a with t3DeadlineMs := now + a.rtoMs, t3Running := true }

def Assoc.stopT3 : Assoc := { a with t3Running := false }

/-! ## Packets -/

def sctpCrc32c (p : Bytes) : Nat :=
  if p.length < kHdrLen then 0 else env.crc32c (p.take 8 ++ [0, 0, 0, 0] ++ p.drop kHdrLen)

def crcField (n : Nat) : Bytes :=
  [UInt8.ofNat n, UInt8.ofNat (n / 2 ^ 8), UInt8.ofNat (n / 2 ^ 16), UInt8.ofNat (n / 2 ^ 24)]

/-- `write_common_header` and the checksum in front of the chunk. -/
def framePacket (tag : Nat) (chunk : Bytes) : Bytes :=
  let head := wr16 kSctpPort ++ wr16 kSctpPort ++ wr32 tag
  head ++ crcField (sctpCrc32c env (head ++ [0, 0, 0, 0] ++ chunk)) ++ chunk

def chunkOf (t : ChunkType) (flags : UInt8) (value : Bytes) : Bytes :=
  [t.code, flags] ++ wr16 (4 + value.length) ++ value

def emit (p : Bytes) : Bool × Assoc :=
  if env.sink p then (true, a.note (.shipped p)) else (false, a)

/-- `ship_packet`, of a packet with the common header for the tag. -/
def shipPacket (tag : Nat) (chunk : Bytes) : Bool × Assoc :=
  if kSctpMaxPacket < kHdrLen + chunk.length then (false, a)
  else emit env a (framePacket env tag chunk)

/-! ## Handshake emitters -/

def forwardTsnSupported : Bytes := wr16 0xC000 ++ wr16 4

def initValue : Bytes :=
  wr32 a.localTag ++ wr32 kSctpInitialRwnd ++ wr16 kSctpMaxStreams ++ wr16 kSctpMaxStreams ++
    wr32 a.localInitTsn

def sendInit : Bool × Assoc :=
  let r := shipPacket env a 0 (chunkOf .init 0 (initValue a ++ forwardTsnSupported))
  if r.1 then (true, r.2.become .cookieWait) else r

def connect : Bool × Assoc :=
  if a.role ≠ .active ∨ a.state ≠ .closed then (false, a) else sendInit env a

def stateCookie : Bytes :=
  wr32 a.localTag ++ wr32 a.peerTag ++ wr32 a.peerInitTsn ++ wr32 a.localInitTsn ++
    List.replicate 16 0

def Assoc.setPeer (tag tsn rwnd : Nat) : Assoc :=
  { a with
    peerTag := tag
    peerInitTsn := tsn
    cumAckIn := tsnSub tsn 1
    haveCumAck := true
    peerRwnd := rwnd }

def initAckChunk : Bytes :=
  chunkOf .initAck 0
    (initValue a ++ wr16 7 ++ wr16 (4 + kSctpCookieLen) ++ stateCookie a ++ forwardTsnSupported)

def sendInitAck (peerInitTag peerInitTsn peerRwnd : Nat) : Assoc :=
  let a := a.setPeer peerInitTag peerInitTsn peerRwnd
  (shipPacket env a a.peerTag (initAckChunk a)).2

def sendCookieEcho (cookie : Bytes) : Assoc :=
  let c := chunkOf .cookieEcho 0 (cookie.take kSctpCookieLen)
  let r := shipPacket env a a.peerTag (c ++ List.replicate (pad4 c.length - c.length) 0)
  if r.1 then r.2.become .cookieEchoed else r.2

def sendCookieAck : Assoc := (shipPacket env a a.peerTag (chunkOf .cookieAck 0 [])).2

def sendAbort : Assoc := (shipPacket env a a.peerTag (chunkOf .abort 0 [])).2

def abortAssoc : Assoc := (sendAbort env a).become .failed

/-! ## TSN bookkeeping of the receiver -/

def Assoc.setTsns (cum : Nat) (bits : BitVec kRecvWindow) : Assoc :=
  { a with cumAckIn := cum, recvBitmap := bits }

def tsnReceived (tsn : Nat) : Bool :=
  if !a.haveCumAck then false
  else if tsnLe tsn a.cumAckIn then true
  else
    let off := tsnSub (tsnSub tsn a.cumAckIn) 1
    if kRecvWindow ≤ off then false else a.recvBitmap.getLsbD off

def recordReceived (tsn : Nat) : Option Assoc :=
  if !a.haveCumAck then none
  else if tsnLe tsn a.cumAckIn then none
  else
    let off := tsnSub (tsnSub tsn a.cumAckIn) 1
    if kRecvWindow ≤ off then none
    else if a.recvBitmap.getLsbD off then none
    else some (a.setTsns a.cumAckIn (a.recvBitmap ||| BitVec.twoPow kRecvWindow off))

def frontRun (bit : Nat → Bool) : Nat → Nat → Nat
  | 0, i => i
  | n + 1, i => if bit i then frontRun bit n (i + 1) else i

def advanceCumAck : Assoc :=
  if !a.haveCumAck then a
  else
    let run := frontRun a.recvBitmap.getLsbD kRecvWindow 0
    a.setTsns (tsnAdd a.cumAckIn run) (a.recvBitmap >>> run)

/-- The loop of `send_sack`: how many offsets are left, the offset, the start of
the run it is in, and the blocks so far. -/
def gapLoop (seen : Nat → Bool) : Nat → Nat → Option Nat → List (Nat × Nat) → List (Nat × Nat)
  | 0, _, _, blocks => blocks
  | n + 1, off, run, blocks =>
    let run := if seen off && run.isNone then some off else run
    match run with
    | none => gapLoop seen n (off + 1) none blocks
    | some start =>
      if seen off && n != 0 then gapLoop seen n (off + 1) (some start) blocks
      else
        let blocks := blocks ++ [(start, if seen off then off else off - 1)]
        if kMaxGaps ≤ blocks.length then blocks else gapLoop seen n (off + 1) none blocks

def gapBlocks : List (Nat × Nat) :=
  gapLoop (fun off => tsnReceived a (tsnAdd a.cumAckIn off)) kRecvWindow 1 none []

def sackChunk (cum : Nat) (gaps : List (Nat × Nat)) : Bytes :=
  chunkOf .sack 0 (wr32 cum ++ wr32 kSctpInitialRwnd ++ wr16 gaps.length ++ wr16 0 ++
    gaps.flatMap fun g => wr16 g.1 ++ wr16 g.2)

def sendSack : Assoc :=
  if !a.haveCumAck then a
  else (shipPacket env a a.peerTag (sackChunk a.cumAckIn (gapBlocks a))).2

/-! ## Handshake handlers

A handler gets the packet from its chunk on, as the source's do. -/

variable (o : OutChunk) (chunk : Bytes)

def handleInit : Assoc :=
  if chunk.length < 4 + 16 then a
  else if rd32 chunk 4 = 0 then a.become .failed
  else sendInitAck env a (rd32 chunk 4) (rd32 chunk 16) (rd32 chunk 8)

def findCookie (chunk : Bytes) (chunkLen : Nat) : Nat → Nat → Option Bytes
  | 0, _ => none
  | fuel + 1, off =>
    if off + 4 ≤ chunkLen ∧ off + 4 ≤ chunk.length then
      let plen := rd16 chunk (off + 2)
      if plen < 4 ∨ chunk.length < off + plen then none
      else if rd16 chunk off = 7 then some ((chunk.drop (off + 4)).take (plen - 4))
      else findCookie chunk chunkLen fuel (off + pad4 plen)
    else none

def handleInitAck : Assoc :=
  if a.role ≠ .active ∨ a.state ≠ .cookieWait then a
  else if chunk.length < 4 + 16 then a
  else
    let a := a.setPeer (rd32 chunk 4) (rd32 chunk 16) (rd32 chunk 8)
    if a.peerTag = 0 then a.become .failed
    else
      -- every parameter is at least four octets long
      match findCookie chunk (rd16 chunk 2) chunk.length (4 + 16) with
      | none => a.become .failed
      | some [] => a.become .failed
      | some cookie => sendCookieEcho env a cookie

def Assoc.restore (peerTag peerTsn localTsn : Nat) : Assoc :=
  { a with
    peerTag := peerTag
    peerInitTsn := peerTsn
    localInitTsn := localTsn
    nextTsn := localTsn
    advAckPoint := tsnSub localTsn 1
    cumAckIn := tsnSub peerTsn 1
    haveCumAck := true }

def handleCookieEcho : Assoc :=
  if rd16 chunk 2 < 4 + 16 ∨ chunk.length < 4 + 16 then a.become .failed
  else if rd32 chunk 4 ≠ a.localTag then a.become .failed
  else
    (sendCookieAck env (a.restore (rd32 chunk 8) (rd32 chunk 12) (rd32 chunk 16))).become
      .established

def handleCookieAck : Assoc :=
  if a.role = .active ∧ a.state = .cookieEchoed then a.become .established else a

/-! ## Delivery -/

variable (sid : Nat)

def Assoc.nextSsn : Nat := a.inNextSsn.getD sid 0

def Assoc.setNextSsn (ssn : Nat) : Assoc :=
  { a with inNextSsn := a.inNextSsn.set sid ssn }

def Assoc.handOver (m : Message) : Assoc :=
  (a.note (.delivered m)).setNextSsn m.streamId ((a.nextSsn m.streamId + 1) % 2 ^ 16)

def Assoc.setPending (slots : List (Option InPending)) : Assoc :=
  { a with inPending := slots }

def InPending.message (p : InPending) : Message :=
  { streamId := p.streamId, ppid := p.ppid, unordered := false, data := p.data }

/-- The loop of `deliver_ordered`; every turn frees a slot of the reorder
buffer. -/
def deliverLoop (sid : Nat) : Nat → Assoc → Assoc
  | 0, a => a
  | fuel + 1, a =>
    let ready := fun p : InPending => p.streamId == sid && p.ssn == a.nextSsn sid
    match Slots.find ready a.inPending with
    | none => a
    | some p =>
      deliverLoop sid fuel
        (((a.handOver p.message).freeSlab).setPending (Slots.freeFirst ready a.inPending))

def deliverOrdered (a : Assoc) : Assoc := deliverLoop sid a.inPending.length a

def onFullMessage (m : Message) (ssn : Nat) : Assoc :=
  let next := a.nextSsn m.streamId
  if m.unordered then a.note (.delivered m)
  else if ssn = next then
    deliverOrdered m.streamId (a.handOver m)
  else if ssnAhead ssn next then
    let p : InPending := { streamId := m.streamId, ssn := ssn, ppid := m.ppid, data := m.data }
    match Slots.alloc p kSctpRecvReorder a.inPending with
    -- the reorder buffer is full: the message is dropped
    | none => a
    | some slots =>
      if kReasmSlabs ≤ a.slabs then abortAssoc env a
      else a.takeSlab.setPending slots
  else a

variable (f : InFrag)

def ingestFragment : Assoc :=
  if kSctpMaxRecvChunkData < f.data.length then abortAssoc env a
  else if (Slots.find (·.tsn == f.tsn) a.infrag).isSome then a
  else
    match Slots.alloc f kSctpMaxFrags a.infrag with
    | none => abortAssoc env a
    | some slots => a.setFrags slots

inductive Walk
  | gap
  | tooLong
  | complete (run : List InFrag)

/-- The walk from a fragment to the end of its message: how many fragments may
still come, the TSN wanted, the octets so far and the fragments so far. -/
def walkRun (frags : List (Option InFrag)) : Nat → Nat → Nat → List InFrag → Walk
  | 0, _, _, _ => .gap
  | n + 1, want, total, run =>
    match Slots.find (·.tsn == want) frags with
    | none => .gap
    | some f =>
      if kSctpMaxMessage < total + f.data.length then .tooLong
      else if f.flags &&& kDataFlagEnd ≠ 0 then .complete (run ++ [f])
      else walkRun frags n (tsnAdd want 1) (total + f.data.length) (run ++ [f])

/-- The first message a turn of `drain_fragments` finds, in slot order. -/
def firstRun (frags : List (Option InFrag)) : List (Option InFrag) → Walk
  | [] => .gap
  | none :: l => firstRun frags l
  | some b :: l =>
    if b.flags &&& kDataFlagBegin = 0 then firstRun frags l
    else
      match walkRun frags (kSctpMaxFrags + 1) b.tsn 0 [] with
      | .gap => firstRun frags l
      | w => w

def InFrag.unordered : Bool := f.flags &&& kDataFlagUnordered ≠ 0

def runMessage (b : InFrag) (run : List InFrag) : Message :=
  { streamId := b.streamId, ppid := b.ppid, unordered := b.unordered,
    data := run.flatMap (·.data) }

def dropRun (run : List InFrag) (frags : List (Option InFrag)) : List (Option InFrag) :=
  run.foldl (fun l f => Slots.freeFirst (·.tsn == f.tsn) l) frags

/-- The loop of `drain_fragments`; every turn takes a message out of the
store. -/
def drainLoop : Nat → Assoc → Assoc
  | 0, a => a
  | fuel + 1, a =>
    match firstRun a.infrag a.infrag with
    | .gap => a
    | .tooLong => abortAssoc env a
    | .complete [] => a
    | .complete (b :: run) =>
      if kReasmSlabs ≤ a.slabs then abortAssoc env a
      else
        drainLoop fuel (onFullMessage env (a.takeSlab.setFrags (dropRun (b :: run) a.infrag))
          (runMessage b (b :: run)) b.ssn).freeSlab

def drainFragments : Assoc := drainLoop env (a.infrag.length + 1) a

/-- The DATA chunk `handle_data` reads, if it takes it. -/
def dataOf : Option InFrag :=
  let chunkLen := rd16 chunk 2
  if chunk.length < kDataHdr then none
  else if chunkLen < kDataHdr ∨ chunk.length < chunkLen then none
  else if kSctpMaxStreams ≤ rd16 chunk 8 then none
  else if kSctpMaxRecvChunkData < chunkLen - kDataHdr then none
  else some
    { tsn := rd32 chunk 4
      streamId := rd16 chunk 8
      ssn := rd16 chunk 10
      ppid := rd32 chunk 12
      flags := chunk.getD 1 0
      data := (chunk.drop kDataHdr).take (chunkLen - kDataHdr) }

def InFrag.whole : Bool :=
  f.flags &&& kDataFlagBegin ≠ 0 && f.flags &&& kDataFlagEnd ≠ 0

/-- What `handle_data` does with a chunk whose TSN is new. -/
def acceptData : Assoc :=
  if f.whole then
    sendSack env (drainFragments env
      (onFullMessage env (advanceCumAck a) (runMessage f [f]) f.ssn))
  else
    let a := ingestFragment env a f
    if a.state = .failed then a else sendSack env (drainFragments env (advanceCumAck a))

def handleData : Assoc :=
  match dataOf chunk with
  | none => a
  | some f =>
    match recordReceived a f.tsn with
    | none => sendSack env a
    | some a => acceptData env a f

/-! ## FORWARD-TSN -/

/-- `steps` calls of `record_received` from `cum_ack_in_ + k` on. -/
def recordRange : Nat → Nat → Assoc → Assoc
  | 0, _, a => a
  | steps + 1, k, a => recordRange steps (k + 1) ((recordReceived a (tsnAdd a.cumAckIn k)).getD a)

def skipSsn (ssn : Nat) : Assoc :=
  if sid < kSctpMaxStreams then
    let target := (ssn + 1) % 2 ^ 16
    deliverOrdered sid
      (if ssnAhead target (a.nextSsn sid) then a.setNextSsn sid target else a)
  else a

def skipLoop (chunk : Bytes) (chunkLen : Nat) : Nat → Nat → Assoc → Assoc
  | 0, _, a => a
  | fuel + 1, off, a =>
    if off + 4 ≤ chunkLen then
      skipLoop chunk chunkLen fuel (off + 4) (skipSsn a (rd16 chunk off) (rd16 chunk (off + 2)))
    else a

/-- The part of `handle_forward_tsn` that moves the cumulative TSN. -/
def skipTsn (newCum : Nat) : Assoc :=
  if tsnGt newCum a.cumAckIn then
    let span := tsnSub newCum a.cumAckIn
    let a := advanceCumAck (recordRange (min span kRecvWindow) 1 a)
    a.setFrags (Slots.freeWhere (fun f => tsnLe f.tsn a.cumAckIn) a.infrag)
  else a

def handleForwardTsn : Assoc :=
  let chunkLen := rd16 chunk 2
  if chunk.length < 8 then a
  else if chunkLen < 8 ∨ chunk.length < chunkLen then a
  else if !a.haveCumAck then a
  else sendSack env (skipLoop chunk chunkLen chunkLen 8 (skipTsn a (rd32 chunk 4)))

/-! ## The sender: SACKs -/

def signed32 (n : Nat) : Int := if n < 2 ^ 31 then n else n - 2 ^ 32

def updateRto (rtt : Nat) : Assoc :=
  let (srtt, rttvar) :=
    if !a.haveRtt then (rtt, rtt / 2)
    else
      let absErr := (signed32 a.srttMs - signed32 rtt).natAbs
      ((a.srttMs - a.srttMs >>> kSctpRtoAlphaShift + rtt >>> kSctpRtoAlphaShift) % 2 ^ 32,
        (a.rttvarMs - a.rttvarMs >>> kSctpRtoBetaShift + absErr >>> kSctpRtoBetaShift) % 2 ^ 32)
  let rto := (srtt + 4 * rttvar) % 2 ^ 32
  { a with
    srttMs := srtt
    rttvarMs := rttvar
    haveRtt := true
    rtoMs := min (max rto kSctpRtoMinMs) kSctpRtoMaxMs }

def Assoc.land (n : Nat) : Assoc :=
  if n ≤ a.flightSize then { a with flightSize := a.flightSize - n } else a

/-- `on_data_acked`, apart from freeing the slot; only chunks in flight get
here. -/
def onDataAcked : Assoc :=
  let a := a.land o.payloadLen
  if o.rttPending && o.rtxCount == 0 && o.sentAtMs ≤ now then
    updateRto a ((now - o.sentAtMs) % 2 ^ 32)
  else a

def ackWhere (p : OutChunk → Bool) : List OutChunk × Assoc :=
  let hit := fun o : OutChunk => o.sent && p o
  let acked := (a.outRing.filterMap id).filter hit
  (acked, (acked.foldl (onDataAcked now) a).setRing (Slots.freeWhere hit a.outRing))

def gapRanges (chunk : Bytes) (cum : Nat) : Nat → Nat → List (Nat × Nat)
  | 0, _ => []
  | n + 1, off =>
    if off + 4 ≤ chunk.length then
      (tsnAdd cum (rd16 chunk off), tsnAdd cum (rd16 chunk (off + 2))) ::
        gapRanges chunk cum n (off + 4)
    else []

def inRange (g : Nat × Nat) (tsn : Nat) : Bool := tsnLe g.1 tsn && tsnLe tsn g.2

def countMisses (highest : Nat) (a : Assoc) : Bool × Assoc :=
  let missed := fun o : OutChunk => o.sent && tsnLt o.tsn highest
  let bump := fun o : OutChunk =>
    if missed o then { o with missCount := (o.missCount + 1) % 2 ^ 32 } else o
  (a.outRing.any fun o => o.any fun o => missed o && (bump o).missCount == kSctpFastRtxDup,
    a.setRing (a.outRing.map (Option.map bump)))

def nextCwnd (acked : Nat) : Nat × Nat :=
  if a.cwnd ≤ a.ssthresh then
    ((a.cwnd + min acked kSctpMaxPacket) % 2 ^ 32, a.partialBytesAcked)
  else
    let counted := (a.partialBytesAcked + acked) % 2 ^ 32
    if a.cwnd ≤ counted then ((a.cwnd + kSctpMaxPacket) % 2 ^ 32, counted - a.cwnd)
    else (a.cwnd, counted)

def Assoc.progress (cwnd counted : Nat) : Assoc :=
  { a with cwnd := cwnd, partialBytesAcked := counted, consecutiveTimeouts := 0 }

def growCwnd (now acked : Nat) (a : Assoc) : Assoc :=
  let grown := a.progress (nextCwnd a acked).1 (nextCwnd a acked).2
  if 0 < grown.flightSize then grown.startT3 now else grown.stopT3

/-- A chunk is given up: `adv_ack_point_` moves to its TSN if that is ahead. -/
def giveUp : Assoc × OutChunk :=
  (((if o.sent then a.land o.payloadLen else a).skipTo o.tsn).note (.abandoned o.tsn),
    { o with abandoned := true })

def Assoc.countRtx : Assoc := { a with rtxCount := a.rtxCount + 1 }

def resend : Assoc × OutChunk :=
  if kHdrLen ≤ o.packet.length then
    ((emit env a o.packet).2.countRtx,
      { o with rtxCount := (o.rtxCount + 1) % 2 ^ 32, rttPending := false, missCount := 0 })
  else (a, o)

def skipEntries (ring : List (Option OutChunk)) : List (Nat × Nat) :=
  (ring.filterMap id).foldl (fun es o =>
    if !o.abandoned || o.flags &&& kDataFlagUnordered ≠ 0 then es
    else if es.any (·.1 == o.streamId) then
      es.map fun e => if e.1 = o.streamId && ssnAhead o.ssn e.2 then (e.1, o.ssn) else e
    else if es.length < kMaxStreamEntries then es ++ [(o.streamId, o.ssn)]
    else es) []

def forwardTsnChunk (cum : Nat) (es : List (Nat × Nat)) : Bytes :=
  chunkOf .forwardTsn 0 (wr32 cum ++ es.flatMap fun e => wr16 e.1 ++ wr16 e.2)

def Assoc.needForward (need : Bool) : Assoc := { a with needForwardTsn := need }

def sendForwardTsn : Assoc :=
  (shipPacket env (a.needForward false) a.peerTag
    (forwardTsnChunk a.advAckPoint (skipEntries a.outRing))).2

def announceSkip : Assoc :=
  (sendForwardTsn env (a.needForward true)).setRing
    (Slots.freeWhere (fun o => o.abandoned && tsnLe o.tsn a.advAckPoint) a.outRing)

def OutChunk.missing : Bool := o.sent && kSctpFastRtxDup ≤ o.missCount

def OutChunk.spent : Bool := o.relRexmit && o.relMaxRtx ≤ o.rtxCount

def sweepRing (f : Assoc → OutChunk → Assoc × OutChunk) (a : Assoc) : Assoc :=
  (Slots.sweep f a a.outRing).1.setRing (Slots.sweep f a a.outRing).2

def Assoc.anyChunk (p : OutChunk → Bool) : Bool := a.outRing.any fun o => o.any p

def Assoc.setWindow (ssthresh cwnd : Nat) : Assoc :=
  { a with ssthresh := ssthresh, cwnd := cwnd, partialBytesAcked := 0 }

def Assoc.halfWindow : Nat := max (a.cwnd / 2) (4 * kSctpMaxPacket)

def fastStep : Assoc × OutChunk :=
  if !o.missing then (a, o) else if o.spent then giveUp a o else resend env a o

def fastRetransmit : Assoc :=
  let a := a.setWindow a.halfWindow a.halfWindow
  let swept := sweepRing (fastStep env) a
  if a.anyChunk fun o => o.missing && o.spent then announceSkip env swept else swept

/-! ## The sender: new data -/

def lowestSlot (p : OutChunk → Bool) (ring : List (Option OutChunk)) : Option (Nat × OutChunk) :=
  ring.zipIdx.foldl (fun best (o, i) =>
    match o, best with
    | some o, none => if p o then some (i, o) else none
    | some o, some (j, b) => if p o && tsnLt o.tsn b.tsn then some (i, o) else some (j, b)
    | none, best => best) none

def Assoc.cwndLimit : Nat := if 0 < a.cwnd then a.cwnd else 4 * kSctpMaxPacket

def Assoc.launch (now i : Nat) (o : OutChunk) : Assoc :=
  let a := { a with
    outRing := a.outRing.set i
      (some { o with sent := true, sentAtMs := now, rttPending := true })
    flightSize := (a.flightSize + o.payloadLen) % 2 ^ 32 }
  if a.t3Running then a else a.startT3 now

/-- The loop of `flush_send`; every turn sends a chunk for the first time. -/
def flushLoop (now : Nat) : Nat → Assoc → Assoc
  | 0, a => a
  | fuel + 1, a =>
    match lowestSlot (fun o => !o.sent && !o.abandoned) a.outRing with
    | none => a
    | some (i, o) =>
      if a.cwndLimit ≤ a.flightSize then a
      else if a.peerRwnd ≠ 0 ∧ a.peerRwnd < a.flightSize + o.payloadLen ∧ 0 < a.flightSize then a
      else if o.packet.length < kHdrLen then a
      else
        let r := emit env a o.packet
        if !r.1 then r.2 else flushLoop now fuel (r.2.launch now i o)

def flushSend : Assoc :=
  if a.state ≠ .established then a else flushLoop env now a.outRing.length a

def ackTests (cum : Nat) (ranges : List (Nat × Nat)) : List (OutChunk → Bool) :=
  (fun o => tsnLe o.tsn cum) :: ranges.map fun g o => inRange g o.tsn

def ackAll (tests : List (OutChunk → Bool)) : List OutChunk × Assoc :=
  tests.foldl (fun r p => (r.1 ++ (ackWhere now r.2 p).1, (ackWhere now r.2 p).2)) ([], a)

def sackRanges : List (Nat × Nat) :=
  gapRanges chunk (rd32 chunk 4) (rd16 chunk 12) 16

def setRwnd (rwnd : Nat) : Assoc := { a with peerRwnd := rwnd }

/-- `handle_sack` up to the fast retransmission: whether a chunk was missed for
the third time, and the association behind acknowledgements and misses. -/
def takeSack : Bool × Assoc :=
  let cum := rd32 chunk 4
  let ranges := sackRanges chunk
  let acks := ackAll now ((setRwnd a (rd32 chunk 8)).note (.sacked cum ranges))
    (ackTests cum ranges)
  let highest := ranges.foldl (fun h g => if tsnGt g.2 h then g.2 else h) cum
  let r := countMisses highest acks.2
  (r.1, if acks.1.isEmpty then r.2
    else growCwnd now ((acks.1.map (·.payloadLen)).sum % 2 ^ 32) r.2)

def handleSack : Assoc :=
  if chunk.length < 4 + 12 then a
  else
    let r := takeSack now a chunk
    flushSend env now ((if r.1 then fastRetransmit env r.2 else r.2).skipTo (rd32 chunk 4))

/-! ## Timers -/

def OutChunk.lost : Bool := o.sent && !o.abandoned && o.spent

def backOff : Assoc :=
  { a with
    ssthresh := a.halfWindow
    cwnd := kSctpMaxPacket
    partialBytesAcked := 0
    rtoMs := min (a.rtoMs * 2) kSctpRtoMaxMs
    consecutiveTimeouts := a.consecutiveTimeouts + 1 }

def t3Step : Assoc × OutChunk :=
  if o.lost then giveUp (a.needForward true) o else (a, o)

def resendLowest : Option (Nat × OutChunk) → Assoc
  | none => a.stopT3
  | some (i, o) =>
    let r := resend env a o
    (r.1.setRing (r.1.outRing.set i (some r.2))).startT3 now

def onT3Timeout : Assoc :=
  let a := backOff a
  if kSctpMaxAssocRtx < a.consecutiveTimeouts then abortAssoc env a
  else
    let swept := sweepRing t3Step a
    resendLowest env now (if swept.needForwardTsn then announceSkip env swept else swept)
      (lowestSlot (fun o => o.sent && !o.abandoned) swept.outRing)

def OutChunk.expired : Bool :=
  !o.abandoned &&
    (o.relRexmit && o.relMaxRtx < o.rtxCount || o.relTimed && o.expiryMs != 0 && o.expiryMs ≤ now)

def expireStep : Assoc × OutChunk :=
  if o.expired now then giveUp a o else (a, o)

def abandonExpired : Assoc :=
  let swept := sweepRing (expireStep now) a
  if a.anyChunk (·.expired now) then announceSkip env swept else swept

def Assoc.t3Due : Bool := a.t3Running && a.t3DeadlineMs ≤ now

def Assoc.inFlight : Bool := a.anyChunk (·.sent)

def tickT3 : Assoc :=
  if a.t3Due now then
    if a.inFlight then onT3Timeout env now a else a.stopT3
  else a

def tick : Nat × Assoc :=
  if a.state ≠ .established then (0, a)
  else
    let driven := tickT3 env now (abandonExpired env now a)
    if driven.state = .failed then (0, driven)
    else
      let flushed := flushSend env now driven
      (flushed.rtxCount - a.rtxCount, flushed)

/-! ## Calls -/

def handleChunk : Assoc :=
  match ChunkType.ofCode (octet chunk 0) with
  | some .init => handleInit env a chunk
  | some .initAck => handleInitAck env a chunk
  | some .cookieEcho => handleCookieEcho env a chunk
  | some .cookieAck => handleCookieAck a
  | some .data => handleData env a chunk
  | some .sack => handleSack env now a chunk
  | some .forwardTsn => handleForwardTsn env a chunk
  | some .abort => a.become .failed
  | none => a

/-- The loop of `feed` over the chunks; each is at least four octets long. -/
def feedLoop (now : Nat) : Nat → Assoc → Bytes → Bool × Assoc
  | 0, a, _ => (true, a)
  | fuel + 1, a, rest =>
    let clen := rd16 rest 2
    if rest.length < 4 then (true, a)
    else if clen < 4 then (true, a)
    else if rest.length < clen then (true, a)
    else
      let a := handleChunk env now a rest
      if a.state = .failed then (false, a) else feedLoop now fuel a (rest.drop (pad4 clen))

def rdCrc (p : Bytes) : Nat :=
  octet p 8 + octet p 9 * 2 ^ 8 + octet p 10 * 2 ^ 16 + octet p 11 * 2 ^ 24

def feed (p : Bytes) : Bool × Assoc :=
  if a.state = .failed then (false, a)
  else if p.length < kHdrLen then (true, a)
  else if rdCrc p ≠ sctpCrc32c env p then (true, a)
  else feedLoop env now p.length a (p.drop kHdrLen)

def dataChunk : Bytes :=
  let c := chunkOf .data f.flags
    (wr32 f.tsn ++ wr16 f.streamId ++ wr16 f.ssn ++ wr32 f.ppid ++ f.data)
  c ++ List.replicate (pad4 c.length - c.length) 0

/-- Nothing when the ring is full. A fragment of `send` always fits a packet, so its
checksum is always stored. -/
def enqueueChunk (rel : SctpReliability) (a : Assoc) (f : InFrag) : Option Assoc :=
  let o : OutChunk :=
    { flags := f.flags
      streamId := f.streamId
      ssn := f.ssn
      tsn := f.tsn
      payloadLen := f.data.length
      relRexmit := rel.rexmitLimited
      relTimed := rel.timeLimited
      relMaxRtx := rel.maxRetransmits
      expiryMs := if rel.timeLimited && 0 < rel.maxLifetimeMs then now + rel.maxLifetimeMs else 0
      packet := framePacket env a.peerTag (dataChunk f) }
  (Slots.alloc o kSctpSendQueue a.outRing).map a.setRing

def fragCount (data : Bytes) : Nat :=
  if data = [] then 1 else (data.length + kSctpMaxChunkData - 1) / kSctpMaxChunkData

def fragFlags (unordered : Bool) (n i : Nat) : UInt8 :=
  (if unordered then kDataFlagUnordered else 0) |||
    (if i = 0 then kDataFlagBegin else 0) ||| (if i = n - 1 then kDataFlagEnd else 0)

def fragment (m : Message) (ssn tsn i : Nat) : InFrag :=
  { tsn := tsnAdd tsn i
    streamId := m.streamId
    ssn := ssn
    ppid := m.ppid
    flags := fragFlags m.unordered (fragCount m.data) i
    data := (m.data.drop (i * kSctpMaxChunkData)).take kSctpMaxChunkData }

def Assoc.nextChunk : Assoc := { a with nextTsn := tsnAdd a.nextTsn 1 }

def Assoc.bumpSsn (ssn : Nat) : Assoc :=
  { a with outSsn := a.outSsn.set sid ((ssn + 1) % 2 ^ 16) }

def enqueueLoop (now : Nat) (rel : SctpReliability) (m : Message) (ssn tsn : Nat) :
    Nat → Nat → Assoc → Option Assoc
  | 0, _, a => some a
  | n + 1, i, a =>
    (enqueueChunk env now rel a (fragment m ssn tsn i)).bind fun a =>
      enqueueLoop now rel m ssn tsn n (i + 1) a.nextChunk

def send (ppid : Nat) (data : Bytes) (rel : SctpReliability) : Bool × Assoc :=
  if a.state ≠ .established then (false, a)
  else if kSctpMaxStreams ≤ sid then (false, a)
  else if kSctpMaxMessage < data.length then (false, a)
  else if kSctpSendQueue - Slots.used a.outRing < fragCount data then (false, a)
  else
    let m : Message := { streamId := sid, ppid := ppid, unordered := rel.unordered, data := data }
    let ssn := if rel.unordered then 0 else a.outSsn.getD sid 0
    match enqueueLoop env now rel m ssn a.nextTsn (fragCount data) 0 a with
    -- not reached: there are enough free slots
    | none => (false, a)
    | some queued =>
      let queued := if rel.unordered then queued else queued.bumpSsn sid ssn
      (true, flushSend env now (queued.note (.accepted a.nextTsn (fragCount data) rel m)))

end BoltApi.WebRtc.Sctp

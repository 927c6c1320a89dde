import BoltApi.WebRtc.Srtcp

/-! # The relay

`WebRtcPeerHub` of `webrtc/peer_hub.cpp` in relay mode: RTP from one peer is forwarded
to every other keyed peer, protected under that peer's outbound session, and kept for
retransmission, either resent as it is or as an RTX packet. -/
namespace BoltApi.WebRtc.Relay
open Octets Wire Srtp

def kMaxPeers : Nat := 64
def kMediaScratch : Nat := 2048
def kMaxTracks : Nat := 16
def kNackCacheDepth : Nat := 256
def kMaxNackResendPkt : Nat := 1100
def kRtxOsnLen : Nat := 2

/-- The RTP and RTCP codecs the hub calls: `rtp::parse` with the payload it finds,
`rtp::serialize` of a packet's header with another payload type, SSRC and sequence
number before a payload, and the packets asked for by the NACKs of a compound that
`rtcp::parse_compound` accepts. -/
structure Codec where
  parse : Bytes → Option Bytes
  serialize : Bytes → Nat → Nat → Nat → Bytes → Option Bytes
  nacks : Bytes → Option (List (Nat × Nat))

/-! ## Retransmission -/

structure Cached where
  packet : Bytes
  ssrc : Nat
  seq : Nat

structure Cache where
  slots : List Cached := []
  head : Nat := 0

def Cache.add (c : Cache) (x : Cached) : Cache where
  slots := if c.slots.length < kNackCacheDepth then c.slots ++ [x] else c.slots.set c.head x
  head := (c.head + 1) % kNackCacheDepth

structure RtxConfig where
  mediaSsrc : Nat
  rtxSsrc : Nat
  rtxPt : Nat

/-- `NackResponder`, or `RtxInterceptor` with the next sequence number of its stream. -/
inductive Recovery
  | resend (cache : Cache)
  | rtx (config : RtxConfig) (cache : Cache) (rtxSeq : Nat)

def Recovery.onOutboundRtp (r : Recovery) (data : Bytes) : Recovery :=
  let x : Cached := ⟨data, rd32 data 8, rd16 data 2⟩
  if kMaxNackResendPkt < data.length then r
  else
    match r with
    | .resend cache => .resend (cache.add x)
    | .rtx config cache rtxSeq =>
      if x.ssrc ≠ config.mediaSsrc then r else .rtx config (cache.add x) rtxSeq

/-! ## Peers -/

structure Media where
  suiteIn : Suite
  rtcpIn : RtcpSuite
  suiteOut : Suite
  inbound : Session := {}
  outbound : Session := {}
  recovery : Recovery
  tracks : List Nat := []

/-- `by_ssrc`, and `add` for an SSRC without a track; `none` when the table is full. -/
def Media.trackFor (m : Media) (ssrc : Nat) : Option Media :=
  if ssrc ∈ m.tracks then some m
  else if m.tracks.length < kMaxTracks then some { m with tracks := m.tracks ++ [ssrc] }
  else none

/-- An RTP packet that was protected: for whom, and under what. -/
structure Sealed where
  subscriber : Nat
  ssrc : Nat
  roc : Nat
  seq : Nat
  packet : Bytes

structure Hub where
  peers : List Media := []
  log : List Sealed := []

def Hub.setPeer (hub : Hub) (k : Nat) (m : Media) : Hub := { hub with peers := hub.peers.set k m }

def sealedAs (k : Nat) (t : Session) (data : Bytes) : Option Sealed :=
  (parseRtp data).bind fun v => (t.slotFor v.ssrc).map fun (s, _) =>
    { subscriber := k, ssrc := v.ssrc, roc := senderRoc s v.seq, seq := v.seq, packet := data }

def sendRtpProtected (hub : Hub) (k : Nat) (data : Bytes) : Hub :=
  match hub.peers[k]? with
  | none => hub
  | some m =>
    match protectRtp m.suiteOut m.outbound data kMediaScratch with
    | (.error _, t) => hub.setPeer k { m with outbound := t }
    | (.ok _, t) =>
      { hub.setPeer k { m with outbound := t } with
        log := hub.log ++ (sealedAs k m.outbound data).toList }

section
variable (codec : Codec)

def sendRtp (hub : Hub) (k : Nat) (data : Bytes) : Hub :=
  match hub.peers[k]? with
  | none => hub
  | some m =>
    if (codec.parse data).isNone then hub
    else
      sendRtpProtected (hub.setPeer k { m with recovery := m.recovery.onOutboundRtp data }) k data

def forwardRtpToOthers (hub : Hub) (src : Nat) (plain : Bytes) : Hub :=
  (List.range hub.peers.length).foldl
    (fun hub q => if q = src then hub else sendRtp codec hub q plain) hub

/-- `try_resend` and `send_rtx` for one packet a NACK asks for. -/
def answerNack (k : Nat) (hub : Hub) (ask : Nat × Nat) : Hub :=
  match hub.peers[k]? with
  | none => hub
  | some m =>
    match m.recovery with
    | .resend cache =>
      match cache.slots.find? fun x => x.ssrc == ask.1 && x.seq == ask.2 with
      | none => hub
      | some x => sendRtpProtected hub k x.packet
    | .rtx config cache rtxSeq =>
      if ask.1 ≠ config.mediaSsrc then hub
      else
        match cache.slots.find? fun x => x.seq == ask.2 with
        | none => hub
        | some x =>
          match codec.parse x.packet with
          | none => hub
          | some payload =>
            if kMaxNackResendPkt < kRtxOsnLen + payload.length then hub
            else
              let osn : Bytes := [UInt8.ofNat (ask.2 / 256), UInt8.ofNat (ask.2 % 256)]
              let hub' := hub.setPeer k
                { m with recovery := .rtx config cache ((rtxSeq + 1) % 2 ^ 16) }
              match codec.serialize x.packet config.rtxPt config.rtxSsrc rtxSeq (osn ++ payload) with
              | none => hub'
              | some out => sendRtpProtected hub' k out

def isRtcp (data : Bytes) : Bool :=
  2 ≤ data.length ∧ octet data 0 / 64 = 2 ∧ 64 ≤ octet data 1 % 128 ∧ octet data 1 % 128 ≤ 95

def feedMedia (hub : Hub) (k : Nat) (data : Bytes) : Hub :=
  match hub.peers[k]? with
  | none => hub
  | some m =>
    if isRtcp data then
      match unprotectRtcp m.rtcpIn m.inbound data kMediaScratch with
      | (.error _, t) => hub.setPeer k { m with inbound := t }
      | (.ok plain, t) =>
        (codec.nacks plain).getD [] |>.foldl (answerNack codec k)
          (hub.setPeer k { m with inbound := t })
    else
      match unprotectRtp m.suiteIn m.inbound data kMediaScratch with
      | (.error _, t) => hub.setPeer k { m with inbound := t }
      | (.ok plain, t) =>
        let m := { m with inbound := t }
        let hub := hub.setPeer k m
        if (codec.parse plain).isNone then hub
        else
          match m.trackFor (rd32 plain 8) with
          | none => hub
          | some m => forwardRtpToOthers codec (hub.setPeer k m) k plain

/-! ## Runs -/

/-- A peer gets its keys, a media datagram of a peer arrives, or the application writes
to a track of a peer. -/
inductive Op
  | key (m : Media)
  | media (k : Nat) (data : Bytes)
  | write (k : Nat) (data : Bytes)

def ensureMedia (hub : Hub) (m : Media) : Hub :=
  if hub.peers.length < kMaxPeers then
    { hub with peers := hub.peers ++ [{ m with inbound := {}, outbound := {} }] }
  else hub

def step (hub : Hub) : Op → Hub
  | .key m => ensureMedia hub m
  | .media k data => feedMedia codec hub k data
  | .write k data => sendRtp codec hub k data

def run (ops : List Op) : Hub := ops.foldl (step codec) {}

end

end BoltApi.WebRtc.Relay

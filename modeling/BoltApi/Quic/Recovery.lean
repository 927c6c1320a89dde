import Mathlib.Algebra.Group.Int.Defs
import Mathlib.Algebra.GroupWithZero.Nat
import Mathlib.Data.List.Basic
import Mathlib.Logic.Function.Basic

/-! # Sent packets and loss recovery

The sent-packet trackers of `quic/loss.h` and what `quic/connection.h` does with them:
`record_sent`, `process_ack`, `detect_loss`, the probe timeout, `speed_up_handshake`,
`discard_space` and the bulk resets. The congestion window itself is left out; what is
kept is `bytes_in_flight_`, which every one of these adjusts. -/
namespace BoltApi.Quic

/-- `PacketNumberSpace`. -/
inductive Space where
  | initial
  | handshake
  | application
deriving DecidableEq

def kMaxSentPackets : Nat := 256

inductive ControlFrame where
  | handshakeDone
  | maxData (limit : Nat)
  | maxStreamData (id limit : Nat)
  | maxStreams (uni : Bool) (limit : Nat)
  | resetStream (id err finalSize : Nat)
  | dataBlocked (limit : Nat)
  | streamDataBlocked (id limit : Nat)
deriving DecidableEq

/-- `SentPacketInfo`, with the control frames that its `ctrl_flags` stand for. -/
structure SentPacket where
  pn : Nat
  timeSent : Nat
  size : Nat
  ackEliciting : Bool
  inFlight : Bool := ackEliciting
  acked : Bool := false
  lost : Bool := false
  carried : List ControlFrame := []
deriving DecidableEq

namespace SentPacket

def unresolved (s : SentPacket) : Bool := !s.acked && !s.lost && s.ackEliciting

def markAcked (s : SentPacket) : SentPacket := { s with acked := true, inFlight := false }

def markLost (s : SentPacket) : SentPacket := { s with lost := true, inFlight := false }

end SentPacket

structure RttEstimator where
  latest : Nat := 0
  smoothed : Nat := 333000
  minRtt : Option Nat := none

/-- `on_rtt_sample`. The delay is the peer's, so the sums with it wrap; the clock's
microseconds stay far from 2^64. -/
def RttEstimator.onRttSample (e : RttEstimator) (rtt ackDelay : Nat) : RttEstimator :=
  match e.minRtt with
  | none => { latest := rtt, smoothed := rtt, minRtt := some rtt }
  | some low =>
    let low := min low rtt
    let adjusted :=
      if (low + ackDelay) % 2 ^ 64 ≤ rtt then (rtt + 2 ^ 64 - ackDelay) % 2 ^ 64 else rtt
    { latest := rtt, smoothed := (7 * e.smoothed + adjusted) / 8, minRtt := some low }

def RttEstimator.lossDelay (e : RttEstimator) : Nat :=
  max (9 * max e.smoothed e.latest / 8) 1000

/-- The fields of an ACK frame that `process_ack` reads; `ranges` are gap and length. -/
structure AckFrame where
  largestAcked : Nat
  firstAckRange : Nat
  ranges : List (Nat × Nat) := []
  ackDelay : Nat := 0
deriving DecidableEq

/-- The further ranges below `smallest`, down to the first malformed one. -/
def AckFrame.descend (smallest : Nat) : List (Nat × Nat) → List (Nat × Nat)
  | [] => []
  | (gap, length) :: rest =>
    if smallest < gap + 2 then []
    else
      let hi := smallest - (gap + 2)
      if hi < length then [] else (hi - length, hi) :: descend (hi - length) rest

def AckFrame.bounds (a : AckFrame) : List (Nat × Nat) :=
  (a.largestAcked - a.firstAckRange, a.largestAcked) ::
    descend (a.largestAcked - a.firstAckRange) a.ranges

/-- The part of a connection that keeps track of what it sent. -/
structure Recovery where
  sent : Space → List SentPacket := fun _ => []
  nextPn : Space → Nat := fun _ => 0
  largestAcked : Space → Option Nat := fun _ => none
  timeLargestAckedSent : Nat := 0
  rtt : RttEstimator := {}
  bytesInFlight : Nat := 0
  discarded : Space → Bool := fun _ => false
  requeued : List (List ControlFrame) := []

namespace Recovery

/-! ## Resolving packets -/

variable (r : Recovery) (sp : Space)

/-- A loop over a tracker that marks the packets it picks and takes those in flight
out of `bytes_in_flight_` (`sub_in_flight` stops at zero, as natural numbers do). -/
def resolve (picks : SentPacket → Bool) (mark : SentPacket → SentPacket) : Recovery :=
  { r with
    sent := Function.update r.sent sp ((r.sent sp).map fun s => if picks s then mark s else s)
    bytesInFlight := r.bytesInFlight -
      (((r.sent sp).filter fun s => picks s && s.inFlight).map SentPacket.size).sum }

def lose (picks : SentPacket → Bool) : Recovery :=
  { r.resolve sp picks SentPacket.markLost with
    requeued := r.requeued ++ ((r.sent sp).filter picks).map SentPacket.carried }

def evict : Recovery :=
  match r.sent sp with
  | [] => r
  | old :: rest =>
    if rest.length + 1 = kMaxSentPackets then
      { r with
        sent := Function.update r.sent sp rest
        bytesInFlight := r.bytesInFlight - if old.inFlight then old.size else 0
        requeued := if old.unresolved then r.requeued ++ [old.carried] else r.requeued }
    else r

/-- `SentPacketTracker::record` with room, and the packet's bytes. -/
def track (s : SentPacket) : Recovery :=
  { r with
    sent := Function.update r.sent sp (r.sent sp ++ [s])
    bytesInFlight := r.bytesInFlight + if s.ackEliciting then s.size else 0 }

/-- `record_sent`. A packet that did not go out has its byte ranges sent again but
loses its flags. -/
def recordSent (s : SentPacket) : Recovery :=
  if s.size = 0 then { r with requeued := r.requeued ++ [[]] }
  else (r.evict sp).track sp s

def advance : Recovery :=
  { r with nextPn := Function.update r.nextPn sp (r.nextPn sp + 1) }

/-- The packet that is built next in a space. -/
def packet (now wire : Nat) (ackEliciting : Bool)
    (carried : List ControlFrame) : SentPacket :=
  { pn := r.nextPn sp, timeSent := now, size := wire, ackEliciting, carried }

/-- A packet is numbered, sent and recorded. -/
def send (now wire : Nat) (ackEliciting : Bool)
    (carried : List ControlFrame) : Recovery :=
  (r.advance sp).recordSent sp (r.packet sp now wire ackEliciting carried)

def inRange (lo hi : Nat) (s : SentPacket) : Bool := lo ≤ s.pn && s.pn ≤ hi && !s.acked && !s.lost

/-- `ack_range`, with the RTT sample if the largest packet is among them. -/
def ackRange (largest now : Nat) (r : Recovery × Option Nat) (bound : Nat × Nat) :
    Recovery × Option Nat :=
  let next := r.1.resolve sp (inRange bound.1 bound.2) SentPacket.markAcked
  match (r.1.sent sp).find? fun s => inRange bound.1 bound.2 s && s.pn == largest with
  | some s =>
    ({ next with timeLargestAckedSent := s.timeSent },
      if s.ackEliciting then some (now - s.timeSent) else r.2)
  | none => (next, r.2)

/-- The test of `detect_loss`; before anything is acknowledged it finds nothing. -/
def overdue (s : SentPacket) : Bool :=
  match r.largestAcked sp with
  | none => false
  | some largest =>
    s.unresolved && s.pn < largest &&
      (s.pn + 3 ≤ largest || s.timeSent + r.rtt.lossDelay ≤ r.timeLargestAckedSent)

def detectLoss : Recovery := r.lose sp (r.overdue sp)

def acknowledge (a : AckFrame) (now : Nat) : Recovery :=
  let (r, sample) := a.bounds.foldl (ackRange sp a.largestAcked now) (r, none)
  match sample with
  | some rtt => if 0 < rtt then { r with rtt := r.rtt.onRttSample rtt (a.ackDelay * 8 % 2 ^ 64) } else r
  | none => r

/-- The frame passes the tests of `handle_ack`; otherwise the connection closes. -/
def acceptable (a : AckFrame) : Bool :=
  a.firstAckRange ≤ a.largestAcked && a.largestAcked < r.nextPn sp

/-- `on_largest_acked`. -/
def raise (pn : Nat) : Recovery :=
  { r with
    largestAcked := Function.update r.largestAcked sp
      (some (max pn ((r.largestAcked sp).getD 0))) }

/-- `handle_ack` without the loss detection at its end. -/
def beforeLoss (a : AckFrame) (now : Nat) : Recovery :=
  (r.raise sp a.largestAcked).acknowledge sp a now

def handleAck (a : AckFrame) (now : Nat) : Recovery :=
  if r.acceptable sp a then (r.beforeLoss sp a now).detectLoss sp else r

def discardSpace : Recovery :=
  if r.discarded sp then r
  else { r.resolve sp (fun _ => true) SentPacket.markAcked with
    discarded := Function.update r.discarded sp true }

/-- One space of `maybe_pto_expire` whose timer has run out: the oldest unresolved
packet is taken as lost. -/
def expire : Recovery :=
  match (r.sent sp).find? SentPacket.unresolved with
  | some old => r.lose sp fun s => s.unresolved && s.pn == old.pn
  | none => r

/-- `maybe_promote_state` on reaching the established state. -/
def establish : Recovery :=
  { r with bytesInFlight := 0 }.discardSpace .handshake

/-- `restart_handshake`. -/
def restart : Recovery :=
  { r with
    sent := fun _ => []
    nextPn := fun _ => 0
    largestAcked := fun _ => none
    discarded := fun _ => false }

/-- What a connection does to its recovery state. -/
inductive Event where
  | send (sp : Space) (now wire : Nat) (ackEliciting : Bool) (carried : List ControlFrame)
  | ack (sp : Space) (a : AckFrame) (now : Nat)
  | pto (sp : Space)
  | speedUp
  | discard (sp : Space)
  | establish
  | restart

def step : Event → Recovery
  | .send sp now wire ackEliciting carried => r.send sp now wire ackEliciting carried
  | .ack sp a now => r.handleAck sp a now
  | .pto sp => r.expire sp
  | .speedUp => (r.lose .initial SentPacket.unresolved).lose .handshake SentPacket.unresolved
  | .discard sp => r.discardSpace sp
  | .establish => r.establish
  | .restart => r.restart

def run (events : List Event) : Recovery := events.foldl step {}

theorem run_append (events : List Event) (ev : Event) :
    run (events ++ [ev]) = (run events).step ev := by simp [run]

end Recovery
end BoltApi.Quic

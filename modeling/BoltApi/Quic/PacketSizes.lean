import BoltApi.Quic.ControlFrames

/-! # Sizes of packets and datagrams

`AckRangeTracker` of `quic/ack.h` and the lengths of what `flush` of `quic/connection.h`
assembles. An ACK is appended whatever its length once 64 bytes are left, and a Retry
token is no part of the budget for the payload. -/
namespace BoltApi.Quic
open List

def kMaxDatagramSize : Nat := 1500
def kInitialMinDatagram : Nat := 1200
def kCryptoChunk : Nat := 1024
def kMaxStreamChunk : Nat := kMaxPayloadSize
def kMaxTrackedRanges : Nat := 256
def kMaxFrameRangesPerPacket : Nat := 4
def kAeadTagLength : Nat := 16

/-! ## ACK frames -/

/-- `AckRangeTracker::record` on ranges of start and end in descending order. -/
def record (ranges : List (Nat × Nat)) (pn : Nat) : List (Nat × Nat) :=
  let above := ranges.takeWhile fun r => pn < r.1
  let below := ranges.dropWhile fun r => pn < r.1
  if below.head?.any fun r => pn ≤ r.2 then ranges
  else
    match above.getLast?.filter fun r => pn + 1 == r.1, below.head?.filter fun r => pn == r.2 + 1 with
    | some a, some b => above.dropLast ++ (b.1, a.2) :: below.tail
    | some a, none => above.dropLast ++ (pn, a.2) :: below
    | none, some b => above ++ (b.1, pn) :: below.tail
    | none, none =>
      -- a full tracker drops its lowest range, or the new one if that is the lowest
      if ranges.length = kMaxTrackedRanges then
        if below = [] then ranges else (above ++ (pn, pn) :: below).dropLast
      else above ++ (pn, pn) :: below

def received (pns : List Nat) : List (Nat × Nat) := pns.foldl record []

def gaps (prevSmallest : Nat) : List (Nat × Nat) → List (Nat × Nat)
  | [] => []
  | r :: rest => (prevSmallest - r.2 - 2, r.2 - r.1) :: gaps r.1 rest

def buildAckFrame : List (Nat × Nat) → Option AckFrame
  | [] => none
  | r :: rest => some { largestAcked := r.2, firstAckRange := r.2 - r.1, ranges := gaps r.1 rest }

def AckFrame.size (a : AckFrame) : Nat :=
  1 + varintSize a.largestAcked + varintSize a.ackDelay + varintSize a.ranges.length +
    varintSize a.firstAckRange + (a.ranges.map fun r => varintSize r.1 + varintSize r.2).sum

def maybeAppendAck (due : Bool) (pns : List Nat) (cap : Nat) : Nat :=
  match buildAckFrame (received pns) with
  | some a => if due && 64 ≤ cap then a.size else 0
  | none => 0

/-! ### The longest ACK -/

def ackWorst (pns : List Nat) : Nat := 4 + 2 * varintSize (pns.max?.getD 0) * (received pns).length

theorem varintSize_mono {v w : Nat} (h : v ≤ w) : varintSize v ≤ varintSize w := by
  unfold varintSize
  split_ifs <;> omega

def Below (top : Nat) (ranges : List (Nat × Nat)) : Prop := ∀ r ∈ ranges, r.1 ≤ top ∧ r.2 ≤ top

/-- Ranges that the tracker has room for, up to a packet number. -/
def Within (top : Nat) (ranges : List (Nat × Nat)) : Prop :=
  ranges.length ≤ kMaxTrackedRanges ∧ Below top ranges

variable {top : Nat} {ranges : List (Nat × Nat)}

theorem Within.record {pn} (h : Within top ranges) (hpn : pn ≤ top) : Within top (record ranges pn) := by
  have hsplit : ranges.takeWhile (fun r => pn < r.1) ++ ranges.dropWhile (fun r => pn < r.1) = ranges :=
    takeWhile_append_dropWhile
  obtain ⟨hlen, hle⟩ := h
  unfold Quic.record
  generalize ranges.takeWhile (fun r => pn < r.1) = above at hsplit ⊢
  generalize ranges.dropWhile (fun r => pn < r.1) = below at hsplit ⊢
  subst hsplit
  rw [length_append] at hlen
  obtain ⟨habove, hbelow⟩ := forall_mem_append.mp hle
  have hfront : Below top above.dropLast := fun r hr => habove r ((dropLast_sublist _).subset hr)
  have hback : Below top below.tail := fun r hr => hbelow r (mem_of_mem_tail hr)
  have hinsert : ∀ {l m : List (Nat × Nat)} {r}, Below top l → r.1 ≤ top ∧ r.2 ≤ top → Below top m →
      Below top (l ++ r :: m) :=
    fun hl hr hm => forall_mem_append.mpr ⟨hl, forall_mem_cons.mpr ⟨hr, hm⟩⟩
  simp only
  split
  · exact ⟨by rwa [length_append], hle⟩
  split
  · rename_i a b ha hb
    obtain ⟨ha, -⟩ := Option.filter_eq_some_iff.mp ha
    obtain ⟨hb, -⟩ := Option.filter_eq_some_iff.mp hb
    refine ⟨?_, hinsert hfront ⟨(hbelow b (mem_of_mem_head? hb)).1, (habove a (mem_of_getLast? ha)).2⟩ hback⟩
    rw [length_append, length_dropLast, length_cons, length_tail]
    have := length_pos_of_mem (mem_of_mem_head? hb)
    omega
  · rename_i a ha hb
    obtain ⟨ha, -⟩ := Option.filter_eq_some_iff.mp ha
    refine ⟨?_, hinsert hfront ⟨hpn, (habove a (mem_of_getLast? ha)).2⟩ hbelow⟩
    rw [length_append, length_dropLast, length_cons]
    have := length_pos_of_mem (mem_of_getLast? ha)
    omega
  · rename_i b ha hb
    obtain ⟨hb, -⟩ := Option.filter_eq_some_iff.mp hb
    refine ⟨?_, hinsert habove ⟨(hbelow b (mem_of_mem_head? hb)).1, hpn⟩ hback⟩
    rw [length_append, length_cons, length_tail]
    have := length_pos_of_mem (mem_of_mem_head? hb)
    omega
  have hnew := hinsert habove (r := (pn, pn)) ⟨hpn, hpn⟩ hbelow
  split
  · split
    · exact ⟨by rwa [length_append], hle⟩
    · refine ⟨?_, fun r hr => hnew r ((dropLast_sublist _).subset hr)⟩
      rw [length_dropLast, length_append, length_cons]
      omega
  rename_i hfull
  refine ⟨?_, hnew⟩
  rw [length_append] at hfull ⊢
  rw [length_cons]
  omega

theorem received_within (pns : List Nat) : Within (pns.max?.getD 0) (received pns) :=
  foldlRecOn pns _ ⟨Nat.zero_le _, nofun⟩ fun _ h _ hpn => h.record (le_max?_getD_of_mem hpn)

theorem gaps_size {w prev} (hw : varintSize top ≤ w) (hprev : prev ≤ top) (h : Below top ranges) :
    (gaps prev ranges).length = ranges.length ∧
      ((gaps prev ranges).map fun r => varintSize r.1 + varintSize r.2).sum ≤ 2 * w * ranges.length := by
  induction ranges generalizing prev with
  | nil => exact ⟨rfl, Nat.zero_le _⟩
  | cons r ranges ih =>
    obtain ⟨⟨hlo, hhi⟩, hrest⟩ := forall_mem_cons.mp h
    obtain ⟨hlen, hsum⟩ := ih hlo hrest
    have h1 := varintSize_mono (show prev - r.2 - 2 ≤ top by omega)
    have h2 := varintSize_mono (show r.2 - r.1 ≤ top by omega)
    simp only [gaps, map_cons, sum_cons, length_cons, hlen, Nat.mul_succ]
    exact ⟨trivial, by omega⟩

theorem maybeAppendAck_le (due : Bool) (pns : List Nat) (cap : Nat) :
    maybeAppendAck due pns cap ≤ if due then ackWorst pns else 0 := by
  obtain ⟨hlen, hle⟩ := received_within pns
  unfold maybeAppendAck ackWorst
  cases hrs : received pns with
  | nil => exact Nat.zero_le _
  | cons r rest =>
    rw [hrs] at hlen hle
    obtain ⟨⟨hlo, hhi⟩, hrest⟩ := forall_mem_cons.mp hle
    obtain ⟨hcount, hsum⟩ := gaps_size (le_refl _) hlo hrest
    have hlargest := varintSize_mono hhi
    have hfirst := varintSize_mono (show r.2 - r.1 ≤ pns.max?.getD 0 by omega)
    have hnumber : varintSize rest.length ≤ 2 := by
      simp only [length_cons, kMaxTrackedRanges] at hlen
      exact varintSize_mono (show rest.length ≤ 256 by omega)
    have hdelay : varintSize 0 = 1 := rfl
    cases due with
    | false => simp [buildAckFrame]
    | true =>
      simp only [buildAckFrame, AckFrame.size, hcount, hdelay, Bool.true_and, decide_eq_true_eq, if_true,
        length_cons, Nat.mul_succ]
      split <;> omega

/-! ### The control frames of a flush -/

namespace Control

def load (c : Control) : Nat := (c.windows.filter (·.dirty)).length + c.resets.length

def Adds (c : Control) (out : List ControlFrame) (r : Control × List ControlFrame) (k : Nat) : Prop :=
  r.2.length + r.1.load ≤ out.length + c.load + k

theorem Adds.trans {c out r r' k k'} (h : Adds c out r k) (h' : Adds r.1 r.2 r' k') : Adds c out r' (k + k') := by
  unfold Adds at *
  omega

variable (c : Control) (out : List ControlFrame)

theorem adds_one {b : Prop} [Decidable b] {c'} (f : ControlFrame) (h : load c' = load c) :
    Adds c out (if b then (c', out ++ [f]) else (c, out)) 1 := by
  split
  · simp only [Adds, h, length_append, length_singleton]
    omega
  · exact Nat.le_succ _

theorem frameHandshakeDone_adds : Adds c out (c.frameHandshakeDone out) 1 := adds_one c out _ rfl

theorem frameMaxData_adds : Adds c out (c.frameMaxData out) 1 := adds_one c out _ rfl

theorem frameCredit_adds (uni : Bool) : Adds c out (c.frameCredit uni out) 1 := adds_one c out _ rfl

theorem frameWindows_adds (ws : List Window) (out : List ControlFrame) :
    (frameWindows ws out).2.1.length + ((frameWindows ws out).1.filter (·.dirty)).length =
      out.length + (ws.filter (·.dirty)).length := by
  induction ws generalizing out with
  | nil => rfl
  | cons w ws ih =>
    unfold frameWindows
    split
    · rename_i hd
      split
      · have h := ih (out ++ [.maxStreamData w.id w.recvMax])
        simp only [length_append, length_singleton] at h
        simp only [filter_cons, hd, if_true, Bool.false_eq_true, if_false, length_cons]
        omega
      · rfl
    · rename_i hd
      simpa only [filter_cons, hd, Bool.false_eq_true, if_false] using ih out

theorem frameStreamData_adds : Adds c out (c.frameStreamData out) 0 := by
  have h := frameWindows_adds c.windows out
  unfold frameStreamData
  split <;> simp only [Adds, load] <;> omega

theorem frameBlocked_adds (conn : Option Nat) (blocked : List (Nat × Nat)) :
    Adds c out (c.frameBlocked conn blocked out) (1 + blocked.length) := by
  have hloop : ∀ out : List ControlFrame, (blocked.foldl (fun out s =>
      if room out 18 then out ++ [.streamDataBlocked s.1 s.2] else out) out).length ≤ out.length + blocked.length := by
    induction blocked with
    | nil => exact fun _ => le_rfl
    | cons s blocked ih =>
      intro out
      refine (ih _).trans ?_
      dsimp only
      split
      · simp only [length_append, length_cons, length_nil]
        omega
      · exact Nat.add_le_add_left (Nat.le_succ _) _
  unfold frameBlocked Adds
  cases conn with
  | none =>
    have h := hloop out
    dsimp only
    omega
  | some v =>
    dsimp only
    split
    · have h := hloop (out ++ [.dataBlocked v])
      rw [length_append, length_singleton] at h
      omega
    · have h := hloop out
      omega

theorem frameResets_adds : Adds c out (c.frameResets out) 0 := by
  have hloop : ∀ (rs : List (Nat × Nat × Nat)) (out : List ControlFrame),
      (frameResetLoop rs out).2.length + (frameResetLoop rs out).1.length = out.length + rs.length := by
    intro rs
    induction rs with
    | nil => exact fun _ => rfl
    | cons r rs ih =>
      intro out
      unfold frameResetLoop
      split
      · rw [ih, length_append, length_singleton, length_cons]
        omega
      · rfl
  have h := hloop c.resets out
  simp only [Adds, load, frameResets]
  omega

def worst (blocked : List (Nat × Nat)) : Nat := 25 * (5 + c.load + blocked.length)

theorem framed_le_worst (conn : Option Nat) (blocked : List (Nat × Nat)) :
    framedBytes (c.frames conn blocked).2 ≤ c.worst blocked := by
  have hbytes : ∀ out, framedBytes out ≤ 25 * out.length := by
    intro out
    induction out with
    | nil => exact le_rfl
    | cons f out ih =>
      have hf : f.size ≤ 25 := by
        have hle := varintSize_le
        cases f <;> simp only [ControlFrame.size] <;> grind
      simp only [framedBytes, map_cons, sum_cons, length_cons] at ih ⊢
      omega
  have hcount : Adds c [] (c.frames conn blocked) _ :=
    (((((frameHandshakeDone_adds c []).trans (frameMaxData_adds _ _)).trans (frameStreamData_adds _ _)).trans
      (frameBlocked_adds _ _ conn blocked)).trans (frameCredit_adds _ _ false)).trans
      (frameCredit_adds _ _ true) |>.trans (frameResets_adds _ _)
  simp only [Adds, length_nil] at hcount
  exact (hbytes _).trans (Nat.mul_le_mul_left _ (by omega))

end Control

/-! ## Payloads -/

def frameCrypto (offset unsent cap : Nat) : Nat :=
  let n := min unsent kCryptoChunk
  let need := 1 + varintSize offset + varintSize n + n
  if unsent = 0 ∨ cap < need then 0 else need

def frameOneStream (offer : Nat → Option (Nat × Nat × Nat)) (cap : Nat) : Nat :=
  let chunk := min (cap - 32) kMaxStreamChunk
  match offer chunk with
  | some (id, off, len) =>
    let need := 1 + varintSize id + varintSize off + varintSize len + len
    if chunk = 0 ∨ cap < need then 0 else need
  | none => 0

/-- The loop of `flush_app_stream_packet`: bytes and frames so far. -/
def frameStreams : List (Nat → Option (Nat × Nat × Nat)) → Nat × Nat → Nat × Nat
  | [], r => r
  | offer :: offers, (plen, rc) =>
    if rc < kMaxFrameRangesPerPacket then
      let n := frameOneStream offer (kMaxPayloadSize - plen)
      frameStreams offers (plen + n, if 0 < n then rc + 1 else rc)
    else (plen, rc)

/-- The packets of a flush: of an Initial or Handshake level, with an ACK in the first,
and the three kinds of 1-RTT packets. -/
inductive Packet where
  | level (initial first due : Bool) (pns : List Nat) (offset unsent : Nat)
  | control (c : Control) (conn : Option Nat) (blocked : List (Nat × Nat)) (due : Bool) (pns : List Nat)
  | crypto (offset unsent : Nat)
  | streams (offers : List (Nat → Option (Nat × Nat × Nat)))

namespace Packet

def initial : Packet → Bool
  | level initial _ _ _ _ _ => initial
  | _ => false

def short : Packet → Bool
  | level _ _ _ _ _ _ => false
  | _ => true

def acked : Packet → Nat
  | level _ first due pns _ _ => maybeAppendAck (first && due) pns kMaxPayloadSize
  | control c conn blocked due pns =>
    let plen := framedBytes (c.frames conn blocked).2
    plen + maybeAppendAck due pns (kMaxPayloadSize - plen)
  | _ => 0

/-- `plen`. The room that is left is an unsigned difference. -/
def payload (p : Packet) : Nat :=
  match p with
  | level _ _ _ _ offset unsent =>
    p.acked + frameCrypto offset unsent ((2 ^ 64 + kMaxPayloadSize - p.acked) % 2 ^ 64)
  | control _ _ _ _ _ => p.acked
  | crypto offset unsent => frameCrypto offset unsent kMaxPayloadSize
  | streams offers => (frameStreams offers (0, 0)).1

end Packet

/-- The connection IDs, and the token of a client that was sent a Retry. -/
structure Ends where
  peerCid : Fin 21
  localCid : Fin 21
  retryToken : Fin 257

namespace Ends

variable (e : Ends)

/-- `write_long_header`, or the short header. -/
def header (p : Packet) : Nat :=
  match p with
  | .level initial _ _ _ _ _ =>
    7 + e.peerCid + e.localCid +
      (if initial then varintSize e.retryToken + e.retryToken else 0) +
      varintSize (4 + p.payload + kAeadTagLength)
  | _ => 1 + e.peerCid

def wire (p : Packet) : Nat := e.header p + 4 + p.payload + kAeadTagLength

def padded (initial : Bool) (n : Nat) : Nat := if initial then max n kInitialMinDatagram else n

/-- `dgram_len_`, `dgram_has_initial_` and the datagrams built so far. -/
structure Coalesced where
  len : Nat := 0
  hasInitial : Bool := false
  out : List Nat := []

variable (s : Coalesced)

def flushDatagram : Coalesced :=
  if s.len = 0 then s else { out := s.out ++ [padded s.hasInitial s.len] }

def makeRoom (n : Nat) : Coalesced :=
  if kMaxDatagramSize < s.len + n then flushDatagram s else s

def coalesceAppend (p : Packet) : Coalesced :=
  let s := makeRoom s (e.wire p)
  let s := { s with len := s.len + e.wire p, hasInitial := s.hasInitial || p.initial }
  if p.short then flushDatagram s else s

/-- The datagrams of a flush, whether the amplification limit lets them go or not. -/
def datagrams (coalescing : Bool) (packets : List Packet) : List Nat :=
  if coalescing then (flushDatagram (packets.foldl e.coalesceAppend {})).out
  else packets.map fun p => padded p.initial (e.wire p)

/-! ## Bounds -/

/-- The ACK fits behind what precedes it, and an Initial with a token fits a datagram. -/
def Fits (p : Packet) : Prop :=
  p.acked ≤ kMaxPayloadSize ∧
    (p.initial → e.retryToken ≠ 0 → e.wire p ≤ kMaxDatagramSize)

/-- What was received and what is queued leave room for the longest ACK, and in an
Initial for the token beside it and the CRYPTO data. -/
def Modest : Packet → Prop
  | .level initial first due pns _ unsent =>
    let ack := if first && due then ackWorst pns else 0
    ack ≤ kMaxPayloadSize ∧ (initial → e.retryToken ≠ 0 →
      31 + (e.peerCid + e.localCid + e.retryToken : Nat) + min kMaxPayloadSize (ack + 11 + min unsent kCryptoChunk) ≤
        kMaxDatagramSize)
  | .control c _ blocked due pns =>
    due = true → ackWorst pns ≤ 64 ∨ c.worst blocked + ackWorst pns ≤ kMaxPayloadSize
  | _ => True

theorem frameCrypto_le (offset unsent cap : Nat) : frameCrypto offset unsent cap ≤ cap := by
  simp only [frameCrypto]
  split <;> omega

theorem frameCrypto_le_data (offset unsent cap : Nat) :
    frameCrypto offset unsent cap ≤ 11 + min unsent kCryptoChunk := by
  have hoffset := Control.varintSize_le offset
  have hlen : varintSize (min unsent kCryptoChunk) ≤ 2 := varintSize_mono (Nat.min_le_right _ _)
  simp only [frameCrypto]
  split <;> omega

theorem frameStreams_le (offers : List (Nat → Option (Nat × Nat × Nat))) {plen} (rc : Nat)
    (h : plen ≤ kMaxPayloadSize) : (frameStreams offers (plen, rc)).1 ≤ kMaxPayloadSize := by
  induction offers generalizing plen rc with
  | nil => exact h
  | cons offer offers ih =>
    have hframe : frameOneStream offer (kMaxPayloadSize - plen) ≤ kMaxPayloadSize - plen := by
      simp only [frameOneStream]
      split
      · split <;> omega
      · exact Nat.zero_le _
    simp only [frameStreams]
    split
    · exact ih _ (by omega)
    · exact h

theorem payload_le_iff (p : Packet) : p.payload ≤ kMaxPayloadSize ↔ p.acked ≤ kMaxPayloadSize := by
  cases p with
  | level initial first due pns offset unsent =>
    simp only [Packet.payload]
    generalize Packet.acked (.level initial first due pns offset unsent) = k
    refine ⟨fun h => by omega, fun h => ?_⟩
    have hcap : (2 ^ 64 + kMaxPayloadSize - k) % 2 ^ 64 = kMaxPayloadSize - k := by
      simp only [kMaxPayloadSize] at h ⊢
      omega
    have hle := frameCrypto_le offset unsent (kMaxPayloadSize - k)
    rw [hcap]
    omega
  | control => exact Iff.rfl
  | crypto offset unsent => exact iff_of_true (frameCrypto_le _ _ _) (Nat.zero_le _)
  | streams offers => exact iff_of_true (frameStreams_le offers 0 (Nat.zero_le _)) (Nat.zero_le _)

theorem varintSize_length {n : Nat} (h : n ≤ kMaxPayloadSize) : varintSize (4 + n + kAeadTagLength) ≤ 2 :=
  varintSize_mono (Nat.add_le_add_right (Nat.add_le_add_left h 4) kAeadTagLength)

theorem wire_le {e : Ends} {p : Packet} (hp : p.payload ≤ kMaxPayloadSize)
    (hplain : p.initial = false ∨ e.retryToken = 0) : e.wire p ≤ kMaxDatagramSize := by
  have hpeer := e.peerCid.isLt
  have hlocal := e.localCid.isLt
  have hlen := varintSize_length hp
  cases p with
  | level initial =>
    have htoken : (if initial then varintSize e.retryToken + e.retryToken else 0) ≤ 1 := by
      rcases hplain with h | h
      · obtain rfl : initial = false := h
        exact Nat.zero_le _
      · rw [h]
        split <;> decide
    simp only [wire, header, kMaxDatagramSize, kMaxPayloadSize, kAeadTagLength] at *
    omega
  | _ =>
    simp only [wire, header, kMaxDatagramSize, kMaxPayloadSize, kAeadTagLength] at *
    omega

theorem le_padded (initial : Bool) (n : Nat) : n ≤ padded initial n := by
  unfold padded
  split
  · exact Nat.le_max_left _ _
  · exact le_rfl

theorem padded_le {n} (h : n ≤ kMaxDatagramSize) (initial : Bool) :
    padded initial n ≤ kMaxDatagramSize := by
  unfold padded
  split
  · exact max_le h (by decide)
  · exact h

def Coalesced.Holds (n : Nat) : Prop := n ≤ s.len ∨ ∃ d ∈ s.out, n ≤ d

def Coalesced.Small : Prop :=
  s.len ≤ kMaxDatagramSize ∧ ∀ d ∈ s.out, d ≤ kMaxDatagramSize

theorem Coalesced.Holds.flush {s n} (h : s.Holds n) : (flushDatagram s).Holds n := by
  unfold flushDatagram
  split
  · exact h
  · rcases h with h | ⟨d, hd, h⟩
    · exact .inr ⟨_, mem_append_right _ mem_cons_self, h.trans (le_padded _ _)⟩
    · exact .inr ⟨d, mem_append_left _ hd, h⟩

theorem Coalesced.Small.flush {s} (h : s.Small) : (flushDatagram s).Small := by
  unfold flushDatagram
  split
  · exact h
  refine ⟨Nat.zero_le _, fun d hd => ?_⟩
  rcases mem_append.mp hd with hd | hd
  · exact h.2 d hd
  · rw [mem_singleton.mp hd]
    exact padded_le h.1 _

theorem flushDatagram_len : (flushDatagram s).len = 0 := by
  unfold flushDatagram
  split
  · assumption
  · rfl

theorem Coalesced.Holds.append {s n} (h : s.Holds n) (e : Ends) (p : Packet) :
    (e.coalesceAppend s p).Holds n := by
  have hroom : (makeRoom s (e.wire p)).Holds n := by
    unfold makeRoom
    split
    · exact h.flush
    · exact h
  have hadd := hroom.imp_left fun hn => hn.trans (Nat.le_add_right _ (e.wire p))
  unfold coalesceAppend
  split
  · exact Holds.flush hadd
  · exact hadd

theorem holds_coalesceAppend (p : Packet) : (e.coalesceAppend s p).Holds (e.wire p) := by
  have hadd : ∀ (t : Coalesced) i,
      Coalesced.Holds { t with len := t.len + e.wire p, hasInitial := i } (e.wire p) :=
    fun t i => .inl (Nat.le_add_left _ _)
  unfold coalesceAppend
  split
  · exact (hadd _ _).flush
  · exact hadd _ _

theorem Coalesced.Small.append {s : Coalesced} (h : s.Small) {e : Ends} {p : Packet}
    (hp : e.wire p ≤ kMaxDatagramSize) : (e.coalesceAppend s p).Small := by
  have hroom : (makeRoom s (e.wire p)).len + e.wire p ≤ kMaxDatagramSize ∧
      ∀ d ∈ (makeRoom s (e.wire p)).out, d ≤ kMaxDatagramSize := by
    unfold makeRoom
    split
    · exact ⟨by rwa [flushDatagram_len, Nat.zero_add], h.flush.2⟩
    · exact ⟨by omega, h.2⟩
  unfold coalesceAppend
  split
  · exact Small.flush hroom
  · exact hroom

theorem holds_foldl (packets : List Packet) (s : Coalesced) :
    (∀ n, s.Holds n → (packets.foldl e.coalesceAppend s).Holds n) ∧
      ∀ p ∈ packets, (packets.foldl e.coalesceAppend s).Holds (e.wire p) := by
  induction packets generalizing s with
  | nil => exact ⟨fun _ h => h, nofun⟩
  | cons q packets ih =>
    obtain ⟨hkeep, hall⟩ := ih (e.coalesceAppend s q)
    refine ⟨fun n h => hkeep n (h.append e q), fun p hp => ?_⟩
    rcases mem_cons.mp hp with rfl | hp
    · exact hkeep _ (holds_coalesceAppend e s p)
    · exact hall p hp

theorem datagrams_le_iff (coalescing : Bool) (packets : List Packet) :
    (∀ d ∈ e.datagrams coalescing packets, d ≤ kMaxDatagramSize) ↔
      ∀ p ∈ packets, e.wire p ≤ kMaxDatagramSize := by
  cases coalescing with
  | false =>
    simp only [datagrams, Bool.false_eq_true, if_false, forall_mem_map]
    exact forall₂_congr fun p _ => ⟨(le_padded _ _).trans, fun h => padded_le h _⟩
  | true =>
    simp only [datagrams, if_true]
    constructor
    · intro h p hp
      rcases ((holds_foldl e packets {}).2 p hp).flush with hlen | ⟨d, hd, hle⟩
      · rw [flushDatagram_len] at hlen
        omega
      · exact hle.trans (h d hd)
    intro h
    have hsmall : ∀ s : Coalesced, s.Small → (packets.foldl e.coalesceAppend s).Small := by
      induction packets with
      | nil => exact fun _ hs => hs
      | cons p packets ih =>
        exact fun s hs => ih (fun q hq => h q (mem_cons_of_mem _ hq)) _
          (hs.append (h p mem_cons_self))
    exact (hsmall {} ⟨Nat.zero_le _, nofun⟩).flush.2

theorem sizes_iff (e : Ends) (coalescing : Bool) (packets : List Packet) :
    ((∀ p ∈ packets, p.payload ≤ kMaxPayloadSize) ∧
      ∀ d ∈ e.datagrams coalescing packets, d ≤ kMaxDatagramSize) ↔ ∀ p ∈ packets, e.Fits p := by
  rw [datagrams_le_iff, ← forall₂_and]
  refine forall₂_congr fun p _ => ?_
  rw [payload_le_iff]
  refine and_congr_right fun hack => ⟨fun h _ _ => h, fun h => ?_⟩
  by_cases hplain : p.initial = false ∨ e.retryToken = 0
  · exact wire_le ((payload_le_iff p).mpr hack) hplain
  · simp only [not_or, Bool.not_eq_false] at hplain
    exact h hplain.1 hplain.2

theorem Modest.fits {e : Ends} {p : Packet} (h : e.Modest p) : e.Fits p := by
  cases p with
  | level initial first due pns offset unsent =>
    obtain ⟨hroom, hdatagram⟩ := h
    have hack := maybeAppendAck_le (first && due) pns kMaxPayloadSize
    refine ⟨hack.trans hroom, fun hinit htoken => le_trans ?_ (hdatagram hinit htoken)⟩
    have hpay := (payload_le_iff (.level initial first due pns offset unsent)).mpr (hack.trans hroom)
    have hcrypto := frameCrypto_le_data offset unsent
      ((2 ^ 64 + kMaxPayloadSize - Packet.acked (.level initial first due pns offset unsent)) % 2 ^ 64)
    have hlen := varintSize_length hpay
    have htoken : varintSize e.retryToken ≤ 2 := varintSize_mono (Nat.le_of_lt e.retryToken.isLt)
    have hsum : Packet.payload (.level initial first due pns offset unsent) ≤
        (if first && due then ackWorst pns else 0) + 11 + min unsent kCryptoChunk := by
      simp only [Packet.payload, Packet.acked] at hcrypto ⊢
      omega
    obtain rfl : initial := hinit
    simp only [wire, header, if_true, kAeadTagLength] at hlen ⊢
    omega
  | control c conn blocked due pns =>
    refine ⟨?_, nofun⟩
    have hcap := (c.frames_spec conn blocked).fits (Nat.zero_le _)
    have hworst := c.framed_le_worst conn blocked
    have hack := maybeAppendAck_le due pns (kMaxPayloadSize - framedBytes (c.frames conn blocked).2)
    have hguard : kMaxPayloadSize - framedBytes (c.frames conn blocked).2 < 64 →
        maybeAppendAck due pns (kMaxPayloadSize - framedBytes (c.frames conn blocked).2) = 0 := by
      intro hlt
      unfold maybeAppendAck
      split
      · rw [if_neg]
        simp only [Bool.and_eq_true, decide_eq_true_eq]
        omega
      · rfl
    simp only [Packet.acked]
    cases due with
    | false =>
      simp only [Bool.false_eq_true, if_false] at hack
      omega
    | true =>
      simp only [if_true] at hack
      have h := h rfl
      omega
  | _ => exact ⟨Nat.zero_le _, nofun⟩

/-- **The limits of a flush.** They hold if what the peer has sent is modest, and they hold
exactly if each packet fits. -/
theorem sizes_kept (e : Ends) (coalescing : Bool) (packets : List Packet) :
    let Kept := (∀ p ∈ packets, p.payload ≤ kMaxPayloadSize) ∧
      ∀ d ∈ e.datagrams coalescing packets, d ≤ kMaxDatagramSize
    ((∀ p ∈ packets, e.Modest p) → Kept) ∧ (Kept ↔ ∀ p ∈ packets, e.Fits p) :=
  ⟨fun h => (sizes_iff e coalescing packets).mpr fun p hp => (h p hp).fits, sizes_iff e coalescing packets⟩

/-- A client with a Retry token sends an Initial, coalesced with a control packet that
announces a window and acknowledges three ranges. -/
theorem sizes_kept_retry :
    let e : Ends := ⟨8, 8, 200⟩
    let packets := [Packet.level true true true [0, 1, 4] 0 900,
      .control { server := false, granted := fun _ => 64, windows := [{ id := 4, dirty := true }],
                 streamWindowDirty := true, resets := [(8, 7, 100)] } none [(4, 0)] true [0, 2, 5]]
    (∀ p ∈ packets, e.Modest p) ∧ (∀ p ∈ packets, p.payload ≤ kMaxPayloadSize) ∧
      ∀ d ∈ e.datagrams true packets, d ≤ kMaxDatagramSize := by
  intro e packets
  have h : ∀ p ∈ packets, e.Modest p :=
    forall_mem_cons.mpr ⟨⟨by decide, fun _ _ => by decide⟩,
      forall_mem_singleton.mpr fun _ => .inl (by decide)⟩
  exact ⟨h, (sizes_kept e true packets).1 h⟩

/-- Packet numbers 2^30 + 2 apart have a range each and gaps of eight bytes; and an Initial
with a Retry token may acknowledge every other of two hundred packets. -/
theorem ack_and_token_too_long :
    let spaced := Packet.control { server := true, granted := fun _ => 64 } none [] true
      ((List.range 160).map (· * (2 ^ 30 + 2)))
    let retried := Packet.level true true true ((List.range 100).map (2 * ·)) 0 1200
    let e : Ends := ⟨8, 8, 256⟩
    kMaxPayloadSize < spaced.payload ∧ retried.payload ≤ kMaxPayloadSize ∧
      ∃ d ∈ e.datagrams true [retried], kMaxDatagramSize < d := by
  decide +kernel

end Ends
end BoltApi.Quic

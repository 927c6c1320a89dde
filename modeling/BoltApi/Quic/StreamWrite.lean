import BoltApi.Lib.Keyed
import BoltApi.Octets
import BoltApi.Quic.Extents

/-! # Writing to a stream

`stream_write_owned` and `stream_write_all` of `quic/connection.h` over the send side
of `quic/stream.h`: a ring takes what fits, and the rest is held beside it within a
budget that all streams of the connection share. -/
namespace BoltApi.Quic.StreamWrite
open Octets List Lib

def kPendingSendBytesMax : Nat := 2 ^ 30

inductive SendState
  | ready | send | dataSent | resetSent | resetRecvd
  deriving DecidableEq

def SendState.start (state : SendState) (work : Bool) : SendState :=
  if state = .ready ∧ work then .send else state

theorem SendState.start_reset {state : SendState} {work : Bool} :
    state.start work = .resetSent ↔ state = .resetSent := by
  unfold start
  split
  · rename_i h
    rw [h.1]
    exact iff_of_false nofun nofun
  · rfl

/-- The send side of a `Stream`: `ring` is what stands from `send_base_` to `send_end_`,
`pending` what stands behind `pending_off_`. Of the receive side only `recv_done` counts. -/
structure Stream where
  id : Nat
  state : SendState := .ready
  ring : Bytes := []
  wantFin : Bool := false
  finAcked : Bool := false
  pending : Bytes := []
  pendingFin : Bool := false
  recvDone : Bool := false
  fits : ring.length ≤ kStreamBufferSize := by decide
  ended : finAcked → state = .resetSent ∨ wantFin := by decide

namespace Stream

def pendingEmpty (s : Stream) : Bool := s.pending.isEmpty && !s.pendingFin

def space (s : Stream) : Nat := kStreamBufferSize - s.ring.length

def ringPut (s : Stream) (data : Bytes) : Nat × Stream :=
  let n := min data.length s.space
  (n, { s with
    ring := s.ring ++ data.take n
    fits := by
      have := s.fits
      simp only [length_append, length_take, space, n]
      omega })

def write (s : Stream) (data : Bytes) (fin : Bool) : Nat × Stream :=
  if !s.pendingEmpty then (0, s)
  else
    let (n, t) := s.ringPut data
    let wantFin := t.wantFin || (fin && n == data.length)
    (n, { t with
      wantFin
      state := t.state.start (0 < n || wantFin)
      ended := fun h => (t.ended h).imp SendState.start_reset.mpr fun h => by simp [wantFin, h] })

def refill (s : Stream) : Stream :=
  if s.pendingEmpty then s
  else
    let (n, t) := s.ringPut s.pending
    if n = s.pending.length then
      { t with
        wantFin := t.wantFin || s.pendingFin
        pendingFin := false
        pending := []
        ended := fun h => (t.ended h).imp_right fun h => by simp [h] }
    else { t with pending := s.pending.drop n }

def writeOwned (s : Stream) (body : Bytes) (fin : Bool) : Stream :=
  refill { s with
    pending := body
    pendingFin := fin
    state := s.state.start true
    ended := fun h => (s.ended h).imp_left SendState.start_reset.mpr }

def sendDone (s : Stream) : Bool :=
  s.state == .resetSent || (s.finAcked && s.ring.isEmpty && s.pendingEmpty)

/-- `mark_sent` with a FIN, which goes out only if asked for. -/
def finSent (s : Stream) : Stream :=
  { s with
    state := if s.wantFin then .dataSent else s.state
    ended := fun h => (s.ended h).elim (fun h => by by_cases hw : s.wantFin = true <;> simp [hw, h]) .inr }

/-- What the stream is still to carry, and whether it then ends. -/
def queue (s : Stream) : Bytes × Bool := (s.ring ++ s.pending, s.wantFin || s.pendingFin)

theorem queue_refill (s : Stream) :
    s.refill.id = s.id ∧ s.refill.state = s.state ∧ s.refill.queue = s.queue := by
  unfold refill ringPut
  split
  · exact ⟨rfl, rfl, rfl⟩
  dsimp only
  split
  · rename_i hn
    simp [queue, hn]
  · simp [queue]

variable {s : Stream} (h : s.pendingEmpty)
include h

theorem queue_eq : s.queue = (s.ring, s.wantFin) := by
  obtain ⟨hp, hf⟩ : s.pending = [] ∧ s.pendingFin = false := by simpa [pendingEmpty] using h
  rw [queue, hp, hf, append_nil, Bool.or_false]

theorem queue_writeOwned (body : Bytes) (fin : Bool) :
    (s.writeOwned body fin).id = s.id ∧
      ((s.writeOwned body fin).state = .resetSent ↔ s.state = .resetSent) ∧
      (s.writeOwned body fin).queue = (s.queue.1 ++ body, s.queue.2 || fin) := by
  obtain ⟨hid, hstate, hqueue⟩ := queue_refill
    { s with pending := body, pendingFin := fin, state := s.state.start true,
             ended := fun h => (s.ended h).imp_left SendState.start_reset.mpr }
  refine ⟨hid, ?_, hqueue.trans ?_⟩
  · rw [writeOwned, hstate, SendState.start_reset]
  · rw [queue_eq h]
    rfl

theorem queue_of_done (hdone : s.sendDone) (hstate : s.state ≠ .resetSent) : s.queue = ([], true) := by
  rw [sendDone, Bool.or_eq_true, beq_iff_eq, or_iff_right hstate, Bool.and_eq_true, Bool.and_eq_true] at hdone
  obtain ⟨⟨hacked, hring⟩, -⟩ := hdone
  rw [queue_eq h, List.isEmpty_iff.mp hring, (s.ended hacked).resolve_left hstate]

theorem write_eq (data : Bytes) (fin : Bool) :
    ∃ t, s.write data fin = (min data.length s.space, t) ∧ t.id = s.id ∧
      t.pending = s.pending ∧ t.pendingEmpty ∧
      (t.state = .resetSent ↔ s.state = .resetSent) ∧
      t.queue = (s.queue.1 ++ data.take s.space,
        s.queue.2 || (fin && decide (data.length ≤ s.space))) := by
  have htake : data.take (min data.length s.space) = data.take s.space := by
    rw [Nat.min_comm, ← take_take, take_length]
  have hall : (min data.length s.space == data.length) = decide (data.length ≤ s.space) := by
    rw [Bool.eq_iff_iff, beq_iff_eq, decide_eq_true_eq]
    omega
  refine ⟨(s.write data fin).2, ?_⟩
  rw [write, h, queue_eq h]
  refine ⟨rfl, rfl, rfl, h, SendState.start_reset, ?_⟩
  rw [← htake, ← hall]
  exact queue_eq h

end Stream

structure Connection where
  isServer : Bool
  streams : List Stream
  delivering : Option Nat := none
  nodup : (streams.map Stream.id).Nodup

namespace Connection

def find (c : Connection) (id : Nat) : Option Stream := Keyed.find Stream.id c.streams id

def put (c : Connection) (s : Stream) : Connection :=
  { c with streams := Keyed.put Stream.id s c.streams, nodup := by rw [Keyed.keys_put]; exact c.nodup }

def isLocalStream (c : Connection) (id : Nat) : Bool := id.testBit 0 == c.isServer

def hasSendSide (c : Connection) (id : Nat) : Bool := !id.testBit 1 || c.isLocalStream id

def hasRecvSide (c : Connection) (id : Nat) : Bool := !id.testBit 1 || !c.isLocalStream id

def writableStream (c : Connection) (id : Nat) : Option Stream :=
  (c.find id).filter fun s => c.hasSendSide id && s.state != .resetSent

def pendingTotal (c : Connection) : Nat := (c.streams.map fun s => s.pending.length).sum

/-! ### Flushing -/

def finished (c : Connection) (s : Stream) : Bool :=
  c.delivering != some s.id && (!c.hasSendSide s.id || s.sendDone) && (!c.hasRecvSide s.id || s.recvDone)

theorem ids_map {f : Stream → Stream} (hf : ∀ s, (f s).id = s.id) (l : List Stream) :
    (l.map f).map Stream.id = l.map Stream.id := by
  rw [map_map]
  exact map_congr_left fun s _ => hf s

/-- `sweep_streams`: held bytes go to the rings, and a stream that is finished is
released. -/
def sweepStreams (c : Connection) : Connection :=
  { c with
    streams := (c.streams.map Stream.refill).filter fun s => !c.finished s
    nodup := by
      refine Nodup.sublist (filter_sublist.map _) ?_
      rw [ids_map fun s => (Stream.queue_refill s).1]
      exact c.nodup }

/-- What a flush finds: whether the connection is neither closed nor draining and has
keys for 1-RTT packets, and the streams whose last bytes the windows let out. -/
structure Finds where
  app : Bool
  fins : List Nat

def sendStreams (fins : List Nat) (c : Connection) : Connection :=
  { c with
    streams := c.streams.map fun s => if s.id ∈ fins then s.finSent else s
    nodup := by
      rw [ids_map fun s => by split <;> rfl]
      exact c.nodup }

/-- `flush`, on the streams. The bytes that go out stay in the rings until they are
acknowledged. -/
def flush (f : Finds) (c : Connection) : Connection :=
  if f.app then c.sweepStreams.sendStreams f.fins else c

def queue (c : Connection) (id : Nat) : Option (Bytes × Bool) := (c.find id).map Stream.queue

def Carries (c : Connection) (id : Nat) (q : Bytes × Bool) : Prop :=
  c.queue id = some q ∨ c.queue id = none ∧ q = ([], true)

variable {c : Connection} {id : Nat} {s t : Stream}

theorem writableStream_eq_some : c.writableStream id = some s ↔
    c.find id = some s ∧ c.hasSendSide id ∧ s.state ≠ .resetSent := by
  rw [writableStream, Option.filter_eq_some_iff, Bool.and_eq_true, bne_iff_ne]

theorem find_flush (f : Finds) (c : Connection) (id : Nat) : (c.flush f).find id =
    if f.app then (((c.find id).map Stream.refill).filter fun s => !c.finished s).map
      fun s => if s.id ∈ f.fins then s.finSent else s
    else c.find id := by
  unfold flush
  split
  · have hmap : ∀ s : Stream, (if s.id ∈ f.fins then s.finSent else s).id = s.id := by
      intro s
      split <;> rfl
    have hnd : ((c.streams.map Stream.refill).map Stream.id).Nodup := by
      rw [ids_map fun s => (Stream.queue_refill s).1]
      exact c.nodup
    simp only [find, sendStreams, sweepStreams]
    rw [Keyed.find_map hmap, Keyed.find_filter hnd, Keyed.find_map fun s => (Stream.queue_refill s).1]
  · rfl

theorem carries_flush (f : Finds) (h : c.writableStream id = some s) : (c.flush f).Carries id s.queue := by
  obtain ⟨hfind, hside, hstate⟩ := writableStream_eq_some.mp h
  obtain ⟨hid, hsame, hqueue⟩ := s.queue_refill
  have hkey : s.refill.id = id := hid.trans (Keyed.find_mem hfind).2
  unfold Carries queue
  rw [find_flush, hfind]
  split
  · by_cases hfin : c.finished s.refill = true
    · refine .inr ⟨by simp [hfin], ?_⟩
      have hdone : s.refill.sendDone := by
        simp only [finished, hkey, hside, Bool.and_eq_true, Bool.not_true, Bool.false_or] at hfin
        exact hfin.1.2
      rw [← hqueue]
      refine Stream.queue_of_done ?_ hdone (hsame ▸ hstate)
      rw [Stream.sendDone, hsame, Bool.or_eq_true, beq_iff_eq, or_iff_right hstate, Bool.and_eq_true] at hdone
      exact hdone.2
    left
    simp only [Option.map_some, Option.filter_some, hfin, Bool.not_false, if_true]
    rw [← hqueue]
    split <;> rfl
  · exact .inl rfl

theorem find_put (h : c.find id = some s) (hid : t.id = s.id) : (c.put t).find id = some t := by
  have ht : t.id = id := hid.trans (Keyed.find_mem h).2
  subst ht
  exact (congrFun (Keyed.find_put c.nodup h) t.id).trans (Function.update_self ..)

theorem writableStream_put (h : c.writableStream id = some s) (hid : t.id = s.id)
    (hstate : t.state = .resetSent ↔ s.state = .resetSent) : (c.put t).writableStream id = some t := by
  obtain ⟨hfind, hside, hreset⟩ := writableStream_eq_some.mp h
  exact writableStream_eq_some.mpr ⟨find_put hfind hid, hside, fun h => hreset (hstate.mp h)⟩

theorem pendingTotal_put (h : c.find id = some s) (hid : t.id = s.id)
    (hp : t.pending = s.pending) : (c.put t).pendingTotal = c.pendingTotal := by
  simp only [pendingTotal, put, Keyed.put, map_map]
  refine congrArg List.sum (map_congr_left fun b hb => ?_)
  rw [Function.comp_apply]
  split
  · rename_i hbt
    rw [inj_on_of_nodup_map c.nodup hb (Keyed.find_mem h).1 (hbt.trans hid), hp]
  · rfl

end Connection

open Connection

/-! ## The calls -/

variable (f : Finds)

def streamWriteOwned (c : Connection) (id : Nat) (body : Bytes) (fin : Bool) : Bool × Connection :=
  match c.writableStream id with
  | none => (false, c)
  | some s =>
    if !s.pendingEmpty then (false, c)
    else if c.pendingTotal + body.length > kPendingSendBytesMax then (false, c)
    else (true, (c.put (s.writeOwned body fin)).flush f)

def streamWriteAll (c : Connection) (id : Nat) (data : Bytes) (fin : Bool) : Bool × Connection :=
  match c.writableStream id with
  | none => (false, c)
  | some s =>
    if !s.pendingEmpty then (false, c)
    else
      let (n, t) := s.write data fin
      if n = data.length then (true, (c.put t).flush f)
      else streamWriteOwned f (c.put t) id (data.drop n) fin

/-- All or nothing: a refused call leaves what its stream is to carry, an accepted one adds
all of its bytes and the FIN it asks for, and adds no byte behind a FIN. -/
structure AllOrNothing (c : Connection) (id : Nat) (data : Bytes) (fin : Bool)
    (r : Bool × Connection) : Prop where
  refused : r.1 = false → r.2.queue id = c.queue id
  accepted : r.1 → ∃ q f, c.queue id = some (q, f) ∧
    r.2.Carries id (q ++ data, f || fin) ∧ (f → data = [])

def Open (c : Connection) (id : Nat) (s : Stream) : Prop :=
  c.writableStream id = some s ∧ s.pendingEmpty

def TakesOwned (c : Connection) (id : Nat) (data : Bytes) : Prop :=
  ∃ s, Open c id s ∧ c.pendingTotal + data.length ≤ kPendingSendBytesMax

/-- The ring has room, or the budget for what the ring does not take. -/
def TakesAll (c : Connection) (id : Nat) (data : Bytes) : Prop :=
  ∃ s, Open c id s ∧
    (data.length ≤ s.space ∨ c.pendingTotal + (data.length - s.space) ≤ kPendingSendBytesMax)

/-- There are bytes, and a FIN that stands before them. -/
def Late (c : Connection) (id : Nat) (data : Bytes) : Prop :=
  data ≠ [] ∧ ∃ s, Open c id s ∧ s.wantFin

/-- The ring takes a part of the bytes and the budget has no room for the others. -/
def Cut (c : Connection) (id : Nat) (data : Bytes) : Prop :=
  ∃ s, Open c id s ∧ 0 < s.space ∧
    s.space < data.length ∧ kPendingSendBytesMax < c.pendingTotal + (data.length - s.space)

variable {c : Connection} {id : Nat} {s t : Stream} {data : Bytes} {fin : Bool}

theorem Open.exists_iff (h : Open c id s) {P : Stream → Prop} : (∃ t, Open c id t ∧ P t) ↔ P s := by
  refine ⟨fun ⟨t, ht, hP⟩ => ?_, fun hP => ⟨s, h, hP⟩⟩
  rwa [Option.some.inj (h.1.symm.trans ht.1)]

theorem Open.queue (h : Open c id s) : c.queue id = some (s.ring, s.wantFin) := by
  rw [Connection.queue, (writableStream_eq_some.mp h.1).1, Option.map_some, Stream.queue_eq h.2]

theorem streamWriteOwned_spec (h : Open c id s) (data : Bytes) (fin : Bool) :
    let r := streamWriteOwned f c id data fin
    if c.pendingTotal + data.length ≤ kPendingSendBytesMax then
      r.1 = true ∧ r.2.Carries id (s.ring ++ data, s.wantFin || fin)
    else r = (false, c) := by
  obtain ⟨hid, hstate, hq⟩ := Stream.queue_writeOwned h.2 data fin
  rw [Stream.queue_eq h.2] at hq
  simp only [streamWriteOwned, h.1, h.2, Bool.not_true, Bool.false_eq_true, if_false, gt_iff_lt]
  split
  · rw [if_neg (by omega)]
    exact ⟨rfl, hq ▸ carries_flush f (writableStream_put h.1 hid hstate)⟩
  · rw [if_pos (by omega)]

theorem streamWriteAll_spec (h : Open c id s) (data : Bytes) (fin : Bool) :
    let r := streamWriteAll f c id data fin
    if data.length ≤ s.space ∨ c.pendingTotal + (data.length - s.space) ≤ kPendingSendBytesMax then
      r.1 ∧ r.2.Carries id (s.ring ++ data, s.wantFin || fin)
    else r.1 = false ∧ r.2.queue id = some (s.ring ++ data.take s.space, s.wantFin) := by
  obtain ⟨t, ht, hid, hp, he, hstate, hq⟩ := Stream.write_eq h.2 data fin
  have hopen : Open (c.put t) id t := ⟨writableStream_put h.1 hid hstate, he⟩
  rw [Stream.queue_eq h.2, Stream.queue_eq he] at hq
  simp only [streamWriteAll, h.1, h.2, Bool.not_true, Bool.false_eq_true, if_false, ht]
  by_cases hlen : data.length ≤ s.space
  · rw [if_pos (.inl hlen), if_pos (Nat.min_eq_left hlen)]
    rw [take_of_length_le hlen, decide_eq_true hlen, Bool.and_true] at hq
    refine ⟨rfl, ?_⟩
    rw [← hq, ← Stream.queue_eq he]
    exact carries_flush f hopen.1
  have hmin : min data.length s.space = s.space := Nat.min_eq_right (by omega)
  have hrest := streamWriteOwned_spec f hopen (data.drop s.space) fin
  obtain ⟨hring, hfin⟩ := Prod.mk.inj hq
  rw [pendingTotal_put (writableStream_eq_some.mp h.1).1 hid hp, length_drop, hring, hfin,
    decide_eq_false hlen, Bool.and_false, Bool.or_false, append_assoc, take_append_drop] at hrest
  have hne : ¬ s.space = data.length := by omega
  simp only [hmin, if_neg hne]
  split at hrest
  · rename_i hroom
    rw [if_pos (.inr hroom)]
    exact hrest
  · rw [if_neg (by omega), hrest]
    refine ⟨rfl, hopen.queue.trans ?_⟩
    rw [hring, hfin, decide_eq_false hlen, Bool.and_false, Bool.or_false]

theorem allOrNothing_of_carries {r : Bool × Connection} (h : Open c id s) (hr : r.1)
    (hc : r.2.Carries id (s.ring ++ data, s.wantFin || fin)) :
    AllOrNothing c id data fin r ↔ ¬ Late c id data := by
  rw [Late, h.exists_iff]
  constructor
  · rintro hall ⟨hne, hfin⟩
    obtain ⟨q, f, hq, -, hlate⟩ := hall.accepted hr
    rw [h.queue] at hq
    exact hne (hlate ((Prod.mk.inj (Option.some.inj hq)).2 ▸ hfin))
  intro hlate
  refine ⟨fun hr' => ?_, fun _ => ⟨s.ring, s.wantFin, h.queue, hc, fun hfin => ?_⟩⟩
  · rw [hr] at hr'
    cases hr'
  · by_contra hne
    exact hlate ⟨hne, hfin⟩

/-- A body taken over is all or nothing unless it is queued behind a FIN; borrowed bytes
are, unless the ring takes a part of them that the budget then does not let finish. -/
theorem writes_all_or_nothing_iff (f : Finds) (c : Connection) (id : Nat) (data : Bytes)
    (fin : Bool) :
    let owned := streamWriteOwned f c id data fin
    let all := streamWriteAll f c id data fin
    (owned.1 = true ↔ TakesOwned c id data) ∧ (all.1 = true ↔ TakesAll c id data) ∧
    (AllOrNothing c id data fin owned ↔ ¬ (TakesOwned c id data ∧ Late c id data)) ∧
    (AllOrNothing c id data fin all ↔ ¬ (TakesAll c id data ∧ Late c id data) ∧ ¬ Cut c id data) := by
  intro owned all
  by_cases hs : ∃ s, Open c id s
  case neg =>
    -- A stream that is not there, or holds bytes back: both calls refuse at once.
    have hnone : ∀ {P : Stream → Prop}, ¬ ∃ s, Open c id s ∧ P s := fun ⟨s, h, _⟩ => hs ⟨s, h⟩
    have hrefused : owned = (false, c) ∧ all = (false, c) := by
      unfold owned all streamWriteOwned streamWriteAll
      cases h : c.writableStream id with
      | none => exact ⟨rfl, rfl⟩
      | some s =>
        have he : s.pendingEmpty = false := Bool.eq_false_iff.mpr fun he => hs ⟨s, h, he⟩
        simp only [he]
        exact ⟨rfl, rfl⟩
    have hsame : AllOrNothing c id data fin (false, c) := ⟨fun _ => rfl, nofun⟩
    rw [hrefused.1, hrefused.2]
    exact ⟨iff_of_false nofun hnone, iff_of_false nofun hnone, iff_of_true hsame fun h => hnone h.1,
      iff_of_true hsame ⟨fun h => hnone h.1, hnone⟩⟩
  obtain ⟨s, hs⟩ := hs
  have howned := streamWriteOwned_spec f hs data fin
  have hall := streamWriteAll_spec f hs data fin
  have htakes : TakesOwned c id data ↔ _ := hs.exists_iff
  have htakes' : TakesAll c id data ↔ _ := hs.exists_iff
  have hcut : Cut c id data ↔ _ := hs.exists_iff
  have hrefused : ∀ {r : Bool × Connection}, r.1 = false →
      (AllOrNothing c id data fin r ↔ r.2.queue id = c.queue id) :=
    fun h => ⟨fun ha => ha.refused h, fun hq => ⟨fun _ => hq, fun h' => by rw [h] at h'; cases h'⟩⟩
  rw [htakes, htakes', hcut]
  refine ⟨?_, ?_, ?_, ?_⟩
  · split at howned
    · exact iff_of_true howned.1 ‹_›
    · exact iff_of_false (by rw [show owned = _ from howned]; nofun) ‹_›
  · split at hall
    · exact iff_of_true hall.1 ‹_›
    · exact iff_of_false (by rw [show all.1 = _ from hall.1]; nofun) ‹_›
  · split at howned
    · rename_i hroom
      rw [allOrNothing_of_carries hs howned.1 howned.2, and_iff_right hroom]
    · rw [show owned = _ from howned, hrefused rfl]
      exact iff_of_true rfl fun h => absurd h.1 ‹_›
  split at hall
  · rename_i hroom
    rw [allOrNothing_of_carries hs hall.1 hall.2, and_iff_right hroom, iff_self_and]
    omega
  rename_i hover
  -- Refused: the queue is as it was just when the ring took nothing.
  rw [hrefused hall.1, show all.2.queue id = _ from hall.2, hs.queue, Option.some.injEq, Prod.mk.injEq,
    and_iff_left rfl, append_right_eq_self, List.take_eq_nil_iff, and_iff_right fun h => hover h.1]
  have hne : data ≠ [] := by
    rintro rfl
    exact hover (.inl (Nat.zero_le _))
  rw [or_iff_left hne]
  omega

def fresh : Connection := { isServer := false, streams := [{ id := 0 }], nodup := by decide }

/-- One byte more than the ring and the budget have room for: refused, and the ring's
share of it is queued. -/
theorem refused_write_queues : ∃ data : Bytes,
    data.length = kStreamBufferSize + kPendingSendBytesMax + 1 ∧
    fresh.queue 0 = some ([], false) ∧
    ∀ f, (streamWriteAll f fresh 0 data true).1 = false ∧
      (streamWriteAll f fresh 0 data true).2.queue 0 = some (data.take kStreamBufferSize, false) := by
  refine ⟨replicate (kStreamBufferSize + kPendingSendBytesMax + 1) 0, length_replicate, rfl, fun f => ?_⟩
  generalize hdata : replicate (kStreamBufferSize + kPendingSendBytesMax + 1) (0 : UInt8) = data
  have hlen : data.length = kStreamBufferSize + kPendingSendBytesMax + 1 := by
    rw [← hdata, length_replicate]
  have hspace : Stream.space { id := 0 } = kStreamBufferSize := rfl
  have htotal : fresh.pendingTotal = 0 := rfl
  have hs : Open fresh 0 { id := 0 } := ⟨rfl, rfl⟩
  have hall := streamWriteAll_spec f hs data true
  rw [hspace, htotal, if_neg (by omega)] at hall
  exact hall

end BoltApi.Quic.StreamWrite

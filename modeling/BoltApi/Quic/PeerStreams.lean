import BoltApi.Lib.History
import BoltApi.Quic.Extents
import Mathlib.Data.List.Perm.Subperm
import Mathlib.Logic.Function.Basic
import Mathlib.Order.Nat

/-! # Streams the peer opens

`PeerStreamBook` of `quic/connection.h` with its circular bitmap of closed streams, and the
pool of stream slots that it shares with the streams opened here: `can_open`,
`open_stream`, `inbound_stream` and `sweep_streams`. Slots are interchangeable, so the
pool is kept as the live streams of each kind; their buffers are left out. -/
namespace BoltApi.Quic.PeerStreams
open Lib.History List

def kPeerBidiStreamsDefault : Nat := 8
def kPeerUniStreamsMax : Nat := 3
def kClosedStreamWindowMax : Nat := 1024

/-- `PeerStreamBook`, without the limit last advertised. -/
structure Book where
  limit : Nat
  floor : Nat := 0
  closedTotal : Nat := 0
  bits : Nat → Bool := fun _ => false

namespace Book

def bit (b : Book) (seq : Nat) : Bool := b.bits (seq % kClosedStreamWindowMax)

def setBit (b : Book) (seq : Nat) (on : Bool) : Book :=
  { b with bits := Function.update b.bits (seq % kClosedStreamWindowMax) on }

def isClosed (b : Book) (seq : Nat) : Bool :=
  if seq < b.floor then true
  else if kClosedStreamWindowMax ≤ seq - b.floor then false
  else b.bit seq

def advance : Nat → Book → Book
  | 0, b => b
  | n + 1, b =>
    if b.bit b.floor then advance n { b.setBit b.floor false with floor := b.floor + 1 } else b

def markClosed (b : Book) (seq : Nat) : Book :=
  advance kClosedStreamWindowMax { b.setBit seq true with closedTotal := b.closedTotal + 1 }

def updateLimit (b : Book) (concurrent : Nat) : Book :=
  { b with
    limit := max b.limit (min (b.closedTotal + concurrent) (b.floor + kClosedStreamWindowMax)) }

/-- The bitmap and its floor say which streams were released. -/
structure Fits (b : Book) (released : List Nat) : Prop where
  inside : ∀ seq, b.floor ≤ seq → seq < b.floor + kClosedStreamWindowMax →
    (b.bit seq ↔ seq ∈ released)
  below : ∀ seq < b.floor, seq ∈ released
  above : ∀ seq ∈ released, seq < b.floor + kClosedStreamWindowMax

variable {b : Book} {released : List Nat} {seq : Nat}

theorem Fits.isClosed_iff (h : b.Fits released) : b.isClosed seq ↔ seq ∈ released := by
  unfold isClosed
  split
  · exact iff_of_true rfl (h.below seq ‹_›)
  split
  · refine iff_of_false Bool.false_ne_true fun hmem => ?_
    have := h.above seq hmem
    omega
  · exact h.inside seq (by omega) (by omega)

theorem mod_ne {i j floor} (hi : floor ≤ i) (hi' : i < floor + kClosedStreamWindowMax)
    (hj : floor ≤ j) (hj' : j < floor + kClosedStreamWindowMax) (hne : i ≠ j) :
    i % kClosedStreamWindowMax ≠ j % kClosedStreamWindowMax := by
  unfold kClosedStreamWindowMax at *
  omega

theorem advance_frame (n : Nat) (b : Book) : (advance n b).limit = b.limit ∧
    (advance n b).closedTotal = b.closedTotal ∧ b.floor ≤ (advance n b).floor := by
  induction n generalizing b with
  | zero => exact ⟨rfl, rfl, le_rfl⟩
  | succ n ih =>
    unfold advance
    split
    · obtain ⟨hlimit, htotal, hle⟩ := ih { b.setBit b.floor false with floor := b.floor + 1 }
      exact ⟨hlimit, htotal, (Nat.le_succ _).trans hle⟩
    · exact ⟨rfl, rfl, le_rfl⟩

theorem Fits.advance (n : Nat) (h : b.Fits released) : (advance n b).Fits released := by
  induction n generalizing b with
  | zero => exact h
  | succ n ih =>
    unfold Book.advance
    split
    · rename_i hbit
      have hfloor : b.floor ∈ released :=
        (h.inside b.floor le_rfl (by simp [kClosedStreamWindowMax])).mp hbit
      -- The bit of the floor is from now on that of the number a window above it.
      have hnext : Fits { b.setBit b.floor false with floor := b.floor + 1 } released := by
        refine ⟨fun seq hlo hhi => ?_, fun seq hlt => ?_, fun seq hseq => ?_⟩
        · dsimp only at hlo hhi
          rcases Nat.lt_or_ge seq (b.floor + kClosedStreamWindowMax) with hin | hout
          · rw [← h.inside seq (by omega) hin]
            simp only [bit, setBit]
            rw [Function.update_of_ne (mod_ne (by omega) hin le_rfl (by omega) (by omega))]
          obtain rfl : seq = b.floor + kClosedStreamWindowMax := by omega
          simp only [bit, setBit, Nat.add_mod_right, Function.update_self]
          exact iff_of_false Bool.false_ne_true fun hmem => by
            have := h.above _ hmem
            omega
        · rcases Nat.lt_or_ge seq b.floor with hlow | hge
          · exact h.below seq hlow
          · obtain rfl : seq = b.floor := by dsimp only at hlt; omega
            exact hfloor
        · have := h.above seq hseq
          dsimp only
          omega
      exact ih hnext
    · exact h

theorem Fits.markClosed (h : b.Fits released) (hnew : seq ∉ released)
    (hlt : seq < b.floor + kClosedStreamWindowMax) : (b.markClosed seq).Fits (seq :: released) := by
  have hge : b.floor ≤ seq := Nat.le_of_not_lt fun hlow => hnew (h.below seq hlow)
  refine Fits.advance kClosedStreamWindowMax
    ⟨fun other hlo hhi => ?_, fun other hlow => mem_cons_of_mem _ (h.below other hlow), ?_⟩
  · by_cases heq : other = seq
    · simp [heq, bit, setBit]
    · simp only [bit, setBit]
      rw [Function.update_of_ne (mod_ne hlo hhi hge hlt heq), mem_cons, or_iff_right heq]
      exact h.inside other hlo hhi
  intro other hmem
  rcases mem_cons.mp hmem with rfl | hmem
  · exact hlt
  · exact h.above other hmem

theorem markClosed_frame (b : Book) (seq : Nat) : (b.markClosed seq).limit = b.limit ∧
    (b.markClosed seq).closedTotal = b.closedTotal + 1 ∧ b.floor ≤ (b.markClosed seq).floor :=
  advance_frame _ _

end Book

structure Direction where
  book : Book
  concurrency : Nat
  live : List Nat := []
  opened : List Nat := []
  released : List Nat := []

namespace Direction

def opens (d : Direction) (seq : Nat) : Direction :=
  { d with live := seq :: d.live, opened := seq :: d.opened }

/-- What `sweep_streams` does for a finished stream of the peer. -/
def release (d : Direction) (seq : Nat) : Direction :=
  { d with
    book := (d.book.markClosed seq).updateLimit d.concurrency
    live := d.live.erase seq
    released := seq :: d.released }

def configure (d : Direction) (n : Nat) : Direction :=
  { d with book := d.book.updateLimit n, concurrency := n }

structure Holds (d : Direction) : Prop where
  fits : d.book.Fits d.released
  total : d.book.closedTotal = d.released.length
  apart : (d.live ++ d.released).Nodup
  granted : ∀ seq ∈ d.live ++ d.released, seq < d.book.limit
  credit : d.book.limit ≤ d.book.closedTotal + d.concurrency
  window : d.book.limit ≤ d.book.floor + kClosedStreamWindowMax
  once : d.opened.Nodup
  known : ∀ seq ∈ d.opened, seq ∈ d.live ++ d.released

variable {d : Direction} {seq : Nat}

theorem length_le_of_nodup {l : List Nat} {n : Nat} (h : l.Nodup) (hlt : ∀ seq ∈ l, seq < n) :
    l.length ≤ n := by
  have := (h.subperm fun seq hseq => mem_range.mpr (hlt seq hseq)).length_le
  rwa [length_range] at this

theorem Holds.live_le (h : d.Holds) : d.live.length ≤ d.concurrency := by
  have hall := length_le_of_nodup h.apart h.granted
  have hcredit := h.credit
  rw [h.total] at hcredit
  rw [length_append] at hall
  omega

theorem Holds.opens (h : d.Holds) (hlimit : seq < d.book.limit)
    (hclosed : d.book.isClosed seq = false) (hlive : seq ∉ d.live) : (d.opens seq).Holds := by
  have hnew : seq ∉ d.live ++ d.released := by
    rw [mem_append, not_or, ← h.fits.isClosed_iff, hclosed]
    exact ⟨hlive, Bool.false_ne_true⟩
  refine ⟨h.fits, h.total, nodup_cons.mpr ⟨hnew, h.apart⟩, ?_, h.credit, h.window,
    nodup_cons.mpr ⟨fun hop => hnew (h.known seq hop), h.once⟩, ?_⟩
  · exact forall_mem_cons.mpr ⟨hlimit, h.granted⟩
  · exact forall_mem_cons.mpr ⟨mem_cons_self,
      fun other hop => mem_cons_of_mem _ (h.known other hop)⟩

theorem Holds.release (h : d.Holds) (hlive : seq ∈ d.live) : (d.release seq).Holds := by
  have hperm : (d.live.erase seq ++ seq :: d.released).Perm (d.live ++ d.released) :=
    perm_middle.trans ((perm_cons_erase hlive).symm.append_right d.released)
  have hnew : seq ∉ d.released := fun hmem =>
    (nodup_append.mp h.apart).2.2 seq hlive seq hmem rfl
  have hlt := h.granted seq (mem_append_left _ hlive)
  have hfits := h.fits.markClosed hnew (hlt.trans_le h.window)
  obtain ⟨hlimit, htotal, hfloor⟩ := d.book.markClosed_frame seq
  have hcredit := h.credit
  have hwindow := h.window
  refine ⟨⟨hfits.inside, hfits.below, hfits.above⟩, ?_, hperm.nodup_iff.mpr h.apart, fun other hmem => ?_, ?_, ?_, h.once,
    fun other hop => hperm.mem_iff.mpr (h.known other hop)⟩
  · exact htotal.trans (congrArg (· + 1) h.total)
  · have := h.granted other (hperm.mem_iff.mp hmem)
    simp only [Direction.release, Book.updateLimit]
    omega
  · simp only [Direction.release, Book.updateLimit]
    omega
  · simp only [Direction.release, Book.updateLimit]
    omega

theorem Holds.configure (h : d.Holds) {n} (hn : d.concurrency ≤ n) : (d.configure n).Holds := by
  have hcredit := h.credit
  have hwindow := h.window
  refine ⟨⟨h.fits.inside, h.fits.below, h.fits.above⟩, h.total, h.apart, fun seq hmem => ?_, ?_, ?_,
    h.once, h.known⟩
  · exact (h.granted seq hmem).trans_le (Nat.le_max_left _ _)
  · simp only [Direction.configure, Book.updateLimit]
    omega
  · simp only [Direction.configure, Book.updateLimit]
    omega

end Direction

/-- Why `inbound_stream` closes the connection. -/
inductive Close where
  | wrongDirection
  | unopenedLocal
  | overLimit
  | poolExhausted
deriving DecidableEq

structure Pool where
  dir : Bool → Direction := fun uni =>
    if uni then ⟨{ limit := kPeerUniStreamsMax }, kPeerUniStreamsMax, [], [], []⟩
    else ⟨{ limit := kPeerBidiStreamsDefault }, kPeerBidiStreamsDefault, [], [], []⟩
  own : List (Bool × Nat) := []
  next : Bool → Nat := fun _ => 0
  closing : Option Close := none

namespace Pool

def liveStreams (s : Pool) : Nat :=
  s.own.length + (s.dir false).live.length + (s.dir true).live.length

inductive Event where
  | frame (uni own : Bool) (seq : Nat) (recv : Bool)
  | openLocal (uni : Bool) (credit : Nat)
  | finishLocal (uni : Bool) (seq : Nat)
  | finishPeer (uni : Bool) (seq : Nat)
  | alpn (n : Nat)

def close (s : Pool) (why : Close) : Pool := { s with closing := s.closing.or (some why) }

def inbound (s : Pool) (uni own : Bool) (seq : Nat) (recv : Bool) : Pool :=
  if uni && (recv == own) then s.close .wrongDirection
  else if own then
    if seq < s.next uni then s else s.close .unopenedLocal
  else if seq ∈ (s.dir uni).live then s
  else if (s.dir uni).book.limit ≤ seq then s.close .overLimit
  else if (s.dir uni).book.isClosed seq then s
  else if s.liveStreams < kMaxStreams then
    { s with dir := Function.update s.dir uni ((s.dir uni).opens seq) }
  else s.close .poolExhausted

def step (s : Pool) : Event → Pool
  | .frame uni own seq recv => s.inbound uni own seq recv
  | .openLocal uni credit =>
    if s.next uni < credit ∧ s.liveStreams < kMaxStreams then
      { s with
        own := (uni, s.next uni) :: s.own
        next := Function.update s.next uni (s.next uni + 1) }
    else s
  | .finishLocal uni seq => { s with own := s.own.erase (uni, seq) }
  | .finishPeer uni seq =>
    if seq ∈ (s.dir uni).live then
      { s with dir := Function.update s.dir uni ((s.dir uni).release seq) }
    else s
  | .alpn n => { s with dir := Function.update s.dir false ((s.dir false).configure n) }

def run (events : List Event) : Pool := events.foldl step {}

/-- The streams opened here leave the slots that were promised to the peer, and the ALPN
does not ask for fewer streams than were granted before. -/
def Meets (s : Pool) : Event → Prop
  | .openLocal _ _ =>
    s.own.length + 1 + (s.dir false).concurrency + (s.dir true).concurrency ≤ kMaxStreams
  | .alpn n => (s.dir false).concurrency ≤ n ∧ s.own.length + n + (s.dir true).concurrency ≤ kMaxStreams
  | _ => True

instance (s : Pool) (ev : Event) : Decidable (s.Meets ev) := by
  cases ev <;> unfold Meets <;> infer_instance

structure Holds (s : Pool) : Prop where
  each : ∀ uni, (s.dir uni).Holds
  room : s.own.length + (s.dir false).concurrency + (s.dir true).concurrency ≤ kMaxStreams
  served : s.closing ≠ some .poolExhausted

theorem Holds.update {s : Pool} (h : s.Holds) {uni : Bool} {d : Direction} (hd : d.Holds)
    (hroom : d.concurrency = (s.dir uni).concurrency) :
    Holds { s with dir := Function.update s.dir uni d } := by
  refine ⟨fun other => ?_, ?_, h.served⟩
  · by_cases heq : other = uni
    · subst heq
      simpa using hd
    · simpa [Function.update_of_ne heq] using h.each other
  · have := h.room
    cases uni <;> simpa [Function.update, hroom] using this

theorem Holds.inbound {s : Pool} (h : s.Holds) (uni own : Bool) (seq : Nat) (recv : Bool) :
    (s.inbound uni own seq recv).Holds := by
  have hclose : ∀ why, why ≠ .poolExhausted → (s.close why).Holds := by
    refine fun why hwhy => ⟨h.each, h.room, fun heq => ?_⟩
    rcases Option.or_eq_some_iff.mp heq with heq | ⟨-, heq⟩
    · exact h.served heq
    · exact hwhy (Option.some.inj heq)
  unfold Pool.inbound
  split
  · exact hclose _ nofun
  split
  · split
    · exact h
    · exact hclose _ nofun
  split
  · exact h
  rename_i hlive
  split
  · exact hclose _ nofun
  rename_i hlimit
  split
  · exact h
  rename_i hclosed
  have hopen := (h.each uni).opens (Nat.lt_of_not_le hlimit) (by simpa using hclosed) hlive
  split
  · exact h.update hopen rfl
  -- The stream itself would have been within the concurrency of its direction.
  · rename_i hfull
    have hmine := hopen.live_le
    have hother := (h.each !uni).live_le
    have hroom := h.room
    simp only [Direction.opens, length_cons] at hmine
    unfold liveStreams at hfull
    cases uni <;> simp only [Bool.not_false, Bool.not_true] at hother <;> omega

theorem Holds.step {s : Pool} (h : s.Holds) {ev : Event} (hev : s.Meets ev) : (s.step ev).Holds := by
  cases ev with
  | frame uni own seq recv => exact h.inbound uni own seq recv
  | openLocal uni credit =>
    simp only [Pool.step]
    split
    · exact ⟨h.each, hev, h.served⟩
    · exact h
  | finishLocal uni seq =>
    refine ⟨h.each, ?_, h.served⟩
    have hroom := h.room
    have := length_erase_le (a := (uni, seq)) (l := s.own)
    simp only [Pool.step]
    omega
  | finishPeer uni seq =>
    simp only [Pool.step]
    split
    · exact h.update ((h.each uni).release ‹_›) rfl
    · exact h
  | alpn n =>
    refine ⟨fun uni => ?_, by simpa [Pool.step, Direction.configure] using hev.2, h.served⟩
    cases uni
    · simpa [Pool.step] using (h.each false).configure hev.1
    · simpa [Pool.step] using h.each true

theorem holds_run {events : List Event}
    (h : Each (fun before ev => (run before).Meets ev) events) : (run events).Holds := by
  refine Each.invariant (fun events => (run events).Holds) h ?_ fun before ev hholds hmeets => ?_
  · refine ⟨fun uni => ?_, by decide, nofun⟩
    cases uni <;> exact ⟨⟨by simp [run, Book.bit], by simp [run], by simp [run]⟩, rfl,
      nodup_nil, by simp [run], by decide, by decide, nodup_nil, by simp [run]⟩
  · simpa [run] using hholds.step hmeets

theorem limit_le_step (s : Pool) (ev : Event) (uni : Bool) :
    (s.dir uni).book.limit ≤ ((s.step ev).dir uni).book.limit := by
  have hupdate : ∀ {d : Direction} {other : Bool}, (s.dir other).book.limit ≤ d.book.limit →
      (s.dir uni).book.limit ≤ (Function.update s.dir other d uni).book.limit := by
    intro d other hle
    by_cases heq : uni = other
    · subst heq
      simpa using hle
    · rw [Function.update_of_ne heq]
  cases ev with
  | frame u own seq recv =>
    simp only [Pool.step, Pool.inbound, close]
    split_ifs <;> first | exact le_rfl | exact hupdate le_rfl
  | openLocal u credit =>
    simp only [Pool.step]
    split <;> exact le_rfl
  | finishLocal u seq => exact le_rfl
  | finishPeer u seq =>
    simp only [Pool.step]
    split
    · refine hupdate ?_
      rw [← ((s.dir u).book.markClosed_frame seq).1]
      exact Nat.le_max_left _ _
    · exact le_rfl
  | alpn n => exact hupdate (Nat.le_max_left _ _)

/-- As long as the streams opened here leave the slots promised to the peer and the ALPN
does not lower the concurrency: no frame finds the pool exhausted, each stream of the peer
is opened once, no more than the configured number are live, the limit stays within the
window and only grows, and the bitmap says which streams were released. -/
theorem orderly_of_meets (events : List Event)
    (h : Each (fun before ev => (run before).Meets ev) events) :
    (run events).closing ≠ some .poolExhausted ∧
      ∀ uni, ((run events).dir uni).opened.Nodup ∧
        ((run events).dir uni).live.length ≤ ((run events).dir uni).concurrency ∧
        ((run events).dir uni).book.limit ≤
          ((run events).dir uni).book.floor + kClosedStreamWindowMax ∧
        (∀ seq, ((run events).dir uni).book.isClosed seq = true ↔
          seq ∈ ((run events).dir uni).released) ∧
        ∀ ev, ((run events).dir uni).book.limit ≤
          ((run (events ++ [ev])).dir uni).book.limit := by
  have hholds := holds_run h
  refine ⟨hholds.served, fun uni => ?_⟩
  have hdir := hholds.each uni
  refine ⟨hdir.once, hdir.live_le, hdir.window, fun seq => hdir.fits.isClosed_iff, fun ev => ?_⟩
  simpa [run] using limit_le_step (run events) ev uni

/-- Two streams of the peer, one of which is released, and one opened here. -/
theorem orderly_of_meets_three :
    (run [.frame false false 1 true, .openLocal true 3, .frame false false 0 true,
      .finishPeer false 1]).closing ≠ some .poolExhausted ∧
      ((run [.frame false false 1 true, .openLocal true 3, .frame false false 0 true,
        .finishPeer false 1]).dir false).book.isClosed 1 = true := by
  have h := orderly_of_meets [.frame false false 1 true, .openLocal true 3,
    .frame false false 0 true, .finishPeer false 1] (by decide +kernel)
  exact ⟨h.1, ((h.2 false).2.2.2.1 1).mpr (by decide +kernel)⟩

/-- Sixty-four streams opened here take every slot, and the first stream of a peer that was
granted eight closes the connection; an ALPN configured for four streams leaves the limit at
eight. -/
theorem pool_taken_and_limit_kept :
    (run (List.replicate 64 (.openLocal false 64) ++ [.frame false false 0 true])).closing =
        some .poolExhausted ∧
      ((run (.alpn 4 :: (List.range 8).map fun seq => .frame false false seq true)).dir
        false).concurrency = 4 ∧
      ((run (.alpn 4 :: (List.range 8).map fun seq => .frame false false seq true)).dir
        false).live.length = 8 := by
  decide +kernel

end Pool
end BoltApi.Quic.PeerStreams

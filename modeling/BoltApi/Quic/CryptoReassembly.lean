import Mathlib.Data.List.Induction
import BoltApi.Octets
import BoltApi.Lib.Ranges
import BoltApi.Lib.Ring

/-! # Reassembly of a CRYPTO stream

`CryptoReassembly` of `quic/connection.h`: the handshake bytes of one encryption
level, put into a flat buffer in any order, with the filled ranges beside it.
The range table is bounded, and `mark_filled` drops a range that finds it full,
so what is proved is when nothing is dropped. -/
namespace BoltApi.Quic
open Octets Lib.Ranges Lib.Ring List

def kMaxCryptoBuffer : Nat := 64 * 1024

def kMaxRanges : Nat := 64

structure CryptoFrame where
  offset : Nat
  data : Bytes
deriving DecidableEq

structure CryptoReassembly where
  buffer : Nat → UInt8 := fun _ => 0
  ranges : List Range := []
  recvCursor : Nat := 0
  highest : Nat := 0

namespace CryptoReassembly

/-- `add_range`. The ranges that end before `s` stay, those that `[s, e)` reaches
are merged into it; `none` when it reaches no range and the table is full. -/
def addRange (s e : Nat) (ranges : List Range) : Option (List Range) :=
  let before := ranges.takeWhile (·.stop < s)
  let after := ranges.dropWhile (·.stop < s)
  let merged := absorb ⟨s, e⟩ after
  if merged.2.length = after.length ∧ kMaxRanges ≤ ranges.length then none
  else some (before ++ merged.1 :: merged.2)

/-- `mark_filled`, with `recompute_contiguous`. The refusal of `add_range` is
ignored. -/
def markFilled (start n : Nat) (c : CryptoReassembly) : CryptoReassembly :=
  if n = 0 then c
  else
    let ranges := (addRange start (start + n) c.ranges).getD c.ranges
    { c with ranges, recvCursor := contiguous ranges }

def receive (c : CryptoReassembly) (f : CryptoFrame) : CryptoReassembly × Bool :=
  let len := f.data.length
  if kMaxCryptoBuffer < f.offset then (c, false)
  else if len = 0 then (c, true)
  else
    let stop := f.offset + len
    if kMaxCryptoBuffer < stop then (c, false)
    else
      let c := { c with highest := max stop c.highest }
      -- bytes already consumed contiguously are skipped
      let skip := c.recvCursor - f.offset
      if len ≤ skip then (c, true)
      else
        let at' := f.offset + skip
        let fresh := f.data.drop skip
        (markFilled at' fresh.length { c with buffer := overlay c.buffer at' fresh }, true)

/-- The buffer after the frames, and the frames for which `receive` returned
true. -/
def deliver (frames : List CryptoFrame) : CryptoReassembly × List CryptoFrame :=
  frames.foldl (fun s f =>
    ((s.1.receive f).1, if (s.1.receive f).2 then s.2 ++ [f] else s.2)) ({}, [])

end CryptoReassembly

namespace CryptoFrame

def Has (f : CryptoFrame) (x : Nat) : Prop := f.offset ≤ x ∧ x < f.offset + f.data.length

/-- The bytes of the frame are those of the string at its offset. -/
def TakenFrom (whole : Bytes) (f : CryptoFrame) : Prop := f.data <+: whole.drop f.offset

instance (whole : Bytes) (f : CryptoFrame) : Decidable (f.TakenFrom whole) :=
  inferInstanceAs (Decidable (_ <+: _))

def fits (f : CryptoFrame) : Bool :=
  f.offset ≤ kMaxCryptoBuffer ∧ (f.data = [] ∨ f.offset + f.data.length ≤ kMaxCryptoBuffer)

instance (f : CryptoFrame) (x : Nat) : Decidable (f.Has x) := inferInstanceAs (Decidable (_ ∧ _))

end CryptoFrame

/-- One of the frames carries the byte at offset `x`. -/
def CarriedBy (frames : List CryptoFrame) (x : Nat) : Prop := ∃ f ∈ frames, f.Has x

instance (frames : List CryptoFrame) (x : Nat) : Decidable (CarriedBy frames x) :=
  inferInstanceAs (Decidable (∃ f ∈ frames, _))

@[simp] theorem carriedBy_append (frames : List CryptoFrame) (f : CryptoFrame) (x : Nat) :
    CarriedBy (frames ++ [f]) x ↔ CarriedBy frames x ∨ f.Has x := by
  simp only [CarriedBy, mem_append, mem_singleton]
  constructor
  · rintro ⟨g, hg | rfl, hx⟩
    · exact .inl ⟨g, hg, hx⟩
    · exact .inr hx
  · rintro (⟨g, hg, hx⟩ | hx)
    · exact ⟨g, .inl hg, hx⟩
    · exact ⟨f, .inr rfl, hx⟩

namespace CryptoReassembly

/-! ## The range table -/

theorem length_place (r : Range) (l : List Range) :
    (place r l).length + (l.dropWhile (·.stop < r.start)).length =
      l.length + 1 + (absorb r (l.dropWhile (·.stop < r.start))).2.length := by
  have hsplit := congrArg List.length
    (takeWhile_append_dropWhile (p := fun q : Range => decide (q.stop < r.start)) (l := l))
  simp only [place, length_append, length_cons] at hsplit ⊢
  omega

theorem addRange_eq {s e ranges} (hl : ranges.length ≤ kMaxRanges) : addRange s e ranges =
      if (place ⟨s, e⟩ ranges).length ≤ kMaxRanges then some (place ⟨s, e⟩ ranges) else none := by
  have hlen := length_place ⟨s, e⟩ ranges
  have hrest := (absorb_suffix ⟨s, e⟩ (ranges.dropWhile (·.stop < s))).length_le
  simp only at hlen
  simp only [addRange]
  split
  · rw [if_neg (by omega)]
  · rw [if_pos (by omega)]
    rfl

theorem getD_addRange_length {s e ranges} (hl : ranges.length ≤ kMaxRanges) :
    ((addRange s e ranges).getD ranges).length ≤ kMaxRanges := by
  rw [addRange_eq hl]
  split
  · assumption
  · exact hl

/-! ## One delivery -/

structure Holds (whole : Bytes) (accepted : List CryptoFrame) (c : CryptoReassembly) : Prop where
  normal : Normal c.ranges
  room : c.ranges.length ≤ kMaxRanges
  kept : ∀ x, Covers c.ranges x ↔ CarriedBy accepted x
  bytes : ∀ x, Covers c.ranges x → whole[x]? = some (c.buffer x)
  cursor : c.recvCursor = contiguous c.ranges

variable {c : CryptoReassembly} {whole : Bytes} {accepted : List CryptoFrame}

theorem Holds.below_cursor (h : Holds whole accepted c) {x} (hx : x < c.recvCursor) :
    Covers c.ranges x :=
  (contiguous_isPrefixLength h.normal).1 x (h.cursor ▸ hx)

variable {f : CryptoFrame}

theorem Holds.of_known {high} (h : Holds whole accepted c)
    (hf : ∀ x, f.Has x → CarriedBy accepted x) :
    Holds whole (accepted ++ [f]) { c with highest := high } := by
  refine ⟨h.normal, h.room, fun x => ?_, h.bytes, h.cursor⟩
  rw [h.kept, carriedBy_append]
  exact ⟨.inl, fun hx => hx.elim id (hf x)⟩

theorem receive_result (c : CryptoReassembly) (f : CryptoFrame) : (c.receive f).2 = f.fits := by
  have hnil : f.data = [] ↔ f.data.length = 0 := length_eq_zero_iff.symm
  simp only [receive, CryptoFrame.fits, hnil]
  split
  · rw [eq_comm, decide_eq_false_iff_not]
    omega
  split
  · rw [eq_comm, decide_eq_true_iff]
    omega
  split
  · rw [eq_comm, decide_eq_false_iff_not]
    omega
  · rw [eq_comm]
    split <;> (rw [decide_eq_true_iff]; omega)

theorem receive_refused (h : f.fits = false) : (c.receive f).1 = c := by
  have hnil : f.data = [] ↔ f.data.length = 0 := length_eq_zero_iff.symm
  simp only [CryptoFrame.fits, decide_eq_false_iff_not, hnil] at h
  simp only [receive]
  split
  · rfl
  · split
    · rfl
    · rw [if_pos (by omega)]

theorem Holds.markFilled {c : CryptoReassembly} {f : CryptoFrame} {whole accepted skip high} (h : Holds whole accepted c)
    (hf : f.TakenFrom whole) (hskip : skip = c.recvCursor - f.offset) (hlen : skip < f.data.length)
    (hstop : f.offset + f.data.length ≤ kMaxCryptoBuffer)
    (hin : ∀ x, CarriedBy accepted x → x < kMaxCryptoBuffer)
    (hroom : pieces kMaxCryptoBuffer (CarriedBy (accepted ++ [f])) ≤ kMaxRanges) :
    Holds whole (accepted ++ [f])
      (markFilled (f.offset + skip) (f.data.drop skip).length
        { c with highest := high, buffer := overlay c.buffer (f.offset + skip) (f.data.drop skip) }) := by
  have hfresh : (f.data.drop skip).length ≠ 0 := by rw [length_drop]; omega
  have hend : f.offset + skip + (f.data.drop skip).length = f.offset + f.data.length := by
    rw [length_drop]
    omega
  simp only [CryptoReassembly.markFilled, if_neg hfresh, hend]
  obtain ⟨hnormal, hcovers⟩ :=
    place_spec ⟨f.offset + skip, f.offset + f.data.length⟩ c.ranges (by simp only; omega) h.normal
  -- what is skipped lies below the cursor, so the union is the whole frame's
  have hkept : ∀ x, Covers (place ⟨f.offset + skip, f.offset + f.data.length⟩ c.ranges) x ↔
      CarriedBy (accepted ++ [f]) x := by
    intro x
    rw [hcovers, carriedBy_append, ← h.kept]
    simp only [Range.Has, CryptoFrame.Has]
    constructor
    · rintro (hx | hx)
      · exact .inr ⟨by omega, hx.2⟩
      · exact .inl hx
    rintro (hx | hx)
    · exact .inr hx
    · by_cases hlow : x < f.offset + skip
      · exact .inr (h.below_cursor (by omega))
      · exact .inl ⟨by omega, hx.2⟩
  have hlen' : _ = pieces kMaxCryptoBuffer _ := hnormal.length_eq_pieces hkept (by
    intro x hx
    rcases (carriedBy_append accepted f x).mp hx with hx | hx
    · exact hin x hx
    · exact hx.2.trans_le hstop)
  rw [addRange_eq h.room, if_pos (by omega), Option.getD_some]
  refine ⟨hnormal, by simp only; omega, hkept, fun x hx => ?_, rfl⟩
  by_cases hnew : f.offset + skip ≤ x ∧ x < f.offset + f.data.length
  · have hget : (f.data.drop skip)[x - (f.offset + skip)]? = whole[x]? := by
      rw [List.getElem?_drop, getElem?_of_isPrefix_drop hf (by omega)]
      congr 1
      omega
    have hsome : x - (f.offset + skip) < (f.data.drop skip).length := by omega
    rw [← hget, List.getElem?_eq_getElem hsome]
    exact congrArg some (overlay_of_getElem hnew.1 (List.getElem?_eq_getElem hsome)).symm
  have hold : Covers c.ranges x := ((hcovers x).mp hx).resolve_left hnew
  rw [h.bytes x hold]
  refine congrArg some (overlay_of_outside ?_).symm
  omega

/-- One delivery keeps what is known, as long as the accepted bytes lie in no more
than `kMaxRanges` pieces. -/
theorem Holds.receive (h : Holds whole accepted c) (hf : f.TakenFrom whole)
    (hfits : f.fits) (hin : ∀ x, CarriedBy accepted x → x < kMaxCryptoBuffer)
    (hroom : pieces kMaxCryptoBuffer (CarriedBy (accepted ++ [f])) ≤ kMaxRanges) :
    Holds whole (accepted ++ [f]) (c.receive f).1 := by
  have hnil : f.data = [] ↔ f.data.length = 0 := length_eq_zero_iff.symm
  simp only [CryptoFrame.fits, decide_eq_true_iff, hnil] at hfits
  simp only [CryptoReassembly.receive]
  rw [if_neg (by omega)]
  split
  · refine h.of_known fun x hx => ?_
    simp only [CryptoFrame.Has] at hx
    omega
  rw [if_neg (by omega)]
  split
  · refine h.of_known fun x hx => (h.kept x).mp (h.below_cursor ?_)
    simp only [CryptoFrame.Has] at hx
    omega
  · exact h.markFilled hf rfl (by omega) (by omega) hin hroom

theorem receive_room (h : c.ranges.length ≤ kMaxRanges) :
    (c.receive f).1.ranges.length ≤ kMaxRanges := by
  simp only [CryptoReassembly.receive, CryptoReassembly.markFilled]
  split_ifs <;> first | exact h | exact getD_addRange_length h

/-! ## Every sequence of deliveries -/

variable (frames : List CryptoFrame)

theorem deliver_append (f : CryptoFrame) :
    deliver (frames ++ [f]) = (((deliver frames).1.receive f).1,
      if f.fits then (deliver frames).2 ++ [f] else (deliver frames).2) := by
  simp only [deliver, foldl_append, foldl_cons, foldl_nil, receive_result]

theorem deliver_accepted : (deliver frames).2 = frames.filter CryptoFrame.fits := by
  induction frames using List.reverseRecOn with
  | nil => rfl
  | append_singleton frames f ih =>
    rw [deliver_append, filter_append, ih, filter_singleton]
    cases f.fits <;> simp

theorem deliver_room : (deliver frames).1.ranges.length ≤ kMaxRanges := by
  induction frames using List.reverseRecOn with
  | nil => exact Nat.zero_le _
  | append_singleton frames f ih =>
    rw [deliver_append]
    exact receive_room ih

theorem fits_inside {frames : List CryptoFrame} {x : Nat}
    (hx : CarriedBy (frames.filter CryptoFrame.fits) x) : x < kMaxCryptoBuffer := by
  obtain ⟨f, hf, hx⟩ := hx
  have hfits := of_mem_filter hf
  simp only [CryptoFrame.fits, decide_eq_true_iff] at hfits
  simp only [CryptoFrame.Has] at hx
  obtain ⟨-, hnil | hstop⟩ := hfits
  · rw [hnil, length_nil] at hx
    omega
  · omega

/-- What the buffer should hold of the frames it accepted. -/
structure Exact (whole : Bytes) (accepted : List CryptoFrame) (c : CryptoReassembly) : Prop where
  normal : Normal c.ranges
  cursor : IsPrefixLength (CarriedBy accepted) c.recvCursor
  bytes : (List.range c.recvCursor).map c.buffer = whole.take c.recvCursor
  kept : ∀ x, Covers c.ranges x ↔ CarriedBy accepted x

theorem Holds.exact (h : Holds whole accepted c) : Exact whole accepted c := by
  have hfront := contiguous_isPrefixLength h.normal
  rw [← h.cursor] at hfront
  refine ⟨h.normal, ⟨fun x hx => (h.kept x).mp (hfront.1 x hx),
    fun hx => hfront.2 ((h.kept _).mpr hx)⟩, ?_, h.kept⟩
  refine ext_getElem? fun i => ?_
  by_cases hi : i < c.recvCursor
  · rw [List.getElem?_take_of_lt hi, h.bytes i (h.below_cursor hi)]
    simp [hi]
  · rw [List.getElem?_take, if_neg hi, List.getElem?_eq_none (by simp; omega)]

theorem deliver_holds (htaken : ∀ f ∈ frames, f.TakenFrom whole) (hroom : ∀ sent, sent <+: frames →
      pieces kMaxCryptoBuffer (CarriedBy (sent.filter CryptoFrame.fits)) ≤ kMaxRanges) :
    Holds whole (frames.filter CryptoFrame.fits) (deliver frames).1 := by
  induction frames using List.reverseRecOn with
  | nil => exact ⟨.nil, Nat.zero_le _, by simp [deliver, CarriedBy], by simp [deliver], rfl⟩
  | append_singleton frames f ih =>
    have hbefore := ih (fun g hg => htaken g (mem_append_left _ hg))
      fun sent hsent => hroom sent (hsent.trans (prefix_append _ _))
    have hlast := hroom (frames ++ [f]) prefix_rfl
    rw [filter_append, filter_singleton] at hlast ⊢
    rw [deliver_append]
    cases hfits : f.fits with
    | false =>
      rw [receive_refused hfits]
      simpa using hbefore
    | true =>
      simp only [hfits, cond_true] at hlast
      exact hbefore.receive (htaken f (by simp)) hfits (fun x => fits_inside) hlast

/-- The buffer is exact after every delivery if and only if the accepted bytes
never lie in more than `kMaxRanges` separate pieces. -/
theorem reassembly_exact_iff_pieces (whole : Bytes) (frames : List CryptoFrame)
    (htaken : ∀ f ∈ frames, f.TakenFrom whole) :
    (∀ sent, sent <+: frames → Exact whole (deliver sent).2 (deliver sent).1) ↔
      ∀ sent, sent <+: frames →
        pieces kMaxCryptoBuffer (CarriedBy (sent.filter CryptoFrame.fits)) ≤ kMaxRanges := by
  constructor
  · intro hexact sent hsent
    have h := hexact sent hsent
    have hkept := h.kept
    rw [deliver_accepted] at hkept
    rw [← h.normal.length_eq_pieces hkept fun x => fits_inside]
    exact deliver_room sent
  intro hroom sent hsent
  rw [deliver_accepted]
  exact (deliver_holds sent (fun f hf => htaken f (hsent.subset hf))
    fun pre hpre => hroom pre (hpre.trans hsent)).exact

theorem reassembly_exact_iff_pieces_reordered :
    (∀ f ∈ [CryptoFrame.mk 1 [8, 9], ⟨0, [7, 8]⟩], f.TakenFrom [7, 8, 9]) ∧
    ((∀ sent, sent <+: [CryptoFrame.mk 1 [8, 9], ⟨0, [7, 8]⟩] →
        Exact [7, 8, 9] (deliver sent).2 (deliver sent).1) ↔
      ∀ sent, sent <+: [CryptoFrame.mk 1 [8, 9], ⟨0, [7, 8]⟩] →
        pieces kMaxCryptoBuffer (CarriedBy (sent.filter CryptoFrame.fits)) ≤ kMaxRanges) := by
  have htaken : ∀ f ∈ [CryptoFrame.mk 1 [8, 9], ⟨0, [7, 8]⟩], f.TakenFrom [7, 8, 9] := by
    simp [CryptoFrame.TakenFrom]
  exact ⟨htaken, reassembly_exact_iff_pieces _ _ htaken⟩

/-- Every second byte of a string of 130, one at a time, and then all but the last
of them at once. -/
def scattered : List CryptoFrame :=
  (List.range 65).map (fun i => ⟨2 * i + 1, [0]⟩) ++ [⟨0, List.replicate 129 0⟩]

/-- The sixty-fifth single byte finds the table full: `receive` returns true, and
the byte is forgotten. The cursor stops before it when the gaps are filled. -/
theorem scattered_byte_forgotten :
    (∀ f ∈ scattered, f.TakenFrom (List.replicate 130 0)) ∧
    (deliver scattered).2 = scattered ∧
    (deliver scattered).1.recvCursor = 129 ∧
    ¬ IsPrefixLength (CarriedBy (deliver scattered).2) (deliver scattered).1.recvCursor := by
  have hcursor : (deliver scattered).1.recvCursor = 129 := by decide +kernel
  have haccepted : (deliver scattered).2 = scattered := by
    rw [deliver_accepted]
    decide +kernel
  refine ⟨?_, haccepted, hcursor, fun h => ?_⟩
  · decide +kernel
  · rw [hcursor, haccepted] at h
    exact h.2 (by decide +kernel)

end CryptoReassembly
end BoltApi.Quic

import Mathlib.Data.List.Chain
import Mathlib.Algebra.Order.Group.Unbundled.Int
import BoltApi.WebRtc.Wire

/-! # Transport-wide feedback

`TwccFeedbackBuilder` and `parse_twcc_feedback` of `bwe.h`. The builder writes the
first sequence number and one delta for each arrival; the parser counts the
sequence numbers up from the first. -/
namespace BoltApi.WebRtc.Twcc
open List Octets Wire

structure Arrival where
  seq : UInt16
  arrivalUs : Int

def kMaxFeedbackPackets : Nat := 256

/-- `TwccFeedbackBuilder`. -/
structure Builder where
  window : List Arrival := []
  fbCount : UInt8 := 0
  bounded : window.length ≤ kMaxFeedbackPackets := by decide

def Builder.onPacket (b : Builder) (a : Arrival) : Builder :=
  if h : kMaxFeedbackPackets ≤ b.window.length then b
  else { b with window := b.window ++ [a], bounded := by rw [length_append]; exact Nat.lt_of_not_ge h }

def clamp (d : Int) : Nat := (max (-32768) (min d 32767) % 2 ^ 16).toNat

def deltas (prev : Int) : List Arrival → Bytes
  | [] => []
  | a :: l => wr16 (clamp (a.arrivalUs - prev)) ++ deltas a.arrivalUs l

def reftick (ref : Int) : Nat := (ref.tdiv 64 % 2 ^ 24).toNat

/-- The eight octets in front of the deltas. -/
def header (first : Arrival) (count : Nat) (fbCount : UInt8) : Bytes :=
  let tick := reftick first.arrivalUs
  wr16 first.seq.toNat ++ (wr16 count ++ UInt8.ofNat (tick / 2 ^ 16) :: (wr16 tick ++ [fbCount]))

/-- The octets written, none on an empty window or a buffer too small for it. -/
def Builder.build (b : Builder) (cap : Nat) : Bytes × Builder :=
  match b.window with
  | [] => ([], b)
  | first :: l =>
    if cap < 8 + (l.length + 1) * 2 then ([], b)
    else (header first (l.length + 1) b.fbCount ++ deltas first.arrivalUs (first :: l),
      { fbCount := b.fbCount + 1 })

structure FeedbackRecord where
  seq : UInt16
  arrivalUs : Int
deriving DecidableEq

def int16 (n : Nat) : Int := if n < 2 ^ 15 then n else n - 2 ^ 16

/-- The loop of `parse_twcc_feedback`, with the rounds left to go. -/
def records (fci : Bytes) (base : UInt16) : Nat → Nat → Int → List FeedbackRecord
  | 0, _, _ => []
  | k + 1, i, cur =>
    if fci.length < 8 + i * 2 + 2 then []
    else
      let cur := cur + int16 (rd16 fci (8 + i * 2))
      ⟨base + UInt16.ofNat i, cur⟩ :: records fci base k (i + 1) cur

def parseTwccFeedback (fci : Bytes) (cap : Nat) : List FeedbackRecord :=
  if fci.length < 8 then []
  else records fci (UInt16.ofNat (rd16 fci 0)) (min (rd16 fci 2) cap) 0
    ((octet fci 4 * 2 ^ 16 + rd16 fci 5) * 64)

/-! ## What the parser reads of what the builder wrote -/

variable {l window : List Arrival} {prev offset : Int} {base : UInt16} {i n : Nat} {before : Bytes}

/-- Arrivals less than 32767 microseconds apart. -/
def Close (prev : Int) (l : List Arrival) : Prop :=
  (prev :: l.map Arrival.arrivalUs).IsChain fun a b => |b - a| < 32767

theorem int16_clamp {d : Int} (h : |d| < 32767) : int16 (clamp d) = d := by
  rw [abs_lt] at h
  unfold int16 clamp
  split <;> omega

theorem clamp_lt (d : Int) : clamp d < 2 ^ 16 := by
  unfold clamp
  omega

theorem records_deltas (h : Close prev l) (hlen : before.length = 8 + i * 2) :
    records (before ++ deltas prev l) base l.length i (prev + offset) =
      l.mapIdx fun j a => ⟨base + UInt16.ofNat (i + j), a.arrivalUs + offset⟩ := by
  induction l generalizing prev i before with
  | nil => rfl
  | cons a l ih =>
    obtain ⟨ha, hl⟩ := isChain_cons_cons.mp h
    have hread : rd16 (before ++ deltas prev (a :: l)) (8 + i * 2) = clamp (a.arrivalUs - prev) := by
      rw [rd16_append_right (n := 0) hlen.symm, deltas, rd16_wr16 (clamp_lt _)]
    have hcur : prev + offset + (a.arrivalUs - prev) = a.arrivalUs + offset := by omega
    rw [length_cons, records, if_neg (by simp [deltas, wr16, hlen]), hread, int16_clamp ha, hcur,
      mapIdx_cons, deltas, ← append_assoc]
    refine congrArg _ ((ih hl (by simp [wr16, hlen]; omega)).trans ?_)
    simp only [Nat.add_assoc, Nat.add_comm 1]

theorem parse_build {b : Builder} {cap out : Nat} {first : Arrival} (hw : b.window = first :: l)
    (hcap : 8 + b.window.length * 2 ≤ cap) (hout : b.window.length ≤ out)
    (hclose : Close first.arrivalUs b.window) :
    ∃ offset, parseTwccFeedback (b.build cap).1 out =
      b.window.mapIdx fun j a => ⟨first.seq + UInt16.ofNat j, a.arrivalUs + offset⟩ := by
  have hlen := b.bounded
  simp only [hw, length_cons, kMaxFeedbackPackets] at hcap hout hclose hlen
  have hbuild : (b.build cap).1 =
      header first (l.length + 1) b.fbCount ++ deltas first.arrivalUs (first :: l) := by
    simp only [Builder.build, hw, if_neg (Nat.not_lt.mpr hcap)]
  have hbase : rd16 (b.build cap).1 0 = first.seq.toNat := by
    rw [hbuild, header, append_assoc, rd16_wr16 first.seq.toNat_lt]
  have hcount : rd16 (b.build cap).1 2 = l.length + 1 := by
    rw [hbuild, header, append_assoc, rd16_append_right (n := 0) (by rfl), append_assoc,
      rd16_wr16 (by omega)]
  have hlong : ¬ (b.build cap).1.length < 8 := by
    rw [hbuild, length_append]
    exact Nat.not_lt.mpr (Nat.le_add_right 8 _)
  -- whatever the tick in the header is, the times start from it
  obtain ⟨start, hstart⟩ : ∃ start, parseTwccFeedback (b.build cap).1 out =
      records (b.build cap).1 first.seq (first :: l).length 0 start :=
    ⟨_, by rw [parseTwccFeedback, if_neg hlong, hbase, hcount, UInt16.ofNat_toNat,
      Nat.min_eq_left hout, length_cons]⟩
  have hread : records (header first (l.length + 1) b.fbCount ++ deltas first.arrivalUs (first :: l))
      first.seq (first :: l).length 0 (first.arrivalUs + (start - first.arrivalUs)) = _ :=
    records_deltas hclose rfl
  rw [add_sub_cancel, ← hbuild, ← hstart] at hread
  exact ⟨_, by simpa only [hw, Nat.zero_add] using hread⟩

def Consecutive (window : List Arrival) : Prop :=
  ∀ first i a, window[0]? = some first → window[i]? = some a → a.seq = first.seq + UInt16.ofNat i

/-- Each recorded sequence number comes back with its own arrival, up to one offset, exactly when
the recorded ones are consecutive. -/
theorem feedback_pairs_iff (b : Builder) {cap out : Nat} (hcap : 8 + b.window.length * 2 ≤ cap)
    (hout : b.window.length ≤ out)
    (hclose : (b.window.map Arrival.arrivalUs).IsChain fun x y => |y - x| < 32767) :
    (∃ offset, parseTwccFeedback (b.build cap).1 out =
      b.window.map fun a => ⟨a.seq, a.arrivalUs + offset⟩) ↔ Consecutive b.window := by
  cases hw : b.window with
  | nil =>
    have hempty : parseTwccFeedback (b.build cap).1 out = [] := by
      simp only [Builder.build, hw]
      rfl
    exact iff_of_true ⟨0, hempty⟩ nofun
  | cons first l =>
    have hfirst : Close first.arrivalUs b.window := by
      rw [hw] at hclose ⊢
      exact isChain_cons_cons.mpr ⟨by simp, hclose⟩
    obtain ⟨start, hparse⟩ := parse_build hw hcap hout hfirst
    rw [← hw, hparse]
    constructor
    · rintro ⟨offset, heq⟩ f i a hf ha
      rw [hw] at hf
      cases hf
      have hi := congrArg (·[i]?) heq
      simp only [getElem?_mapIdx, getElem?_map, ha, Option.map_some, Option.some.injEq,
        FeedbackRecord.mk.injEq] at hi
      exact hi.1.symm
    intro hcons
    refine ⟨start, ext_getElem? fun i => ?_⟩
    rw [getElem?_mapIdx, getElem?_map]
    cases ha : b.window[i]? with
    | none => rfl
    | some a => rw [Option.map_some, Option.map_some, hcons first i a (by rw [hw]; rfl) ha]

/-- Sequence number 2 was lost: the arrival of 3 is reported as that of 2. -/
theorem lost_packet_shifts_feedback :
    parseTwccFeedback (Builder.build { window := [⟨1, 0⟩, ⟨3, 1000⟩] } 520).1 256 =
      [⟨1, 0⟩, ⟨2, 1000⟩] := by
  decide +kernel

theorem feedback_pairs_consecutive :
    ∃ offset, parseTwccFeedback (Builder.build { window := [⟨65535, 640⟩, ⟨0, 700⟩] } 520).1 256 =
      [⟨65535, 640 + offset⟩, ⟨0, 700 + offset⟩] :=
  (feedback_pairs_iff { window := [⟨65535, 640⟩, ⟨0, 700⟩] } (by decide) (by decide)
    (isChain_pair.mpr (by decide))).mpr (by
      intro first i a hf ha
      cases hf
      match i, ha with
      | 0, ha => cases ha; rfl
      | 1, ha => cases ha; rfl)

end BoltApi.WebRtc.Twcc

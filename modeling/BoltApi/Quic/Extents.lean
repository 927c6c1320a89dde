import BoltApi.Lib.Ranges

/-! # The extents past a cursor

`Stream::ExtentSet` of `quic/stream.h`: up to `kMaxRecvExtents` ranges above a
contiguous cursor, in no order. A range that touches a recorded one is merged into
the first such, and two recorded ranges may come to overlap; the union is what
counts. -/
namespace BoltApi.Quic

/-- The ring of one direction of a stream. -/
def kStreamBufferSize : Nat := 256 * 1024
def kMaxStreams : Nat := 64

namespace ExtentSet
open Lib.Ranges List

def kMaxRecvExtents : Nat := 32

def Touches (s e : Nat) (x : Range) : Prop := s ≤ x.stop ∧ x.start ≤ e

instance (s e : Nat) (x : Range) : Decidable (Touches s e x) := inferInstanceAs (Decidable (_ ∧ _))

/-- The loop of `add`: the first extent that `[s, e)` touches takes it in. -/
def widen (s e : Nat) : List Range → Option (List Range)
  | [] => none
  | x :: rest =>
    if Touches s e x then some (⟨min s x.start, max e x.stop⟩ :: rest)
    else (widen s e rest).map (x :: ·)

def add (s e : Nat) (ext : List Range) : Option (List Range) :=
  match widen s e ext with
  | some ext => some ext
  | none => if kMaxRecvExtents ≤ ext.length then none else some (ext ++ [⟨s, e⟩])

/-- `ext[i] = ext[--count]`, on the extents from `i + 1` on: the last one takes the
place of the one dropped. -/
def lastFirst (l : List Range) : List Range :=
  match l.getLast? with
  | none => []
  | some x => x :: l.dropLast

/-- The rounds of `absorb`: the cursor moves over one extent that it reaches, the
first in the array, and the extent is dropped. -/
def absorbRounds : Nat → Nat → List Range → Nat × List Range
  | 0, cursor, ext => (cursor, ext)
  | rounds + 1, cursor, ext =>
    match ext.dropWhile (cursor < ·.start) with
    | [] => (cursor, ext)
    | x :: after =>
      absorbRounds rounds (max x.stop cursor)
        (ext.takeWhile (cursor < ·.start) ++ lastFirst after)

def absorb (cursor : Nat) (ext : List Range) : Nat × List Range :=
  absorbRounds (kMaxRecvExtents + 1) cursor ext

/-! ## Adding an extent -/

variable {ext : List Range} {s e : Nat}

theorem widen_eq_none : widen s e ext = none ↔ ∀ x ∈ ext, ¬ Touches s e x := by
  induction ext with
  | nil => simp [widen]
  | cons x rest ih =>
    rw [widen, forall_mem_cons]
    split <;> simp_all

variable {ext' : List Range}

theorem widen_spec (h : widen s e ext = some ext') (hproper : ∀ x ∈ ext, x.start < x.stop) :
    ext'.length = ext.length ∧ ∀ y, Covers ext' y ↔ Covers ext y ∨ Range.Has ⟨s, e⟩ y := by
  induction ext generalizing ext' with
  | nil => simp [widen] at h
  | cons x rest ih =>
    rw [widen] at h
    split at h
    · rename_i htouch
      obtain rfl := Option.some.inj h
      have hx := hproper x (.head rest)
      refine ⟨rfl, fun y => ?_⟩
      have hmerged : Range.Has ⟨min s x.start, max e x.stop⟩ y ↔ x.Has y ∨ Range.Has ⟨s, e⟩ y := by
        simp only [Range.Has, Touches] at htouch ⊢
        omega
      rw [covers_cons, covers_cons, hmerged]
      tauto
    obtain ⟨rest', hrest, rfl⟩ := Option.map_eq_some_iff.mp h
    obtain ⟨hlen, hcovers⟩ := ih hrest fun y hy => hproper y (.tail x hy)
    refine ⟨by simp [hlen], fun y => ?_⟩
    rw [covers_cons, covers_cons, hcovers]
    tauto

theorem widen_proper (h : widen s e ext = some ext')
    (hse : s < e) (hproper : ∀ x ∈ ext, x.start < x.stop) : ∀ x ∈ ext', x.start < x.stop := by
  induction ext generalizing ext' with
  | nil => simp [widen] at h
  | cons x rest ih =>
    rw [widen] at h
    obtain ⟨hx, hrest⟩ := forall_mem_cons.mp hproper
    split at h
    · obtain rfl := Option.some.inj h
      exact forall_mem_cons.mpr ⟨by simp only; omega, hrest⟩
    · obtain ⟨rest', hrest', rfl⟩ := Option.map_eq_some_iff.mp h
      exact forall_mem_cons.mpr ⟨hx, ih hrest' hrest⟩

theorem add_eq_none :
    add s e ext = none ↔ kMaxRecvExtents ≤ ext.length ∧ ∀ x ∈ ext, ¬ Touches s e x := by
  rw [← widen_eq_none, add]
  cases widen s e ext with
  | some ext' => simp
  | none => simp

structure Added (s e : Nat) (ext ext' : List Range) : Prop where
  few : ext'.length ≤ kMaxRecvExtents
  proper : ∀ x ∈ ext', x.start < x.stop
  covers : ∀ y, Covers ext' y ↔ Covers ext y ∨ Range.Has ⟨s, e⟩ y

theorem add_spec (h : add s e ext = some ext') (hse : s < e)
    (hproper : ∀ x ∈ ext, x.start < x.stop) (hfew : ext.length ≤ kMaxRecvExtents) :
    Added s e ext ext' := by
  rw [add] at h
  cases hw : widen s e ext with
  | some wide =>
    rw [hw] at h
    obtain rfl := Option.some.inj h
    obtain ⟨hlen, hcovers⟩ := widen_spec hw hproper
    exact ⟨by omega, widen_proper hw hse hproper, hcovers⟩
  | none =>
    rw [hw] at h
    simp only at h
    split at h
    · contradiction
    obtain rfl := Option.some.inj h
    refine ⟨by simp only [length_append, length_singleton]; omega, ?_, fun y => by simp⟩
    intro x hx
    rcases mem_append.mp hx with hx | hx
    · exact hproper x hx
    · obtain rfl := mem_singleton.mp hx
      exact hse

/-! ## Moving the cursor -/

theorem lastFirst_perm (l : List Range) : (lastFirst l).Perm l := by
  rw [lastFirst]
  cases h : l.getLast? with
  | none => rw [List.getLast?_eq_none_iff.mp h]
  | some x =>
    obtain ⟨front, rfl⟩ := List.getLast?_eq_some_iff.mp h
    simp only [dropLast_concat]
    exact (perm_append_singleton x front).symm

theorem covers_perm {l m} (h : l.Perm m) (y : Nat) : Covers l y ↔ Covers m y := by
  simp only [Covers, h.mem_iff]

/-- What `absorb` gives: no extent left that the cursor reaches, and the same
numbers below the cursor or in an extent. -/
structure Settled (cursor : Nat) (ext : List Range) (r : Nat × List Range) : Prop where
  beyond : ∀ x ∈ r.2, r.1 < x.start
  covers : ∀ y, y < r.1 ∨ Covers r.2 y ↔ y < cursor ∨ Covers ext y
  subset : r.2 ⊆ ext
  few : r.2.length ≤ ext.length
  mono : cursor ≤ r.1

theorem absorbRounds_settled {rounds cursor} (h : ext.length < rounds) :
    Settled cursor ext (absorbRounds rounds cursor ext) := by
  induction rounds generalizing cursor ext with
  | zero => omega
  | succ rounds ih =>
    have hsplit : ext.takeWhile (cursor < ·.start) ++ ext.dropWhile (cursor < ·.start) = ext :=
      takeWhile_append_dropWhile
    rw [absorbRounds]
    cases hdrop : ext.dropWhile (cursor < ·.start) with
    | nil =>
      refine ⟨fun x hx => ?_, fun y => Iff.rfl, List.Subset.refl _, le_rfl, le_rfl⟩
      simpa using dropWhile_eq_nil_iff.mp hdrop x hx
    | cons x after =>
      have hreach : x.start ≤ cursor := by
        have hne : ext.dropWhile (cursor < ·.start) ≠ [] := by simp [hdrop]
        have hhead := head_dropWhile_not (fun q : Range => decide (cursor < q.start)) hne
        simpa [hdrop] using hhead
      rw [hdrop] at hsplit
      generalize ext.takeWhile (cursor < ·.start) = before at hsplit ⊢
      subst hsplit
      -- the extent dropped goes into the cursor, the others are only moved
      have hperm : (before ++ lastFirst after).Perm (before ++ after) :=
        (lastFirst_perm after).append_left before
      have hsub : before ++ after ⊆ before ++ x :: after := by
        intro q hq
        simp only [mem_append, mem_cons] at hq ⊢
        tauto
      obtain ⟨hbeyond, hcovers, hsubset, hfew, hmono⟩ := @ih (before ++ lastFirst after)
        (max x.stop cursor) (by
          rw [hperm.length_eq]
          simp only [length_append, length_cons] at h ⊢
          omega)
      refine ⟨hbeyond, fun y => ?_, fun q hq => hsub (hperm.subset (hsubset hq)), ?_,
        (le_max_right _ _).trans hmono⟩
      · rw [hcovers, covers_perm hperm, covers_append, covers_append, covers_cons]
        have hx : y < max x.stop cursor ↔ y < cursor ∨ x.Has y := by
          simp only [Range.Has]
          omega
        rw [hx]
        tauto
      · rw [hperm.length_eq] at hfew
        simp only [length_append, length_cons] at hfew ⊢
        omega

theorem absorb_settled {cursor} (h : ext.length ≤ kMaxRecvExtents) :
    Settled cursor ext (absorb cursor ext) :=
  absorbRounds_settled (by omega)

end ExtentSet
end BoltApi.Quic

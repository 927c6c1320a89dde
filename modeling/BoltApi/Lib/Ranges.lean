import Mathlib.Data.List.Basic
import Mathlib.Data.List.Pairwise
import Mathlib.Data.List.Perm.Basic
import Mathlib.Data.List.TakeWhile
import Mathlib.Data.List.Nodup

/-! # Sets of numbers as sorted ranges

A set of numbers kept as half-open ranges in increasing order, no two of which
overlap or touch. Such a list is the only one for its set, and has one range for
each number of the set that does not follow another number of it. -/
namespace BoltApi.Lib.Ranges
open List

structure Range where
  start : Nat
  stop : Nat
deriving DecidableEq

def Range.Has (r : Range) (x : Nat) : Prop := r.start ≤ x ∧ x < r.stop

instance (r : Range) (x : Nat) : Decidable (r.Has x) := inferInstanceAs (Decidable (_ ∧ _))

def Covers (l : List Range) (x : Nat) : Prop := ∃ r ∈ l, r.Has x

instance (l : List Range) (x : Nat) : Decidable (Covers l x) :=
  inferInstanceAs (Decidable (∃ r ∈ l, _))

@[simp] theorem covers_nil (x : Nat) : ¬ Covers [] x := by simp [Covers]

@[simp] theorem covers_cons (r : Range) (l : List Range) (x : Nat) :
    Covers (r :: l) x ↔ r.Has x ∨ Covers l x := by simp [Covers]

@[simp] theorem covers_append (l m : List Range) (x : Nat) :
    Covers (l ++ m) x ↔ Covers l x ∨ Covers m x := by
  simp only [Covers, mem_append]
  constructor
  · rintro ⟨r, hr | hr, hx⟩
    · exact .inl ⟨r, hr, hx⟩
    · exact .inr ⟨r, hr, hx⟩
  · rintro (⟨r, hr, hx⟩ | ⟨r, hr, hx⟩)
    · exact ⟨r, .inl hr, hx⟩
    · exact ⟨r, .inr hr, hx⟩

def Apart (a b : Range) : Prop := a.stop < b.start

instance (a b : Range) : Decidable (Apart a b) := inferInstanceAs (Decidable (_ < _))

structure Normal (l : List Range) : Prop where
  proper : ∀ r ∈ l, r.start < r.stop
  apart : l.Pairwise Apart

theorem Normal.nil : Normal [] := ⟨by simp, .nil⟩

variable {l : List Range} {r : Range}

theorem Normal.tail (h : Normal (r :: l)) : Normal l :=
  ⟨fun q hq => h.proper q (.tail r hq), h.apart.of_cons⟩

theorem Normal.cons (hr : r.start < r.stop)
    (hl : ∀ q ∈ l, Apart r q) (h : Normal l) : Normal (r :: l) :=
  ⟨forall_mem_cons.mpr ⟨hr, h.proper⟩, .cons hl h.apart⟩

/-! ## Insertion -/

def absorb : Range → List Range → Range × List Range
  | r, [] => (r, [])
  | r, q :: rest =>
    if q.start ≤ r.stop then absorb ⟨min q.start r.start, max q.stop r.stop⟩ rest
    else (r, q :: rest)

def place (r : Range) (l : List Range) : List Range :=
  let m := absorb r (l.dropWhile (·.stop < r.start))
  l.takeWhile (·.stop < r.start) ++ m.1 :: m.2

theorem absorb_suffix (r : Range) (l : List Range) : (absorb r l).2 <:+ l := by
  induction l generalizing r with
  | nil => exact suffix_rfl
  | cons q rest ih =>
    simp only [absorb]
    split
    · exact (ih _).trans (suffix_cons q rest)
    · exact suffix_rfl

/-- What `absorb` gives when no range of the list ends before the new one starts. -/
structure Absorbed (r : Range) (l : List Range) (m : Range × List Range) : Prop where
  normal : Normal (m.1 :: m.2)
  covers : ∀ x, Covers (m.1 :: m.2) x ↔ r.Has x ∨ Covers l x
  after : ∀ b, b < r.start → (∀ q ∈ l, b < q.start) → b < m.1.start

theorem absorb_spec (r : Range) (l : List Range) (hr : r.start < r.stop) (hl : Normal l)
    (hreach : ∀ q ∈ l, r.start ≤ q.stop) : Absorbed r l (absorb r l) := by
  induction l generalizing r with
  | nil => exact ⟨.cons hr (by simp [absorb]) .nil, by simp [absorb], fun b hb _ => hb⟩
  | cons q rest ih =>
    have hq := hl.proper q (.head rest)
    have hrest : ∀ p ∈ rest, q.stop < p.start := fun p hp => rel_of_pairwise_cons hl.apart hp
    by_cases hmeet : q.start ≤ r.stop
    · -- the two touch, so the merged range has exactly the numbers of both
      have hqr := hreach q (.head rest)
      obtain ⟨hn, hc, ha⟩ := ih ⟨min q.start r.start, max q.stop r.stop⟩ (by simp only; omega) hl.tail
        (by
          intro p hp
          have := hrest p hp
          have := hl.tail.proper p hp
          simp only
          omega)
      simp only [absorb, if_pos hmeet]
      refine ⟨hn, fun x => ?_, fun b hb hbl => ?_⟩
      · rw [hc, covers_cons]
        have hmerged : Range.Has ⟨min q.start r.start, max q.stop r.stop⟩ x ↔
            r.Has x ∨ q.Has x := by
          simp only [Range.Has]
          omega
        rw [hmerged, or_assoc]
      · have hbq := hbl q (.head rest)
        exact ha b (by simp only; omega) fun p hp => hbl p (.tail q hp)
    simp only [absorb, if_neg hmeet]
    refine ⟨.cons hr (fun p hp => ?_) hl, fun x => by simp, fun b hb _ => hb⟩
    have hlt : r.stop < q.start := by omega
    rcases mem_cons.mp hp with rfl | hp
    · exact hlt
    · exact hlt.trans (hq.trans (hrest p hp))

theorem dropWhile_ends {s} (h : Normal l) : ∀ q ∈ l.dropWhile (·.stop < s), s ≤ q.stop := by
  induction l with
  | nil => simp
  | cons p rest ih =>
    rw [dropWhile_cons]
    split
    · exact ih h.tail
    rename_i hp
    have hp : s ≤ p.stop := by simpa using hp
    intro q hq
    rcases mem_cons.mp hq with rfl | hq
    · exact hp
    · have hpq : p.stop < q.start := rel_of_pairwise_cons h.apart hq
      have := h.tail.proper q hq
      omega

theorem place_spec (r : Range) (l : List Range) (hr : r.start < r.stop) (hl : Normal l) :
    Normal (place r l) ∧ ∀ x, Covers (place r l) x ↔ r.Has x ∨ Covers l x := by
  have hsplit : l.takeWhile (·.stop < r.start) ++ l.dropWhile (·.stop < r.start) = l :=
    takeWhile_append_dropWhile
  have hends := dropWhile_ends (s := r.start) hl
  have hstops : ∀ b ∈ l.takeWhile (·.stop < r.start), b.stop < r.start := by
    intro b hb
    simpa using mem_takeWhile_imp hb
  simp only [place]
  generalize l.takeWhile (·.stop < r.start) = before at hsplit hstops ⊢
  generalize l.dropWhile (·.stop < r.start) = after at hsplit hends ⊢
  subst hsplit
  obtain ⟨hbefore, hafter, hcross⟩ := pairwise_append.mp hl.apart
  have hnormal : Normal after := ⟨fun q hq => hl.proper q (by simp [hq]), hafter⟩
  obtain ⟨hn, hc, ha⟩ := absorb_spec r after hr hnormal hends
  have hsuffix := absorb_suffix r after
  generalize absorb r after = m at hn hc ha hsuffix ⊢
  constructor
  · refine ⟨fun q hq => ?_, pairwise_append.mpr ⟨hbefore, hn.apart, fun b hb q hq => ?_⟩⟩
    · rcases mem_append.mp hq with hq | hq
      · exact hl.proper q (by simp [hq])
      · exact hn.proper q hq
    · rcases mem_cons.mp hq with rfl | hq
      · exact ha b.stop (hstops b hb) fun p hp => hcross b hb p hp
      · exact hcross b hb q (hsuffix.mem hq)
  · intro x
    rw [covers_append, hc, covers_append]
    tauto

/-! ## Counting the ranges of a set -/

/-- The numbers of the set below `cap` that do not follow another number of it. -/
def pieces (cap : Nat) (p : Nat → Prop) [DecidablePred p] : Nat :=
  ((List.range cap).filter fun x => p x ∧ (x = 0 ∨ ¬ p (x - 1))).length

theorem Normal.eq_of_has (h : Normal l) {q} (hq : q ∈ l) (hr : r ∈ l) {x y} (hx : q.Has x)
    (hy : r.Has y) (hxy : x ≤ y) (hyx : y ≤ x + 1) : q = r := by
  by_contra hne
  have hsymm : Std.Symm fun a b => Apart a b ∨ Apart b a := ⟨fun _ _ => Or.symm⟩
  have hsym : l.Pairwise fun a b => Apart a b ∨ Apart b a := h.apart.imp .inl
  have hsym := hsym.forall hq hr hne
  simp only [Range.Has, Apart] at hx hy hsym
  omega

theorem mem_starts (h : Normal l) (x : Nat) :
    x ∈ l.map Range.start ↔ Covers l x ∧ (x = 0 ∨ ¬ Covers l (x - 1)) := by
  constructor
  · intro hx
    obtain ⟨r, hr, rfl⟩ := mem_map.mp hx
    have hhas : r.Has r.start := ⟨le_rfl, h.proper r hr⟩
    refine ⟨⟨r, hr, hhas⟩, ?_⟩
    by_cases h0 : r.start = 0
    · exact .inl h0
    refine .inr fun ⟨q, hq, hqx⟩ => ?_
    obtain rfl := h.eq_of_has hq hr hqx hhas (by omega) (by omega)
    simp only [Range.Has] at hqx
    omega
  rintro ⟨⟨r, hr, hx⟩, hfirst⟩
  refine mem_map.mpr ⟨r, hr, ?_⟩
  by_contra hne
  simp only [Range.Has] at hx
  rcases hfirst with rfl | hprev
  · omega
  · exact hprev ⟨r, hr, by simp only [Range.Has]; omega⟩

theorem starts_nodup (h : Normal l) : (l.map Range.start).Nodup := by
  refine List.Nodup.map_on (fun q hq r hr heq => ?_) ?_
  · have hx : q.Has q.start := ⟨le_rfl, h.proper q hq⟩
    have hy : r.Has r.start := ⟨le_rfl, h.proper r hr⟩
    exact h.eq_of_has hq hr hx hy (by omega) (by omega)
  refine List.Pairwise.imp_of_mem (fun hq _ hab heq => ?_) h.apart
  subst heq
  have := h.proper _ hq
  simp only [Apart] at hab
  omega

theorem Normal.length_eq_pieces (h : Normal l) {cap p} [DecidablePred p]
    (hp : ∀ x, Covers l x ↔ p x) (hcap : ∀ x, p x → x < cap) : l.length = pieces cap p := by
  have hperm : (l.map Range.start).Perm
      ((List.range cap).filter fun x => p x ∧ (x = 0 ∨ ¬ p (x - 1))) := by
    rw [perm_ext_iff_of_nodup (starts_nodup h) (nodup_range.filter _)]
    intro x
    rw [mem_starts h, mem_filter, mem_range, hp, hp]
    simp only [decide_eq_true_eq]
    exact ⟨fun hx => ⟨hcap x hx.1, hx⟩, fun hx => hx.2⟩
  simpa [pieces] using hperm.length_eq

/-! ## The prefix of the set -/

def contiguous : List Range → Nat
  | [] => 0
  | r :: _ => if r.start = 0 then r.stop else 0

/-- `n` is the length of the longest prefix of the numbers that lies in the set. -/
def IsPrefixLength (p : Nat → Prop) (n : Nat) : Prop := (∀ x < n, p x) ∧ ¬ p n

theorem contiguous_isPrefixLength (h : Normal l) : IsPrefixLength (Covers l) (contiguous l) := by
  cases l with
  | nil => exact ⟨fun x hx => by simp [contiguous] at hx, covers_nil _⟩
  | cons r rest =>
    have hr := h.proper r (.head rest)
    have hrest : ∀ q ∈ rest, r.stop < q.start := fun q hq => rel_of_pairwise_cons h.apart hq
    simp only [contiguous]
    split
    · refine ⟨fun x hx => ⟨r, .head rest, by omega, hx⟩, ?_⟩
      rintro ⟨q, hq, hx⟩
      simp only [Range.Has] at hx
      rcases mem_cons.mp hq with rfl | hq
      · omega
      · have := hrest q hq
        omega
    refine ⟨fun x hx => absurd hx (Nat.not_lt_zero x), ?_⟩
    rintro ⟨q, hq, hx⟩
    simp only [Range.Has] at hx
    rcases mem_cons.mp hq with rfl | hq
    · omega
    · have := hrest q hq
      omega

end BoltApi.Lib.Ranges

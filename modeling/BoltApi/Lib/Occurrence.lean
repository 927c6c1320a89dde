import Mathlib.Data.List.Infix

/-! # Where a word first occurs

`find` is the search of `std::string::find`: the first place of a list where a
word stands. What was found stays found when the list grows, and what is found
in a longer list was already there if it ends early enough. -/
namespace BoltApi.Lib.Occurrence
open List

variable {α : Type} [DecidableEq α] {needle l r : List α} {i j : Nat}

/-- The first index at which `needle` stands in the list. -/
def find (needle : List α) : List α → Option Nat
  | [] => if needle = [] then some 0 else none
  | a :: l => if needle <+: a :: l then some 0 else (find needle l).map (· + 1)

theorem find_zero (h : needle <+: l) : find needle l = some 0 := by
  cases l with
  | nil => rw [find, if_pos (prefix_nil.mp h)]
  | cons a l => rw [find, if_pos h]

theorem find_cons_of_not {a} (h : ¬ needle <+: a :: l) :
    find needle (a :: l) = (find needle l).map (· + 1) := by
  rw [find, if_neg h]

theorem find_eq_some_iff :
    find needle l = some i ↔
      i ≤ l.length ∧ needle <+: l.drop i ∧ ∀ j < i, ¬ needle <+: l.drop j := by
  induction l generalizing i with
  | nil =>
    rw [find]
    constructor
    · intro h
      split at h
      · next hn =>
        cases h
        exact ⟨Nat.le_refl _, by rw [hn]; exact nil_prefix, nofun⟩
      · cases h
    · rintro ⟨hi, hpre, -⟩
      obtain rfl := Nat.le_zero.mp hi
      rw [if_pos (prefix_nil.mp hpre)]
  | cons a l ih =>
    by_cases hp : needle <+: a :: l
    · rw [find_zero hp, Option.some.injEq]
      constructor
      · rintro rfl
        exact ⟨Nat.zero_le _, hp, nofun⟩
      · rintro ⟨-, -, hfirst⟩
        by_contra hne
        exact hfirst 0 (Nat.pos_of_ne_zero fun h => hne h.symm) hp
    rw [find_cons_of_not hp, Option.map_eq_some_iff]
    constructor
    · rintro ⟨k, hk, rfl⟩
      obtain ⟨hle, hpre, hfirst⟩ := ih.mp hk
      refine ⟨Nat.succ_le_succ hle, hpre, fun j hj => ?_⟩
      cases j with
      | zero => exact hp
      | succ j => exact hfirst j (Nat.lt_of_succ_lt_succ hj)
    rintro ⟨hle, hpre, hfirst⟩
    cases i with
    | zero => exact absurd hpre hp
    | succ i =>
      exact ⟨i, ih.mpr ⟨Nat.le_of_succ_le_succ hle, hpre, fun j hj => hfirst (j + 1) (by omega)⟩, rfl⟩

theorem find_eq_none_iff : find needle l = none ↔ ∀ i ≤ l.length, ¬ needle <+: l.drop i := by
  induction l with
  | nil =>
    rw [find]
    constructor
    · intro h i _ hpre
      rw [drop_nil, prefix_nil] at hpre
      rw [if_pos hpre] at h
      cases h
    intro h
    refine if_neg fun hn => h 0 (Nat.le_refl _) ?_
    rw [hn]
    exact nil_prefix
  | cons a l ih =>
    by_cases hp : needle <+: a :: l
    · rw [find_zero hp]
      exact ⟨nofun, fun h => absurd hp (h 0 (Nat.zero_le _))⟩
    rw [find_cons_of_not hp, Option.map_eq_none_iff, ih]
    constructor
    · intro h i hi
      cases i with
      | zero => exact hp
      | succ i => exact h i (Nat.le_of_succ_le_succ hi)
    · intro h i hi
      exact h (i + 1) (Nat.succ_le_succ hi)

theorem find_bound (h : find needle l = some i) : i + needle.length ≤ l.length := by
  obtain ⟨hle, hpre, -⟩ := find_eq_some_iff.mp h
  have := hpre.length_le
  rw [length_drop] at this
  omega

omit [DecidableEq α] in
theorem prefix_drop_append (h : i + needle.length ≤ l.length) :
    needle <+: (l ++ r).drop i ↔ needle <+: l.drop i := by
  rw [drop_append_of_le_length (by omega)]
  constructor
  · exact fun hp => prefix_of_prefix_length_le hp (prefix_append _ _) (by rw [length_drop]; omega)
  · exact fun hp => hp.trans (prefix_append _ _)

theorem find_append (h : find needle l = some i) : find needle (l ++ r) = some i := by
  have hbound := find_bound h
  obtain ⟨hle, hpre, hfirst⟩ := find_eq_some_iff.mp h
  refine find_eq_some_iff.mpr ⟨by rw [length_append]; omega, (prefix_drop_append hbound).mpr hpre, ?_⟩
  intro j hj hp
  exact hfirst j hj ((prefix_drop_append (by omega)).mp hp)

theorem find_of_append (h : find needle (l ++ r) = some i) (hi : i + needle.length ≤ l.length) :
    find needle l = some i := by
  obtain ⟨-, hpre, hfirst⟩ := find_eq_some_iff.mp h
  refine find_eq_some_iff.mpr ⟨by omega, (prefix_drop_append hi).mp hpre, fun j hj hp => ?_⟩
  exact hfirst j hj ((prefix_drop_append (by omega)).mpr hp)

theorem find_isSome (a b : List α) : (find needle (a ++ needle ++ b)).isSome := by
  cases h : find needle (a ++ needle ++ b) with
  | some i => rfl
  | none =>
    refine absurd ?_ (find_eq_none_iff.mp h a.length (by simp [append_assoc]))
    rw [append_assoc, drop_left]
    exact prefix_append _ _

theorem find_skip {c w} (hl : c ∉ l) :
    find (c :: w) (l ++ r) = (find (c :: w) r).map (· + l.length) := by
  induction l with
  | nil => simp
  | cons a l ih =>
    rw [mem_cons, not_or] at hl
    rw [cons_append, find_cons_of_not fun hp => hl.1 (cons_prefix_cons.mp hp).1, ih hl.2,
      Option.map_map]
    rfl

theorem find_symbol {c} (hl : c ∉ l) : find [c] (l ++ c :: r) = some l.length := by
  rw [find_skip hl, find_zero (cons_prefix_cons.mpr ⟨rfl, nil_prefix⟩), Option.map_some, Nat.zero_add]

theorem find_over {c} (hc : c ∉ needle) (hl : find needle l = none) :
    find needle (l ++ c :: r) = (find needle r).map (· + (l.length + 1)) := by
  induction l with
  | nil =>
    rw [nil_append, find_cons_of_not]
    · rfl
    intro hp
    cases needle with
    | nil => cases hl
    | cons a w => exact hc ((cons_prefix_cons.mp hp).1 ▸ mem_cons_self)
  | cons a l ih =>
    have hnone := find_eq_none_iff.mp hl
    have hstart : ¬ needle <+: a :: l ++ c :: r := by
      intro hp
      rcases Nat.lt_or_ge (a :: l).length needle.length with hlong | hshort
      · -- the word would hold the symbol
        obtain ⟨t, rfl⟩ : a :: l <+: needle :=
          prefix_of_prefix_length_le (prefix_append _ _) hp (Nat.le_of_lt hlong)
        obtain ⟨u, hu⟩ := hp
        rw [append_assoc] at hu
        have hrest := append_cancel_left hu
        cases t with
        | nil => simp at hlong
        | cons b t =>
          cases hrest
          exact hc (mem_append_right _ mem_cons_self)
      · exact hnone 0 (Nat.zero_le _)
          (prefix_of_prefix_length_le hp (prefix_append _ _) hshort)
    have hrest : find needle l = none :=
      find_eq_none_iff.mpr fun i hi => hnone (i + 1) (Nat.succ_le_succ hi)
    rw [cons_append] at hstart ⊢
    rw [find_cons_of_not hstart, ih hrest, Option.map_map]
    rfl

theorem find_front (h : find needle (l ++ r) = some i) :
    find needle l = if i + needle.length ≤ l.length then some i else none := by
  split
  · next hle => exact find_of_append h hle
  next hgt =>
  cases hl : find needle l with
  | none => rfl
  | some j =>
    have hj := find_append hl (r := r)
    rw [h] at hj
    cases hj
    exact absurd (find_bound hl) hgt

theorem find_behind {c w} (hw : c ∉ w) (hl : find (c :: w) l = none) :
    find (c :: w) (l ++ (c :: w ++ r)) = some l.length := by
  induction l with
  | nil => exact find_zero (prefix_append _ _)
  | cons a l ih =>
    have hnone := find_eq_none_iff.mp hl
    have hstart : ¬ c :: w <+: a :: (l ++ (c :: w ++ r)) := by
      intro hp
      rcases Nat.lt_or_ge (a :: l).length (c :: w).length with hlong | hshort
      · -- the word would come again inside itself
        have hfront : a :: l <+: a :: (l ++ (c :: w ++ r)) := prefix_append (a :: l) _
        obtain ⟨t, ht⟩ : a :: l <+: c :: w :=
          prefix_of_prefix_length_le hfront hp (Nat.le_of_lt hlong)
        obtain ⟨u, hu⟩ := hp
        rw [← ht, append_assoc, ← cons_append] at hu
        have hrest := append_cancel_left hu
        cases t with
        | nil =>
          rw [append_nil] at ht
          rw [ht] at hlong
          exact Nat.lt_irrefl _ hlong
        | cons b t =>
          obtain ⟨hac, hlt⟩ := List.cons.inj (ht : a :: (l ++ b :: t) = c :: w)
          have hb : b = c := (List.cons.inj hrest).1.trans hac
          rw [← hlt, hb] at hw
          exact hw (mem_append_right _ mem_cons_self)
      · exact hnone 0 (Nat.zero_le _)
          (prefix_of_prefix_length_le hp (prefix_append (a :: l) _) hshort)
    have hrest : find (c :: w) l = none :=
      find_eq_none_iff.mpr fun i hi => hnone (i + 1) (Nat.succ_le_succ hi)
    rw [cons_append, find_cons_of_not hstart, ih hrest]
    rfl

end BoltApi.Lib.Occurrence

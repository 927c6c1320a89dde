import Mathlib.Data.List.Basic
import Mathlib.Data.Nat.ModEq

/-! # Flat and ring buffers

A buffer is the value at each position. A ring of `size` positions keeps the
value of absolute offset `x` at position `x % size`, so it holds any `size`
consecutive offsets at once. -/
namespace BoltApi.Lib.Ring
variable {α : Type*}

theorem getElem?_of_isPrefix_drop {piece whole : List α} {off i : Nat}
    (h : List.IsPrefix piece (whole.drop off)) (hi : i < piece.length) :
    piece[i]? = whole[off + i]? := by
  rw [← List.getElem?_drop]
  exact (List.prefix_iff_getElem?.mp h i hi).symm ▸ List.getElem?_eq_getElem hi

def overlay (buf : Nat → α) (pos : Nat) (data : List α) : Nat → α :=
  fun p => if pos ≤ p then (data[p - pos]?).getD (buf p) else buf p

theorem overlay_of_getElem {buf : Nat → α} {pos p : Nat} {data : List α} {a : α}
    (hp : pos ≤ p) (ha : data[p - pos]? = some a) : overlay buf pos data p = a := by
  simp [overlay, hp, ha]

theorem overlay_of_outside {buf : Nat → α} {pos p : Nat} {data : List α}
    (hp : p < pos ∨ pos + data.length ≤ p) : overlay buf pos data p = buf p := by
  unfold overlay
  split
  · rw [List.getElem?_eq_none (by omega), Option.getD_none]
  · rfl

def ringPut (size : Nat) (ring : Nat → α) (off : Nat) (data : List α) : Nat → α :=
  let pos := off % size
  let first := min data.length (size - pos)
  let once := overlay ring pos (data.take first)
  if first < data.length then overlay once 0 (data.drop first) else once

theorem add_mod_of_lt {off k size : Nat} (hk : k < size) :
    (off + k) % size = if off % size + k < size then off % size + k else off % size + k - size := by
  rw [Nat.add_mod_eq_ite, Nat.mod_eq_of_lt hk]
  split <;> split <;> omega

theorem ringPut_inside {size : Nat} {ring : Nat → α} {off : Nat} {data : List α} {k : Nat} {a : α}
    (hlen : data.length ≤ size) (ha : data[k]? = some a) :
    ringPut size ring off data ((off + k) % size) = a := by
  have hk : k < data.length := (List.getElem?_eq_some_iff.mp ha).1
  have hpos : off % size < size := Nat.mod_lt _ (by omega)
  rw [add_mod_of_lt (by omega : k < size)]
  simp only [ringPut]
  generalize off % size = pos at hpos ⊢
  by_cases hwrap : pos + k < size
  · -- before the physical end: the first part, which the second does not reach
    rw [if_pos hwrap]
    have hfirst : (data.take (min data.length (size - pos)))[pos + k - pos]? = some a := by
      rw [Nat.add_sub_cancel_left, List.getElem?_take_of_lt (by omega), ha]
    have honce : overlay ring pos (data.take (min data.length (size - pos))) (pos + k) = a :=
      overlay_of_getElem (by omega) hfirst
    split
    · rw [overlay_of_outside (by simp only [List.length_drop]; omega), honce]
    · exact honce
  rw [if_neg hwrap, if_pos (by omega)]
  refine overlay_of_getElem (Nat.zero_le _) ?_
  rw [List.getElem?_drop, ← ha]
  congr 1
  omega

theorem ringPut_outside {size : Nat} {ring : Nat → α} {base off x : Nat} {data : List α}
    (hbase : base ≤ off) (hend : off + data.length ≤ base + size) (hx : base ≤ x)
    (hx' : x < base + size) (hout : x < off ∨ off + data.length ≤ x) :
    ringPut size ring off data (x % size) = ring (x % size) := by
  have hsize : 0 < size := by omega
  have hpos : off % size < size := Nat.mod_lt _ hsize
  have hxpos : x % size < size := Nat.mod_lt _ hsize
  -- the position of `x` relative to the one of `off`
  have hrel : (x < off ∧ off % size = if x % size + (off - x) < size then x % size + (off - x)
        else x % size + (off - x) - size) ∨ data.length = 0 ∨
      (off + data.length ≤ x ∧ x % size = if off % size + (x - off) < size then
        off % size + (x - off) else off % size + (x - off) - size) := by
    rcases hout with hlt | hge
    · by_cases hk : off - x < size
      · refine .inl ⟨hlt, ?_⟩
        conv_lhs => rw [show off = x + (off - x) by omega]
        exact add_mod_of_lt hk
      · exact .inr (.inl (by omega))
    · refine .inr (.inr ⟨hge, ?_⟩)
      conv_lhs => rw [show x = off + (x - off) by omega]
      exact add_mod_of_lt (by omega)
  simp only [ringPut]
  generalize off % size = pos at hpos hrel ⊢
  generalize x % size = p at hxpos hrel ⊢
  have honce : overlay ring pos (data.take (min data.length (size - pos))) p = ring p := by
    refine overlay_of_outside ?_
    simp only [List.length_take]
    split_ifs at hrel <;> omega
  split
  · rw [overlay_of_outside, honce]
    simp only [List.length_drop]
    split_ifs at hrel <;> omega
  · exact honce

end BoltApi.Lib.Ring

import Mathlib.Data.List.Basic

/-! # Numbers in digits

A number as the octets of its digits in some base, and that reading the digits
back gives the number. -/
namespace BoltApi.Lib.Numerals
open List

def printed (base n : Nat) : List UInt8 := (Nat.toDigits base n).map fun c => UInt8.ofNat c.toNat

def digitOctet (d : Nat) : UInt8 := UInt8.ofNat (Nat.digitChar d).toNat

theorem printed_ne_nil (base n : Nat) : printed base n ≠ [] := by
  simp [printed, Nat.toDigits_ne_nil]

theorem printed_eq {base} (hb : 1 < base) (n : Nat) : printed base n =
      if n < base then [digitOctet n] else printed base (n / base) ++ [digitOctet (n % base)] := by
  unfold printed
  rw [Nat.toDigits_eq_if hb]
  split
  · rfl
  · rw [map_append]
    rfl

theorem mem_printed {base} (hb : 1 < base) {c} :
    ∀ {n : Nat}, c ∈ printed base n → ∃ d < base, c = digitOctet d := by
  intro n
  induction n using Nat.strongRecOn with
  | ind n ih =>
    intro hc
    rw [printed_eq hb] at hc
    split at hc
    · rename_i hn
      exact ⟨n, hn, mem_singleton.mp hc⟩
    rename_i hn
    rcases mem_append.mp hc with hc | hc
    · exact ih (n / base) (Nat.div_lt_self (by omega) hb) hc
    · exact ⟨n % base, Nat.mod_lt _ (by omega), mem_singleton.mp hc⟩

theorem printed_value {base : Nat} (hb : 1 < base) {val : UInt8 → Nat}
    (hval : ∀ d < base, val (digitOctet d) = d) (n : Nat) :
    (printed base n).foldl (fun a c => a * base + val c) 0 = n := by
  induction n using Nat.strongRecOn with
  | ind n ih =>
    rw [printed_eq hb]
    split
    · rename_i hn
      simp [hval n hn]
    rename_i hn
    rw [foldl_append, ih (n / base) (Nat.div_lt_self (by omega) hb)]
    simp only [foldl_cons, foldl_nil, hval _ (Nat.mod_lt n (by omega : 0 < base))]
    exact Nat.div_add_mod' n base

end BoltApi.Lib.Numerals

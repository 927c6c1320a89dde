import Mathlib.Tactic.IntervalCases

/-! # Truncated packet numbers

The two ends of the encoding in `quic/pn_space.h`. Packet numbers stay below `2 ^ 62`, so
nothing here wraps at 64 bits. -/
namespace BoltApi.Quic

def pnEncodeLengthTruncated (fullPn largestAcked : Nat) : Nat :=
  let range := (fullPn - largestAcked) * 4
  if range < 0x80 then 1 else if range < 0x4000 then 2 else if range < 0x200000 then 3 else 4

def pnDecode (truncatedPn largestAcked pnNbits : Nat) : Nat :=
  let expectedPn := largestAcked + 1
  let pnWin := 1 <<< pnNbits
  let pnHwin := pnWin / 2
  let candidatePn := expectedPn >>> pnNbits <<< pnNbits ||| truncatedPn
  if pnHwin ≤ expectedPn ∧ candidatePn ≤ expectedPn - pnHwin ∧ candidatePn < 2 ^ 62 - pnWin then
    candidatePn + pnWin
  else if expectedPn + pnHwin < candidatePn ∧ pnWin ≤ candidatePn then candidatePn - pnWin
  else candidatePn

theorem candidate_eq (pn e b : Nat) :
    e >>> b <<< b ||| pn % 2 ^ b = e / 2 ^ b * 2 ^ b + pn % 2 ^ b := by
  rw [← Nat.shiftLeft_add_eq_or_of_lt (Nat.mod_lt pn (Nat.two_pow_pos b)), Nat.shiftLeft_eq,
    Nat.shiftRight_eq_div_pow]

theorem pnDecode_near {pn l n : Nat} (h1 : 1 ≤ n) (h4 : n ≤ 4) (hpn : pn < 2 ^ 62)
    (hlo : l + 1 < pn + 2 ^ (8 * n - 1)) (hhi : pn < l + 1 + 2 ^ (8 * n - 1)) :
    pnDecode (pn % 2 ^ (8 * n)) l (8 * n) = pn := by
  simp only [pnDecode, candidate_eq, Nat.one_shiftLeft]
  interval_cases n <;> norm_num only at hlo hhi ⊢ <;> split_ifs <;> omega

theorem pnEncodeLengthTruncated_spec {pn acked : Nat} (hd : pn - acked < 2 ^ 31) :
    1 ≤ pnEncodeLengthTruncated pn acked ∧ pnEncodeLengthTruncated pn acked ≤ 4 ∧
      pn - acked ≤ 2 ^ (8 * pnEncodeLengthTruncated pn acked - 1) := by
  rw [pnEncodeLengthTruncated]
  split_ifs <;> refine ⟨by decide, by decide, ?_⟩ <;> omega

/-- Every number close enough to the largest one received is restored from its truncation,
and the sender's choice of length brings it that close to what any receiver may have. -/
theorem pnDecode_restores :
    (∀ pn l n, 1 ≤ n → n ≤ 4 → pn < 2 ^ 62 → l < 2 ^ 62 → l + 1 < pn + 2 ^ (8 * n - 1) →
      pn ≤ l + 1 + 2 ^ (8 * n - 1) - 1 → pnDecode (pn % 2 ^ (8 * n)) l (8 * n) = pn) ∧
    ∀ pn acked l, pn < 2 ^ 62 → acked ≤ l → l < pn → pn - acked < 2 ^ 31 →
      pnDecode (pn % 2 ^ (8 * pnEncodeLengthTruncated pn acked)) l
        (8 * pnEncodeLengthTruncated pn acked) = pn := by
  refine ⟨fun pn l n h1 h4 hpn _ hlo hhi => pnDecode_near h1 h4 hpn hlo ?_,
    fun pn acked l hpn ha hl hd => ?_⟩
  · have := Nat.two_pow_pos (8 * n - 1)
    omega
  · obtain ⟨h1, h4, hw⟩ := pnEncodeLengthTruncated_spec hd
    refine pnDecode_near h1 h4 hpn ?_ ?_ <;> omega

/-- Two octets of a number that is ahead of the largest one received, and of one whose
length the sender chose. -/
theorem pnDecode_restores_two :
    pnDecode (0xa82f9b32 % 2 ^ (8 * 2)) 0xa82f30ea (8 * 2) = 0xa82f9b32 ∧
      pnDecode (0xac5c02 % 2 ^ (8 * pnEncodeLengthTruncated 0xac5c02 0xabe8b3)) 0xac5c01
        (8 * pnEncodeLengthTruncated 0xac5c02 0xabe8b3) = 0xac5c02 :=
  ⟨pnDecode_restores.1 0xa82f9b32 0xa82f30ea 2 (by decide) (by decide) (by decide) (by decide) (by decide)
    (by decide),
    pnDecode_restores.2 0xac5c02 0xabe8b3 0xac5c01 (by decide) (by decide) (by decide) (by decide)⟩

end BoltApi.Quic

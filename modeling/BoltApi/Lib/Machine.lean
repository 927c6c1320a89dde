import Mathlib.Data.List.Basic

/-! # Loops as machines

A loop whose body either returns a result or goes round once more. `iter` runs
the body a number of times; the rules say how such runs compose, that a result
once returned is kept whatever the number, and that what the body preserves
holds in every state the loop reaches. -/
namespace BoltApi.Lib.Machine

variable {R S : Type}

/-- At most `n` rounds of the loop body: a result, or the state reached. -/
def iter (body : S → R ⊕ S) : Nat → S → R ⊕ S
  | 0, s => .inr s
  | n + 1, s =>
    match body s with
    | .inl r => .inl r
    | .inr s' => iter body n s'

variable {body : S → R ⊕ S}

theorem iter_succ_inl {n s r} (h : body s = .inl r) : iter body (n + 1) s = .inl r := by
  simp only [iter, h]

theorem iter_succ_inr {n s s'} (h : body s = .inr s') : iter body (n + 1) s = iter body n s' := by
  simp only [iter, h]

theorem iter_add {m n s s'} (h : iter body m s = .inr s') :
    iter body (m + n) s = iter body n s' := by
  induction m generalizing s with
  | zero => cases h; rw [Nat.zero_add]
  | succ m ih =>
    rw [Nat.succ_add]
    cases hb : body s with
    | inl r => rw [iter_succ_inl hb] at h; cases h
    | inr t =>
      rw [iter_succ_inr hb] at h ⊢
      exact ih h

theorem iter_mono {m n s r} (h : iter body m s = .inl r) (hmn : m ≤ n) :
    iter body n s = .inl r := by
  induction m generalizing n s with
  | zero => cases h
  | succ m ih =>
    obtain ⟨k, rfl⟩ := Nat.exists_eq_add_of_le' hmn
    cases hb : body s with
    | inl r' =>
      rw [iter_succ_inl hb] at h
      rw [← Nat.add_assoc, iter_succ_inl hb]
      exact h
    | inr t =>
      rw [iter_succ_inr hb] at h
      rw [← Nat.add_assoc, iter_succ_inr hb]
      exact ih h (Nat.le_add_left m k)

theorem iter_invariant {I : S → Prop} (hbody : ∀ s s', I s → body s = .inr s' → I s')
    {n : Nat} {s s' : S} (hs : I s) (h : iter body n s = .inr s') : I s' := by
  induction n generalizing s with
  | zero => cases h; exact hs
  | succ n ih =>
    cases hb : body s with
    | inl r => rw [iter_succ_inl hb] at h; cases h
    | inr t =>
      rw [iter_succ_inr hb] at h
      exact ih (hbody s t hs hb) h

end BoltApi.Lib.Machine

import Mathlib.Data.List.Infix
import Mathlib.Data.Nat.Bitwise

/-! # Prefix codes

Messages over an alphabet written bit by bit, and decoders that read several
bits at a time. A decoder's state is labelled with the bits it has read and not
yet used; when its steps respect the labels it decodes what a prefix-free code
spells, and stops only at the code word that is never sent. -/
namespace BoltApi.Lib.PrefixCode
open List

/-! ## Bits of a number -/

def bits : Nat → Nat → List Bool
  | 0, _ => []
  | n + 1, v => v.testBit n :: bits n v

@[simp] theorem length_bits (n v : Nat) : (bits n v).length = n := by
  induction n with
  | zero => rfl
  | succ n ih => simp [bits, ih]

theorem bits_congr {n v w} (h : ∀ i < n, v.testBit i = w.testBit i) : bits n v = bits n w := by
  induction n with
  | zero => rfl
  | succ n ih =>
    rw [bits, bits, h n (Nat.lt_succ_self n), ih fun i hi => h i (Nat.lt_succ_of_lt hi)]

theorem bits_add (m n v : Nat) : bits (m + n) v = bits m (v / 2 ^ n) ++ bits n v := by
  induction m with
  | zero => simp [bits]
  | succ m ih =>
    rw [Nat.add_right_comm, bits, bits, ih, Nat.testBit_div_two_pow]
    rfl

theorem bits_append (m x : Nat) {n y} (hy : y < 2 ^ n) :
    bits (m + n) (2 ^ n * x + y) = bits m x ++ bits n y := by
  rw [bits_add]
  congr 1
  · rw [Nat.mul_add_div (Nat.two_pow_pos n), Nat.div_eq_of_lt hy, Nat.add_zero]
  · refine bits_congr fun i hi => ?_
    rw [Nat.testBit_two_pow_mul_add _ hy, if_pos hi]

theorem bits_mod {n m} (h : n ≤ m) (v : Nat) : bits n (v % 2 ^ m) = bits n v := by
  refine bits_congr fun i hi => ?_
  rw [Nat.testBit_mod_two_pow, decide_eq_true (Nat.lt_of_lt_of_le hi h), Bool.true_and]

theorem bits_shift_or {m n w x y} (hy : y < 2 ^ n) (hw : m + n ≤ w) :
    bits (m + n) (x * 2 ^ n % 2 ^ w ||| y) = bits m x ++ bits n y := by
  rw [bits_add]
  congr 1 <;> refine bits_congr fun i hi => ?_
  · have hle : y < 2 ^ (i + n) :=
      Nat.lt_of_lt_of_le hy (Nat.pow_le_pow_right (by decide) (Nat.le_add_left n i))
    rw [Nat.testBit_div_two_pow, Nat.testBit_or, Nat.testBit_lt_two_pow hle, Bool.or_false,
      Nat.testBit_mod_two_pow, Nat.testBit_mul_two_pow, Nat.add_sub_cancel,
      decide_eq_true (show i + n < w by omega), decide_eq_true (Nat.le_add_left n i),
      Bool.true_and, Bool.true_and]
  · rw [Nat.testBit_or, Nat.testBit_mod_two_pow, Nat.testBit_mul_two_pow]
    simp [Nat.not_le.mpr hi]

theorem bits_inj {n x y} (hx : x < 2 ^ n) (hy : y < 2 ^ n) (h : bits n x = bits n y) : x = y := by
  have hlow : ∀ {m}, bits m x = bits m y → ∀ i < m, x.testBit i = y.testBit i := by
    intro m
    induction m with
    | zero => exact fun _ i hi => absurd hi (Nat.not_lt_zero i)
    | succ m ih =>
      intro hm i hi
      obtain ⟨hhead, htail⟩ := List.cons.inj hm
      rcases Nat.lt_succ_iff_lt_or_eq.mp hi with hi | rfl
      · exact ih htail i hi
      · exact hhead
  refine Nat.eq_of_testBit_eq fun i => ?_
  by_cases hi : i < n
  · exact hlow h i hi
  · have hle : 2 ^ n ≤ 2 ^ i := Nat.pow_le_pow_right (by decide) (Nat.not_lt.mp hi)
    rw [Nat.testBit_lt_two_pow (Nat.lt_of_lt_of_le hx hle),
      Nat.testBit_lt_two_pow (Nat.lt_of_lt_of_le hy hle)]

theorem of_bits_prefix {m n x y} (hx : x < 2 ^ m) (hy : y < 2 ^ n) (h : bits m x <+: bits n y) :
    m ≤ n ∧ y / 2 ^ (n - m) = x := by
  have hle : m ≤ n := by simpa using h.length_le
  refine ⟨hle, ?_⟩
  have hsplit := bits_add m (n - m) y
  rw [Nat.add_sub_cancel' hle] at hsplit
  have hpre : bits m (y / 2 ^ (n - m)) <+: bits n y := hsplit ▸ prefix_append _ _
  have heq : bits m x = bits m (y / 2 ^ (n - m)) :=
    List.IsPrefix.eq_of_length
      (prefix_of_prefix_length_le h hpre (by simp)) (by simp)
  refine (bits_inj hx ?_ heq).symm
  rw [Nat.div_lt_iff_lt_mul (Nat.two_pow_pos _), ← Nat.pow_add, Nat.add_sub_cancel' hle]
  exact hy

theorem bits_ones (n : Nat) : bits n (2 ^ n - 1) = List.replicate n true := by
  have hall : ∀ m ≤ n, bits m (2 ^ n - 1) = List.replicate m true := by
    intro m
    induction m with
    | zero => exact fun _ => rfl
    | succ m ih =>
      intro hm
      rw [bits, ih (Nat.le_of_succ_le hm), Nat.testBit_two_pow_sub_one, decide_eq_true (show m < n from hm)]
      rfl
  exact hall n (Nat.le_refl n)

theorem bits_eq_ones {n v k} (hv : v < 2 ^ n) :
    bits n v = List.replicate k true ↔ k = n ∧ v + 1 = 2 ^ n := by
  constructor
  · intro h
    have hk : n = k := by simpa using congrArg List.length h
    subst hk
    have hone := bits_inj hv (Nat.sub_lt (Nat.two_pow_pos n) Nat.one_pos) (h.trans (bits_ones n).symm)
    exact ⟨rfl, by rw [hone, Nat.sub_add_cancel (Nat.two_pow_pos n)]⟩
  · rintro ⟨rfl, h⟩
    rw [← bits_ones, ← h, Nat.add_sub_cancel]

/-! ## Codes -/

section Code
variable {α : Type*} {code : α → List Bool}

def spell (code : α → List Bool) (xs : List α) : List Bool := xs.flatMap code

@[simp] theorem spell_nil : spell code [] = [] := rfl

@[simp] theorem spell_cons (a : α) (xs : List α) :
    spell code (a :: xs) = code a ++ spell code xs := rfl

def PrefixFree (code : α → List Bool) : Prop := ∀ a b, code a <+: code b → a = b

def Short (code : α → List Bool) (p : List Bool) : Prop := ∀ a, ¬ code a <+: p

theorem PrefixFree.cancel (hfree : PrefixFree code) {a b x y} (h : code a ++ x = code b ++ y) :
    a = b ∧ x = y := by
  have hab : a = b := by
    rcases prefix_or_prefix_of_prefix (prefix_append (code a) x)
      (h ▸ prefix_append (code b) y) with hp | hp
    · exact hfree a b hp
    · exact (hfree b a hp).symm
  subst hab
  exact ⟨rfl, append_cancel_left h⟩

theorem PrefixFree.short (hfree : PrefixFree code) {a p} (hp : p <+: code a) (hne : p ≠ code a) :
    Short code p := by
  intro b hb
  obtain rfl := hfree b a (hb.trans hp)
  exact hne (hp.eq_of_length_le hb.length_le)

theorem PrefixFree.first (hfree : PrefixFree code) {a xs p x} (hp : Short code p)
    (h : code a ++ x = spell code xs ++ p) : ∃ ys, xs = a :: ys ∧ x = spell code ys ++ p := by
  cases xs with
  | nil => exact absurd ⟨x, h⟩ (hp a)
  | cons b ys =>
    rw [spell_cons, append_assoc] at h
    obtain ⟨rfl, hx⟩ := hfree.cancel h
    exact ⟨ys, rfl, hx⟩

end Code

/-! ## Decoders -/

section Decoder
variable {α σ ι : Type*} {code : α → List Bool} {eos : α}

def decodeRun (step : σ → ι → Option (Option α × σ)) : σ → List ι → Option (List α × σ)
  | q, [] => some ([], q)
  | q, i :: is =>
    match step q i with
    | none => none
    | some (a, q') => (decodeRun step q' is).map fun r => (a.toList ++ r.1, r.2)

/-- The steps of a decoder respect the labels of its states. `eos` is the code
word that no message contains. -/
structure Follows (code : α → List Bool) (eos : α) (valid : σ → Prop) (input : ι → Prop)
    (label : σ → List Bool) (word : ι → List Bool) (step : σ → ι → Option (Option α × σ)) :
    Prop where
  short : ∀ {q}, valid q → Short code (label q)
  dead : ∀ {q i}, valid q → input i → step q i = none → code eos <+: label q ++ word i
  move : ∀ {q q' i}, valid q → input i → step q i = some (none, q') →
    valid q' ∧ label q ++ word i = label q'
  emit : ∀ {q q' i a}, valid q → input i → step q i = some (some a, q') →
    valid q' ∧ label q ++ word i = code a ++ label q'

variable {valid : σ → Prop} {input : ι → Prop} {label : σ → List Bool} {word : ι → List Bool}
variable {step : σ → ι → Option (Option α × σ)}

theorem Follows.decodeRun_sound (hf : Follows code eos valid input label word step) (is : List ι) :
    ∀ {q q' : σ} {xs : List α}, valid q → (∀ i ∈ is, input i) → decodeRun step q is = some (xs, q') →
      valid q' ∧ label q ++ is.flatMap word = spell code xs ++ label q' := by
  induction is with
  | nil =>
    intro q q' xs hq _ h
    cases h
    exact ⟨hq, append_nil _⟩
  | cons i is ih =>
    intro q q' xs hq hin h
    have hi := hin i mem_cons_self
    simp only [decodeRun] at h
    cases hstep : step q i with
    | none => simp [hstep] at h
    | some r =>
      obtain ⟨a, q₁⟩ := r
      have hnext : valid q₁ ∧ label q ++ word i = spell code a.toList ++ label q₁ := by
        cases a with
        | none => exact hf.move hq hi hstep
        | some a => simpa using hf.emit hq hi hstep
      rw [hstep] at h
      obtain ⟨⟨ys, _⟩, hrest, heq⟩ := Option.map_eq_some_iff.mp h
      cases heq
      obtain ⟨hv, hread⟩ := ih hnext.1 (fun j hj => hin j (mem_cons_of_mem i hj)) hrest
      refine ⟨hv, ?_⟩
      rw [flatMap_cons, ← append_assoc, hnext.2, append_assoc, hread, ← append_assoc]
      simp [spell]

/-- **A decoder that respects its labels decodes.** The bits left over are the
label of its last state. -/
theorem Follows.decodeRun_spell (hf : Follows code eos valid input label word step)
    (hfree : PrefixFree code) {p} (hp : Short code p) (is : List ι) :
    ∀ (q : σ) (xs : List α), valid q → (∀ i ∈ is, input i) → eos ∉ xs →
      label q ++ is.flatMap word = spell code xs ++ p →
      ∃ q', decodeRun step q is = some (xs, q') ∧ valid q' ∧ label q' = p := by
  induction is with
  | nil =>
    intro q xs hq _ _ h
    rw [flatMap_nil, append_nil] at h
    cases xs with
    | nil => exact ⟨q, rfl, hq, h⟩
    | cons a ys =>
      -- a whole code word would have been used
      refine absurd ⟨spell code ys ++ p, ?_⟩ (hf.short hq a)
      rw [h, spell_cons, append_assoc]
  | cons i is ih =>
    intro q xs hq hin heos h
    rw [flatMap_cons, ← append_assoc] at h
    have hi := hin i mem_cons_self
    have htail := fun j hj => hin j (mem_cons_of_mem i hj)
    simp only [decodeRun]
    cases hstep : step q i with
    | none =>
      obtain ⟨y, hy⟩ := hf.dead hq hi hstep
      rw [← hy, append_assoc] at h
      obtain ⟨ys, rfl, _⟩ := hfree.first hp h
      exact absurd mem_cons_self heos
    | some r =>
      obtain ⟨a, q'⟩ := r
      cases a with
      | none =>
        obtain ⟨hq', hlabel⟩ := hf.move hq hi hstep
        rw [hlabel] at h
        obtain ⟨q'', hrun, hv, hl⟩ := ih q' xs hq' htail heos h
        exact ⟨q'', by simp [hrun], hv, hl⟩
      | some a =>
        obtain ⟨hq', hlabel⟩ := hf.emit hq hi hstep
        rw [hlabel, append_assoc] at h
        obtain ⟨ys, rfl, hrest⟩ := hfree.first hp h
        obtain ⟨q'', hrun, hv, hl⟩ :=
          ih q' ys hq' htail (fun hm => heos (mem_cons_of_mem a hm)) hrest
        exact ⟨q'', by simp [hrun], hv, hl⟩

end Decoder

end BoltApi.Lib.PrefixCode

import BoltApi.PgWire.BinaryResult
import Mathlib.Data.List.TakeWhile
import Mathlib.Data.List.Induction
import Mathlib.Algebra.Order.Field.Rat

/-!
# The values of binary cells

`text_to_binary_result` against the meaning of texts and of binary formats: one
lemma for each family of types, and the function as a whole.
-/

namespace BoltApi.PgWire.BinaryResult

open Octets CNumbers Lib.BigEndian Lib.Calendar List

variable {s text b : Bytes} {typeOid cap : Nat} {floatBits : Nat → Bytes → Option Nat}

/-! ## Booleans -/

theorem trimmed_of_no_space (h : ∀ c ∈ s, isCSpace c = false) : trimmed s = s := by
  have hdrop : ∀ l : Bytes, (∀ c ∈ l, isCSpace c = false) → l.dropWhile isCSpace = l := by
    intro l hl
    cases l with
    | nil => rfl
    | cons c l => rw [dropWhile_cons_of_neg (by rw [hl c mem_cons_self]; decide)]
  rw [trimmed, hdrop s h, hdrop s.reverse fun c hc => h c (mem_reverse.mp hc), reverse_reverse]

theorem isCSpace_lower (c : UInt8) : isCSpace (toLowerAscii c) = isCSpace c := by
  have hall : ∀ n < 256, isCSpace (toLowerAscii (UInt8.ofNat n)) = isCSpace (UInt8.ofNat n) := by
    decide +kernel
  have := hall c.toNat c.toNat_lt
  rwa [UInt8.ofNat_toNat] at this

theorem boolText_of_parse {v} (h : parseBoolText s = some v) : boolText s = some v := by
  simp only [parseBoolText] at h
  split at h
  · cases h
  have htrim : ∀ l : Bytes, s.map toLowerAscii = l → (∀ c ∈ l, isCSpace c = false) →
      (trimmed s).map toLowerAscii = l := by
    intro l hl hspace
    rw [trimmed_of_no_space, hl]
    intro c hc
    rw [← isCSpace_lower]
    exact hspace _ (hl ▸ mem_map_of_mem hc)
  split at h
  · next hl =>
    cases h
    have hspace : ∀ l ∈ [ascii "t", ascii "true", ascii "y", ascii "yes", ascii "on", ascii "1"],
        (∀ c ∈ l, isCSpace c = false) ∧ l ∈ [ascii "t", ascii "tr", ascii "tru", ascii "true", ascii "y",
          ascii "ye", ascii "yes", ascii "on", ascii "1"] := by
      -- the kernel reads a list of characters much faster than a string
      unfold ascii
      repeat rw [String.toList_ofList]
      decide +kernel
    obtain ⟨h1, h2⟩ := hspace _ hl
    simp only [boolText]
    rw [htrim _ rfl h1, if_pos h2]
  split at h
  · next hl =>
    cases h
    have hspace : ∀ l ∈ [ascii "f", ascii "false", ascii "n", ascii "no", ascii "off", ascii "0"],
        (∀ c ∈ l, isCSpace c = false) ∧ l ∉ [ascii "t", ascii "tr", ascii "tru", ascii "true", ascii "y",
          ascii "ye", ascii "yes", ascii "on", ascii "1"] ∧ l ∈ [ascii "f", ascii "fa", ascii "fal",
          ascii "fals", ascii "false", ascii "n", ascii "no", ascii "of", ascii "off", ascii "0"] := by
      unfold ascii
      repeat rw [String.toList_ofList]
      decide +kernel
    obtain ⟨h1, h2, h3⟩ := hspace _ hl
    simp only [boolText]
    rw [htrim _ rfl h1, if_neg h2, if_pos h3]
  · cases h

/-! ## Integers -/

theorem takeSign_spec (t : Bytes) : ∃ sign, t = sign ++ (takeSign t).2 ∧
    ((takeSign t).1, sign) ∈ [(false, []), (false, [PLUS]), (true, [MINUS])] := by
  unfold takeSign
  split
  · next c r =>
    split
    · next hc => exact ⟨[c], rfl, by simp [hc]⟩
    · split
      · next hc => exact ⟨[c], rfl, by simp [hc]⟩
      · exact ⟨[], rfl, by simp⟩
  · exact ⟨[], rfl, by simp⟩

variable {c : UInt8}

theorem trimmed_of_last {l} (hs : s.dropWhile isCSpace = l ++ [c]) (hc : isCSpace c = false) :
    trimmed s = l ++ [c] := by
  rw [trimmed, hs, reverse_append, reverse_singleton, singleton_append,
    dropWhile_cons_of_neg (by rw [hc]; decide), reverse_cons, reverse_reverse]

variable {v : Int}

theorem strtoll_end (h : strtoll s = (v, [])) (hs : s ≠ []) :
    ∃ i, intText s = some i ∧ v = max (-(2 ^ 63)) (min (2 ^ 63 - 1) i) := by
  simp only [strtoll] at h
  split at h
  · exact absurd (Prod.mk.inj h).2 hs
  next hds =>
  obtain ⟨hv, hrest⟩ := Prod.mk.inj h
  set t := (takeSign (s.dropWhile isCSpace)).2 with ht
  have hall : ∀ c ∈ t, isDigit c := by
    intro c hc
    rw [← @takeWhile_append_dropWhile _ isDigit t, hrest, append_nil] at hc
    exact all_eq_true.mp all_takeWhile c hc
  have htake : t.takeWhile isDigit = t := by
    conv_rhs => rw [← @takeWhile_append_dropWhile _ isDigit t, hrest, append_nil]
  rw [htake] at hds hv
  obtain ⟨sign, hsign, -⟩ := takeSign_spec (s.dropWhile isCSpace)
  rw [← ht] at hsign
  obtain ⟨l, c, hlast⟩ := (eq_nil_or_concat t).resolve_left hds
  have hc : isDigit c := hall c (by rw [hlast]; simp)
  have htrim : trimmed s = s.dropWhile isCSpace := by
    have hd : s.dropWhile isCSpace = (sign ++ l) ++ [c] := by
      rw [hsign, hlast, concat_eq_append, append_assoc]
    rw [hd]
    exact trimmed_of_last hd (isCSpace_of_isDigit hc)
  refine ⟨_, ?_, hv.symm⟩
  simp only [intText, htrim]
  rw [← ht, if_pos ⟨hds, all_eq_true.mpr hall⟩]

theorem mem_trimmed (h : c ∈ s) : isCSpace c ∨ c ∈ trimmed s := by
  have hdrop : ∀ l : Bytes, c ∈ l → isCSpace c ∨ c ∈ l.dropWhile isCSpace := by
    intro l hl
    rw [← @takeWhile_append_dropWhile _ isCSpace l] at hl
    rcases mem_append.mp hl with hl | hl
    · exact .inl (all_eq_true.mp all_takeWhile c hl)
    · exact .inr hl
  rcases hdrop s h with h | h
  · exact .inl h
  · rcases hdrop _ (mem_reverse.mpr h) with h | h
    · exact .inl h
    · exact .inr (mem_reverse.mpr h)

theorem nul_not_mem_of_intText (h : intText s = some v) : 0 ∉ s := by
  intro hmem
  simp only [intText] at h
  split at h
  swap
  · cases h
  next hds =>
  rcases mem_trimmed hmem with hspace | hmem
  · exact absurd hspace (by decide)
  obtain ⟨sign, hsign, hsigns⟩ := takeSign_spec (trimmed s)
  rw [hsign] at hmem
  rcases mem_append.mp hmem with hmem | hmem
  · simp only [mem_cons, Prod.mk.injEq, not_mem_nil, or_false] at hsigns
    rcases hsigns with ⟨-, rfl⟩ | ⟨-, rfl⟩ | ⟨-, rfl⟩ <;> revert hmem <;> decide
  · exact absurd (all_eq_true.mp hds.2 0 hmem) (by decide)

theorem loadBe_putBe (v : Int) (w : Nat) : loadBe (putBe v w) = (v % 2 ^ 64).toNat % 256 ^ w :=
  loadBe_storeBe_mod w _

theorem putBe_length (v : Int) (w : Nat) : (putBe v w).length = w := storeBe_length w _

theorem signed_putBe {w} (hw : w = 2 ∨ w = 4 ∨ w = 8) (hlo : -(2 ^ (8 * w - 1)) ≤ v)
    (hhi : v < 2 ^ (8 * w - 1)) : signed (putBe v w) = v := by
  unfold signed
  rw [putBe_length, loadBe_putBe]
  rcases hw with rfl | rfl | rfl
  all_goals
    norm_num at hlo hhi ⊢
    split <;> omega

theorem signed_range {w} (v : Int) (hw : w = 2 ∨ w = 4 ∨ w = 8) :
    -(2 ^ (8 * w - 1)) ≤ signed (putBe v w) ∧ signed (putBe v w) < 2 ^ (8 * w - 1) := by
  unfold signed
  rw [putBe_length, loadBe_putBe]
  rcases hw with rfl | rfl | rfl
  all_goals
    norm_num
    split <;> omega

theorem isIntOid_iff : isIntOid typeOid ↔
    typeOid = Oid.kInt2 ∨ typeOid = Oid.kInt4 ∨ typeOid = Oid.kInt8 ∨ typeOid = Oid.kOid := by
  simp [isIntOid]

theorem fitted_ok {x} (h : fitted cap x = .ok b) : b = x := by
  rw [fitted] at h
  split at h <;> cases h
  rfl

/-- The value of an integer type that octets written by `put_be` stand for. -/
def narrowed (typeOid : Nat) (v : Int) : Int :=
  if typeOid = Oid.kOid then loadBe (putBe v 4) else signed (putBe v (intWidth typeOid))

section
variable (h : isIntOid typeOid)
include h

theorem intWidth_cases :
    intWidth typeOid = 2 ∨ intWidth typeOid = 4 ∨ intWidth typeOid = 8 := by
  rcases isIntOid_iff.mp h with rfl | rfl | rfl | rfl <;> decide

theorem narrowed_range (v : Int) :
    intMin typeOid ≤ narrowed typeOid v ∧ narrowed typeOid v ≤ intMax typeOid := by
  unfold narrowed intMin intMax
  split
  · rw [loadBe_putBe]
    norm_num
    omega
  · have hrange := signed_range v (intWidth_cases h)
    exact ⟨hrange.1, Int.le_sub_one_of_lt hrange.2⟩

theorem narrowed_eq (hlo : intMin typeOid ≤ v)
    (hhi : v ≤ intMax typeOid) : narrowed typeOid v = v := by
  by_cases hoid : typeOid = Oid.kOid
  · simp only [narrowed, intMin, intMax, hoid, loadBe_putBe, if_true] at hlo hhi ⊢
    norm_num at hlo hhi ⊢
    omega
  · simp only [narrowed, intMin, intMax, hoid, if_false] at hlo hhi ⊢
    exact signed_putBe (intWidth_cases h) hlo (Int.lt_of_le_sub_one hhi)

theorem clamp_eq (hlo : intMin typeOid ≤ v)
    (hhi : v ≤ intMax typeOid) : max (-(2 ^ 63)) (min (2 ^ 63 - 1) v) = v := by
  have hwide : -(2 ^ 63) ≤ intMin typeOid ∧ intMax typeOid ≤ 2 ^ 63 - 1 := by
    rcases isIntOid_iff.mp h with rfl | rfl | rfl | rfl <;> decide
  omega

end

theorem int_sameValue_iff (htype : isIntOid typeOid) {rest} (hne : text ≠ [])
    (hread : strtoll (text.takeWhile (· ≠ 0)) = (v, rest)) (hrest : rest = []) :
    (∃ i, intText text = some i ∧ narrowed typeOid v = i) ↔
      ∃ i, intText text = some i ∧ intMin typeOid ≤ i ∧ i ≤ intMax typeOid := by
  constructor
  · rintro ⟨i, hi, rfl⟩
    exact ⟨_, hi, narrowed_range htype v⟩
  rintro ⟨i, hi, hlo, hhi⟩
  have hnul := nul_not_mem_of_intText hi
  have hall : text.takeWhile (· ≠ 0) = text :=
    takeWhile_eq_self_iff.mpr fun c hc => decide_eq_true fun h => hnul (h ▸ hc)
  rw [hall, hrest] at hread
  obtain ⟨j, hj, rfl⟩ := strtoll_end hread hne
  cases hi.symm.trans hj
  exact ⟨i, hi, by rw [clamp_eq htype hlo hhi, narrowed_eq htype hlo hhi]⟩

/-! ## Dates -/

theorem dayNumber_epoch : dayNumber 2000 1 1 = 730485 := by
  have hyear : yearStart 2000 = 730485 := yearStart_succ 1999
  rw [dayNumber, hyear]
  rfl

variable {m y d : Nat}

theorem daysFromCivil_eq (h : IsDay y m d) :
    daysFromCivil y m d - kPgEpochDays = dayNumber y m d - dayNumber 2000 1 1 := by
  obtain ⟨hy, hm, hm', hd, -⟩ := h
  rw [dayNumber_epoch]
  unfold daysFromCivil dayNumber kPgEpochDays
  have hera : ∀ k : Nat, (k : Int).tdiv 400 = (k / 400 : Nat) := fun k =>
    Int.tdiv_eq_ediv_of_nonneg (Int.natCast_nonneg k)
  have hyoe : ∀ k : Nat, ((k : Int) - (k / 400 : Nat) * 400).toNat = k % 400 := by omega
  by_cases hm2 : m ≤ 2
  · obtain ⟨k, rfl⟩ := Nat.exists_eq_add_of_le' hy
    simp only [hm2, if_true, Nat.not_lt.mpr hm2, if_false, Int.natCast_add, Int.natCast_one,
      Int.add_sub_cancel, Int.natCast_nonneg, hera, hyoe, yearStart_succ]
    generalize k / 400 = era, k % 400 * 365 + k % 400 / 4 - k % 400 / 100 = doe
    obtain rfl | rfl : m = 1 ∨ m = 2 := by omega
    · simp only [monthStart]
      omega
    · simp only [monthStart, monthDays]
      omega
  have hstart := monthStart_eq (y := y) (by omega : 3 ≤ m) hm'
  have hyear := yearStart_succ y
  rw [yearStart] at hyear
  simp only [hm2, if_false, Nat.lt_of_not_le hm2, if_true, Int.sub_zero, Int.natCast_nonneg, hera, hyoe,
    hstart]
  generalize y / 400 = era, y % 400 * 365 + y % 400 / 4 - y % 400 / 100 = doe at hyear ⊢
  generalize (153 * (m - 3) + 2) / 5 = days
  split at hyear
  · next hleap => rw [if_pos hleap]; omega
  · next hleap => rw [if_neg hleap]; omega

theorem digit_lt (h : isDigit c) : digit c < 10 := by
  simp only [isDigit, decide_eq_true_eq, UInt8.le_iff_toNat_le] at h
  have h39 : (0x39 : UInt8).toNat = 0x39 := rfl
  unfold digit
  omega

variable {ds : Bytes}

theorem decimal_lt (h : ds.all isDigit) : decimal ds < 10 ^ ds.length := by
  induction ds using List.reverseRecOn with
  | nil => decide
  | append_singleton ds c ih =>
    simp only [all_append, all_cons, all_nil, Bool.and_true, Bool.and_eq_true] at h
    have hc : c.toNat - 0x30 < 10 := digit_lt h.2
    have hds := ih h.1
    rw [decimal, foldl_concat, ← decimal, length_append, length_singleton, Nat.pow_succ]
    omega

theorem digitsOf_length (w n : Nat) : (digitsOf w n).length = w := by
  induction w generalizing n with
  | zero => rfl
  | succ w ih => rw [digitsOf, length_append, ih, length_singleton]

theorem digitsOf_all (w n : Nat) : (digitsOf w n).all isDigit := by
  have hlast : ∀ k < 10, isDigit (UInt8.ofNat (0x30 + k)) := by decide
  induction w generalizing n with
  | zero => rfl
  | succ w ih =>
    rw [digitsOf, all_append, ih]
    simpa using hlast (n % 10) (Nat.mod_lt n (by decide))

theorem decimal_digitsOf {w n : Nat} (h : n < 10 ^ w) : decimal (digitsOf w n) = n := by
  have hlast : ∀ k < 10, (UInt8.ofNat (0x30 + k)).toNat - 0x30 = k := by decide
  induction w generalizing n with
  | zero => exact (Nat.lt_one_iff.mp h).symm
  | succ w ih =>
    have hrest := ih (Nat.div_lt_of_lt_mul (by rwa [Nat.pow_succ, Nat.mul_comm] at h))
    rw [decimal] at hrest
    rw [digitsOf, decimal, foldl_concat, hrest, hlast _ (Nat.mod_lt n (by decide))]
    omega

theorem digitsOf_decimal (h : ds.all isDigit) : digitsOf ds.length (decimal ds) = ds := by
  induction ds using List.reverseRecOn with
  | nil => rfl
  | append_singleton ds c ih =>
    simp only [all_append, all_cons, all_nil, Bool.and_true, Bool.and_eq_true] at h
    have hc : c.toNat - 0x30 < 10 := digit_lt h.2
    have hge : 0x30 ≤ c.toNat := by
      have := h.2
      simp only [isDigit, decide_eq_true_eq, UInt8.le_iff_toNat_le] at this
      exact this.1
    have hdecimal : decimal (ds ++ [c]) = decimal ds * 10 + (c.toNat - 0x30) := foldl_concat ..
    have hdiv : (decimal ds * 10 + (c.toNat - 0x30)) / 10 = decimal ds := by omega
    have hmod : 0x30 + (decimal ds * 10 + (c.toNat - 0x30)) % 10 = c.toNat := by omega
    rw [length_append, length_singleton, digitsOf, hdecimal, hdiv, ih h.1, hmod, UInt8.ofNat_toNat]

theorem dateFields_dateLit (hy : y < 10 ^ 4) (hm : m < 10 ^ 2) (hd : d < 10 ^ 2) :
    dateFields (dateLit y m d) = some (y, m, d) := by
  have hall : (digitsOf 4 y ++ digitsOf 2 m ++ digitsOf 2 d).all isDigit := by
    simp only [all_append, digitsOf_all, Bool.and_self]
  have hread : dateFields (dateLit y m d) = if MINUS = MINUS ∧ MINUS = MINUS ∧
      (digitsOf 4 y ++ digitsOf 2 m ++ digitsOf 2 d).all isDigit then
      some (decimal (digitsOf 4 y), decimal (digitsOf 2 m), decimal (digitsOf 2 d)) else none := rfl
  rw [hread, if_pos ⟨rfl, rfl, hall⟩, decimal_digitsOf hy, decimal_digitsOf hm, decimal_digitsOf hd]

theorem dateFields_some (h : dateFields s = some (y, m, d)) : s = dateLit y m d ∧ y < 10 ^ 4 := by
  unfold dateFields at h
  split at h
  swap
  · cases h
  next y₁ y₂ y₃ y₄ _ m₁ m₂ _ d₁ d₂ =>
  split at h
  swap
  · cases h
  next hok =>
  obtain ⟨rfl, rfl, hall⟩ := hok
  cases h
  have hy : [y₁, y₂, y₃, y₄].all isDigit := by simp_all
  have hm : [m₁, m₂].all isDigit := by simp_all
  have hd : [d₁, d₂].all isDigit := by simp_all
  refine ⟨?_, decimal_lt hy⟩
  have h4 := digitsOf_decimal hy
  have h2 := digitsOf_decimal hm
  have h2' := digitsOf_decimal hd
  simp only [length_cons, length_nil, Nat.zero_add, Nat.reduceAdd] at h4 h2 h2'
  rw [dateLit, h4, h2, h2']
  rfl

theorem monthDays_le (y m : Nat) : monthDays y m ≤ 31 := by
  unfold monthDays
  split <;> try split
  all_goals decide

theorem dayText_iff : DayText s y m d ↔ dateFields s = some (y, m, d) ∧ IsDay y m d := by
  constructor
  · rintro ⟨hy, hday, rfl⟩
    obtain ⟨-, -, hm, -, hd⟩ := id hday
    have hmonth := monthDays_le y m
    exact ⟨dateFields_dateLit hy (by omega) (by omega), hday⟩
  · rintro ⟨hf, hday⟩
    obtain ⟨hs, hy⟩ := dateFields_some hf
    exact ⟨hy, hday, hs⟩

theorem yearStart_le (y : Nat) : yearStart y ≤ 366 * y := by
  have := yearStart_eq y
  omega

theorem dayNumber_lt (h : IsDay y m d) (hy : y < 10 ^ 4) : dayNumber y m d < 4000000 := by
  obtain ⟨-, hm, hm', -, hd⟩ := h
  have hmonth := monthDays_le y m
  have hstart : monthStart y m ≤ 366 := by
    by_cases hm2 : m ≤ 2
    · obtain rfl | rfl : m = 1 ∨ m = 2 := by omega
      · exact Nat.zero_le _
      · simp [monthStart, monthDays]
    · have := monthStart_eq (y := y) (by omega : 3 ≤ m) hm'
      rw [this]
      split <;> omega
  have hyear := yearStart_le y
  unfold dayNumber
  omega

variable {days : Int}

theorem parseDateText_some (h : parseDateText s = some days) :
    ∃ y m d, dateFields s = some (y, m, d) ∧ daysFromCivil y m d - kPgEpochDays = days := by
  unfold parseDateText at h
  cases hf : dateFields s with
  | none => rw [hf] at h; cases h
  | some f =>
    rw [hf] at h
    exact ⟨_, _, _, rfl, Option.some.inj (Option.ite_none_left_eq_some.mp h).2⟩

theorem dateText_of_parse (h : parseDateText s = some days) (hday : ∃ y m d, DayText s y m d) :
    DateText s days ∧ -(10 ^ 7) ≤ days ∧ days < 10 ^ 7 := by
  obtain ⟨y, m, d, hf, rfl⟩ := parseDateText_some h
  obtain ⟨_, _, _, hday⟩ := hday
  cases hf.symm.trans (dayText_iff.mp hday).1
  have hlt := dayNumber_lt hday.2.1 hday.1
  rw [daysFromCivil_eq hday.2.1]
  refine ⟨⟨y, m, d, hday, rfl⟩, ?_⟩
  rw [dayNumber_epoch]
  omega

theorem fraction_some {f} (h : fraction s = some f) : FractionText s f ∧ f < 10 ^ 6 := by
  unfold fraction at h
  split at h
  · cases h
    exact ⟨.inl ⟨rfl, rfl⟩, by decide⟩
  next c ds =>
  split at h
  · cases h
  next hbad =>
  cases h
  simp only [not_or, not_not, Nat.not_lt, Bool.not_eq_false] at hbad
  obtain ⟨hpoint, hne, hlen, hall⟩ := hbad
  constructor
  · exact .inr ⟨ds.length, decimal ds, length_pos_of_ne_nil hne, hlen, decimal_lt hall,
      by rw [digitsOf_decimal hall, hpoint], rfl⟩
  calc decimal ds * 10 ^ (6 - ds.length)
      < 10 ^ ds.length * 10 ^ (6 - ds.length) :=
        Nat.mul_lt_mul_of_pos_right (decimal_lt hall) (Nat.pow_pos (by decide))
    _ = 10 ^ 6 := by rw [← Nat.pow_add, Nat.add_sub_cancel' hlen]

theorem clockFields_some {h sec f} (hc : clockFields s = some (h, m, sec, f)) :
    (∃ sep frac, s = sep :: (clockLit h m sec ++ frac) ∧ (sep = SP ∨ sep = 0x54) ∧ FractionText frac f) ∧
      h < 24 ∧ m < 60 ∧ sec ≤ 60 ∧ f < 10 ^ 6 := by
  unfold clockFields at hc
  split at hc
  swap
  · cases hc
  next sep h₁ h₂ _ m₁ m₂ _ s₁ s₂ frac =>
  split at hc
  swap
  · cases hc
  next hok =>
  obtain ⟨hsep, rfl, rfl, hall, hh, hm, hsec⟩ := hok
  obtain ⟨f', hf, heq⟩ := Option.map_eq_some_iff.mp hc
  cases heq
  obtain ⟨hfrac, hlt⟩ := fraction_some hf
  have h2 : ∀ {a b}, [a, b].all isDigit → digitsOf 2 (decimal [a, b]) = [a, b] := digitsOf_decimal
  refine ⟨⟨sep, frac, ?_, hsep, hfrac⟩, Nat.lt_succ_of_le hh, Nat.lt_succ_of_le hm, hsec, hlt⟩
  rw [clockLit, h2 (by simp_all), h2 (by simp_all), h2 (by simp_all)]
  rfl

variable {us : Int}

theorem timestampText_of_parse (h : parseTimestampText s = some us)
    (hday : ∃ y m d, DayText (s.take 10) y m d) : TimestampText s us ∧ -(2 ^ 63) ≤ us ∧ us < 2 ^ 63 := by
  unfold parseTimestampText at h
  cases hdays : parseDateText (s.take 10) with
  | none => rw [hdays] at h; cases h
  | some days =>
    rw [hdays] at h
    obtain ⟨⟨hh, mm, sec, f⟩, hclock, rfl⟩ := Option.map_eq_some_iff.mp h
    obtain ⟨⟨sep, frac, hs, hsep, hfrac⟩, hh', mm', sec', hlt⟩ := clockFields_some hclock
    obtain ⟨hd, hlo, hhi⟩ := dateText_of_parse hdays hday
    refine ⟨⟨s.take 10, sep, hh, mm, sec, frac, days, f, ?_, hd, hsep, hh', mm', sec', hfrac, ?_⟩, ?_⟩
    · rw [← hs, take_append_drop]
    · ring
    · dsimp only
      omega

/-! ## Numerics -/

theorem decimal_append (x y : Bytes) : decimal (x ++ y) = decimal x * 10 ^ y.length + decimal y := by
  induction y using List.reverseRecOn with
  | nil => simp [decimal]
  | append_singleton y c ih =>
    simp only [← append_assoc]
    rw [decimal, foldl_concat, ← decimal, ih, length_append, length_singleton, Nat.pow_succ]
    rw [decimal, decimal, decimal, foldl_concat]
    ring

theorem decimal_zeros (n : Nat) : decimal (List.replicate n ZERO) = 0 := by
  induction n with
  | zero => rfl
  | succ n ih =>
    rw [replicate_succ', decimal_append, ih]
    rfl

theorem decimal_dropWhile_zero (x : Bytes) : decimal (x.dropWhile (· = ZERO)) = decimal x := by
  induction x with
  | nil => rfl
  | cons c x ih =>
    by_cases hc : c = ZERO
    · rw [dropWhile_cons_of_pos (by simpa using hc), ih, hc]
      rfl
    · rw [dropWhile_cons_of_neg (by simpa using hc)]

theorem groupsValue_append (x y : List Nat) (weight : Int) :
    groupsValue weight (x ++ y) = groupsValue weight x + groupsValue (weight - x.length) y := by
  induction x generalizing weight with
  | nil => simp [groupsValue]
  | cons d x ih =>
    have hweight : weight - 1 - (x.length : Int) = weight - ((d :: x).length : Int) := by
      rw [length_cons]
      omega
    rw [cons_append, groupsValue, ih, groupsValue, hweight]
    ring

variable {gs : List Nat}

theorem groupsValue_zeros (weight : Int) (h : ∀ g ∈ gs, g = 0) : groupsValue weight gs = 0 := by
  induction gs generalizing weight with
  | nil => rfl
  | cons g gs ih =>
    rw [groupsValue, h g mem_cons_self, ih _ fun g' hg => h g' (mem_cons_of_mem g hg)]
    simp

theorem groupsValue_quads {k} (hk : ds.length = 4 * k) (weight : Int) :
    groupsValue weight (quads ds) = (decimal ds : ℚ) * 10000 ^ (weight + 1 - k) := by
  induction k generalizing ds weight with
  | zero =>
    have hnil : ds = [] := length_eq_zero_iff.mp (by omega)
    subst hnil
    simp [quads, groupsValue, decimal]
  | succ k ih =>
    match ds, hk with
    | a :: b :: c :: d :: r, hk =>
      have hr : r.length = 4 * k := by simp only [length_cons] at hk; omega
      have hfour : decimal [a, b, c, d] = ((digit a * 10 + digit b) * 10 + digit c) * 10 + digit d := by
        simp [decimal, digit]
      have hdec : decimal (a :: b :: c :: d :: r) = decimal [a, b, c, d] * 10 ^ (4 * k) + decimal r := by
        rw [← hr, ← decimal_append]
        rfl
      have hpow : (10 : ℚ) ^ (4 * k) = 10000 ^ (k : Int) := by
        rw [pow_mul, zpow_natCast]
        norm_num
      have hsplit : (10000 : ℚ) ^ weight = 10000 ^ (k : Int) * 10000 ^ (weight + 1 - ((k + 1 : Nat) : Int)) := by
        rw [← zpow_add₀ (by norm_num)]
        congr 1
        push_cast
        ring
      have hexp : weight - 1 + 1 - (k : Int) = weight + 1 - ((k + 1 : Nat) : Int) := by push_cast; ring
      rw [quads, groupsValue, ih hr, ← hfour, hdec, hexp, hsplit]
      push_cast
      rw [hpow]
      ring

theorem stripLeading_spec (gs : List Nat) (weight : Int) :
    groupsValue (stripLeading gs weight).2 (stripLeading gs weight).1 = groupsValue weight gs ∧
      weight - gs.length ≤ (stripLeading gs weight).2 ∧ (stripLeading gs weight).2 ≤ weight ∧
      (stripLeading gs weight).1 <:+ gs := by
  induction gs generalizing weight with
  | nil => simp [stripLeading]
  | cons g gs ih =>
    rw [stripLeading]
    split
    · next hg =>
      obtain ⟨hval, hlo, hhi, hsuffix⟩ := ih (weight - 1)
      refine ⟨?_, ?_, by omega, hsuffix.trans (suffix_cons g gs)⟩
      · rw [hval, groupsValue, hg]
        simp
      · rw [length_cons]
        omega
    · refine ⟨rfl, ?_, Int.le_refl _, suffix_refl _⟩
      simp only
      omega

theorem stripTrailing_spec (gs : List Nat) (weight : Int) :
    groupsValue weight (stripTrailing gs) = groupsValue weight gs ∧ stripTrailing gs <+: gs := by
  have hcut : gs = stripTrailing gs ++ (gs.reverse.takeWhile (· = 0)).reverse := by
    rw [stripTrailing, ← reverse_append, takeWhile_append_dropWhile, reverse_reverse]
  refine ⟨?_, ⟨_, hcut.symm⟩⟩
  have hzero : ∀ g ∈ (gs.reverse.takeWhile (· = 0)).reverse, g = 0 := by
    intro g hg
    simpa using all_eq_true.mp all_takeWhile g (mem_reverse.mp hg)
  conv_rhs => rw [hcut, groupsValue_append, groupsValue_zeros _ hzero, add_zero]

theorem quads_lt (h : ds.all isDigit) : ∀ g ∈ quads ds, g < 10000 := by
  induction ds using quads.induct with
  | case1 a b c d r ih =>
    simp only [all_cons, Bool.and_eq_true] at h
    intro g hg
    rw [quads] at hg
    rcases mem_cons.mp hg with rfl | hg
    · have ha := digit_lt h.1
      have hb := digit_lt h.2.1
      have hc := digit_lt h.2.2.1
      have hd := digit_lt h.2.2.2.1
      omega
    · exact ih h.2.2.2.2 g hg
  | case2 ds hds =>
    intro g hg
    rw [quads] at hg
    · cases hg
    · exact hds

theorem quads_length (ds : Bytes) : (quads ds).length = ds.length / 4 := by
  induction ds using quads.induct with
  | case1 a b c d r ih =>
    simp only [quads, length_cons, ih]
    omega
  | case2 ds hds =>
    match ds with
    | [] => rfl
    | [_] => simp [quads]
    | [_, _] => simp [quads]
    | [_, _, _] => simp [quads]
    | a :: b :: c :: d :: r => exact absurd rfl (hds a b c d r)

theorem pairs_storeBe (h : ∀ g ∈ gs, g < 10000) : pairs (gs.flatMap (storeBe 2)) = gs := by
  induction gs with
  | nil => rfl
  | cons g gs ih =>
    have hg : g < 256 ^ 2 := Nat.lt_of_lt_of_le (h g mem_cons_self) (by norm_num)
    have hload := loadBe_storeBe hg
    have hcons : pairs (storeBe 2 g ++ gs.flatMap (storeBe 2)) = loadBe (storeBe 2 g) :: pairs (gs.flatMap (storeBe 2)) :=
      rfl
    rw [flatMap_cons, hcons, hload, ih fun g' hg => h g' (mem_cons_of_mem g hg)]

theorem flatMap_storeBe_length (gs : List Nat) : (gs.flatMap (storeBe 2)).length = 2 * gs.length := by
  induction gs with
  | nil => rfl
  | cons g gs ih =>
    rw [flatMap_cons, length_append, storeBe_length, ih, length_cons]
    omega

theorem numericBinary_layout {weight sign scale} (hgs : ∀ g ∈ gs, g < 10000)
    (hlen : gs.length < 2 ^ 15) (hw : -(2 ^ 15) ≤ weight) (hw' : weight < 2 ^ 15)
    (hsign : sign = 0 ∨ sign = 0x4000) :
    numericBinary (storeBe 2 gs.length ++ putBe weight 2 ++ storeBe 2 sign ++ storeBe 2 scale ++
        gs.flatMap (storeBe 2)) =
      some (some (if sign = 0 then groupsValue weight gs else -groupsValue weight gs)) := by
  have hcount : loadBe (storeBe 2 gs.length) = gs.length := loadBe_storeBe (by norm_num; omega)
  have hs : loadBe (storeBe 2 sign) = sign := loadBe_storeBe (by rcases hsign with rfl | rfl <;> norm_num)
  have hweight : signed (putBe weight 2) = weight := signed_putBe (.inl rfl) hw hw'
  generalize hb : storeBe 2 gs.length ++ putBe weight 2 ++ storeBe 2 sign ++ storeBe 2 scale ++
    gs.flatMap (storeBe 2) = b
  have htotal : b.length = 8 + 2 * gs.length := by
    rw [← hb]
    simp only [length_append, storeBe_length, putBe_length, flatMap_storeBe_length]
  unfold numericBinary
  have h1 : b.take 2 = storeBe 2 gs.length := by rw [← hb]; rfl
  have h2 : (b.drop 2).take 2 = putBe weight 2 := by rw [← hb]; rfl
  have h3 : (b.drop 4).take 2 = storeBe 2 sign := by rw [← hb]; rfl
  have h4 : b.drop 8 = gs.flatMap (storeBe 2) := by rw [← hb]; rfl
  simp only [h1, h2, h3, h4, htotal, hcount, hs, hweight, pairs_storeBe hgs]
  rcases hsign with rfl | rfl
  · simp
  · simp

theorem groups_value (ip fp : Bytes) :
    let lead := ip.dropWhile (· = ZERO)
    let intGroups := (lead.length + 3) / 4
    let fracGroups := (fp.length + 3) / 4
    groupsValue (intGroups - 1) (quads (List.replicate (intGroups * 4 - lead.length) ZERO ++ lead) ++
        quads (fp ++ List.replicate (fracGroups * 4 - fp.length) ZERO)) =
      (decimal (ip ++ fp) : ℚ) / 10 ^ fp.length := by
  intro lead intGroups fracGroups
  have hint : (List.replicate (intGroups * 4 - lead.length) ZERO ++ lead).length = 4 * intGroups := by
    rw [length_append, length_replicate]
    omega
  have hfrac : (fp ++ List.replicate (fracGroups * 4 - fp.length) ZERO).length = 4 * fracGroups := by
    rw [length_append, length_replicate]
    omega
  have hlead : decimal (List.replicate (intGroups * 4 - lead.length) ZERO ++ lead) = decimal ip := by
    rw [decimal_append, decimal_zeros, Nat.zero_mul, Nat.zero_add]
    exact decimal_dropWhile_zero ip
  have htail : decimal (fp ++ List.replicate (fracGroups * 4 - fp.length) ZERO) =
      decimal fp * 10 ^ (fracGroups * 4 - fp.length) := by
    rw [decimal_append, decimal_zeros, length_replicate, Nat.add_zero]
  have hcount : (quads (List.replicate (intGroups * 4 - lead.length) ZERO ++ lead)).length = intGroups := by
    rw [quads_length, hint]
    omega
  have hw : (intGroups : Int) - 1 + 1 - intGroups = 0 := by ring
  have hw' : (intGroups : Int) - 1 - intGroups + 1 - fracGroups = -(fracGroups : Int) := by ring
  have hpow : (10000 : ℚ) ^ fracGroups = 10 ^ fp.length * 10 ^ (fracGroups * 4 - fp.length) := by
    rw [← pow_add, show fp.length + (fracGroups * 4 - fp.length) = 4 * fracGroups by omega, pow_mul]
    norm_num
  rw [groupsValue_append, groupsValue_quads hint, groupsValue_quads hfrac, hcount, hw, hw', hlead, htail,
    decimal_append, zpow_zero, zpow_neg, zpow_natCast, hpow]
  push_cast
  field_simp

theorem numericGroups_spec {ip : Bytes} {fp : Bytes} (hip : ip.all isDigit) (hfp : fp.all isDigit)
    (hiplen : ip.length < kMaxScalarText) (hfplen : fp.length < kMaxScalarText) :
    groupsValue (numericGroups ip fp).2 (numericGroups ip fp).1 = (decimal (ip ++ fp) : ℚ) / 10 ^ fp.length ∧
      (∀ g ∈ (numericGroups ip fp).1, g < 10000) ∧ (numericGroups ip fp).1.length ≤ 64 ∧
      -128 ≤ (numericGroups ip fp).2 ∧ (numericGroups ip fp).2 ≤ 64 := by
  have hlead : (ip.dropWhile (· = ZERO)).all isDigit :=
    all_eq_true.mpr fun c hc => all_eq_true.mp hip c ((dropWhile_sublist _).mem hc)
  have hleadlen : (ip.dropWhile (· = ZERO)).length ≤ ip.length := (dropWhile_sublist _).length_le
  have hvalue := groups_value ip fp
  simp only [kMaxScalarText] at hiplen hfplen
  simp only [numericGroups] at hvalue ⊢
  set intGroups := ((ip.dropWhile (· = ZERO)).length + 3) / 4 with hintGroups
  set fracGroups := (fp.length + 3) / 4 with hfracGroups
  set groups := quads (List.replicate (intGroups * 4 - (ip.dropWhile (· = ZERO)).length) ZERO ++
      ip.dropWhile (· = ZERO)) ++ quads (fp ++ List.replicate (fracGroups * 4 - fp.length) ZERO) with hgroups
  have hzeros : ∀ n, (List.replicate n ZERO).all isDigit := by
    intro n
    exact all_eq_true.mpr fun c hc => by rw [eq_of_mem_replicate hc]; rfl
  have hlt : ∀ g ∈ groups, g < 10000 := by
    intro g hg
    rcases mem_append.mp hg with hg | hg
    · exact quads_lt (by rw [all_append, hzeros, hlead]; rfl) g hg
    · exact quads_lt (by rw [all_append, hzeros, hfp]; rfl) g hg
  have hlen : groups.length ≤ 64 := by
    rw [hgroups, length_append, quads_length, quads_length, length_append, length_append,
      length_replicate, length_replicate]
    omega
  obtain ⟨hstrip, hlo, hhi, hsuffix⟩ := stripLeading_spec groups (intGroups - 1)
  set first := stripLeading groups (intGroups - 1)
  obtain ⟨htrail, hfront⟩ := stripTrailing_spec first.1 first.2
  refine ⟨?_, fun g hg => hlt g (hsuffix.subset (hfront.subset hg)),
    (hfront.length_le.trans hsuffix.length_le).trans hlen, ?_, ?_⟩
  · rw [← hvalue, ← hstrip, ← htrail]
    split
    · next hnil =>
      rw [hnil]
      rfl
    · rfl
  · split <;> omega
  · split <;> omega

theorem fractionPart_spec {t : Bytes} (h : (fractionPart t).2 = []) :
    (fractionPart t).1.all isDigit ∧
      ((fractionPart t).1 = [] ∧ t = [] ∨ t = POINT :: (fractionPart t).1) := by
  unfold fractionPart at h ⊢
  split at h
  · next c r =>
    split at h
    · next hc =>
      simp only [hc, if_true]
      refine ⟨all_takeWhile, .inr ?_⟩
      have hend : r.dropWhile isDigit = [] := h
      conv_lhs => rw [← @takeWhile_append_dropWhile _ isDigit r, hend, append_nil]
    · cases h
  · exact ⟨rfl, .inl ⟨rfl, rfl⟩⟩

theorem numeric_sameValue (h : numericTextToBinary s cap = some b) :
    ∃ q, NumericText s q ∧ numericBinary b = some q := by
  unfold numericTextToBinary at h
  split at h
  · next hnan =>
    split at h
    · cases h
    · cases h
      exact ⟨none, .inl ⟨hnan, rfl⟩, by decide +kernel⟩
  simp only at h
  obtain ⟨sign, hsign, hsigns⟩ := takeSign_spec s
  set neg := (takeSign s).1
  set ip := (takeSign s).2.takeWhile isDigit with hipdef
  set tail := (takeSign s).2.dropWhile isDigit with htail
  set fp := (fractionPart tail).1
  split at h
  · cases h
  next hlong =>
  split at h
  · cases h
  next hform =>
  split at h
  · cases h
  cases h
  simp only [not_or, Nat.not_le] at hlong
  simp only [not_or, ne_eq, not_not] at hform
  have hip : ip.all isDigit := all_takeWhile
  obtain ⟨(hfp : fp.all isDigit), hpoint⟩ := fractionPart_spec hform.1
  obtain ⟨hvalue, hlt, hlen, hlo, hhi⟩ := numericGroups_spec hip hfp hlong.1 hlong.2
  have hne : ip ++ fp ≠ [] := fun hnil => hform.2 (by rw [← length_append, hnil]; rfl)
  have hs : s = sign ++ ip ++ tail := by
    rw [append_assoc, takeWhile_append_dropWhile]
    exact hsign
  set kept := (numericGroups ip fp).1
  have hzero : kept = [] → (decimal (ip ++ fp) : ℚ) / 10 ^ fp.length = 0 := by
    intro hnil
    rw [← hvalue, hnil]
    rfl
  refine ⟨_, .inr ⟨neg, sign, ip, fp, tail, hs, hsigns, hpoint, by rw [all_append, hip, hfp]; rfl, hne,
    rfl⟩, ?_⟩
  rw [numericBinary_layout hlt (by omega) (by omega) (by omega) (by split <;> simp), hvalue]
  by_cases hnil : kept = []
  · simp [hnil, hzero hnil]
  · by_cases hneg : neg = true
    · simp [hneg, hnil]
    · simp [hneg]

/-! ## Every type -/

theorem sameValue_bool : SameValue Oid.kBool s b ↔ ∃ v, boolText s = some v ∧ b = [if v then 1 else 0] := by
  unfold SameValue binaryValue
  simp only [if_true]
  constructor
  · rintro ⟨v, hv, hb⟩
    split at hb
    · next h0 => cases hb; cases hv with | bool _ hv => exact ⟨false, hv, h0⟩
    · split at hb
      · next h1 => cases hb; cases hv with | bool _ hv => exact ⟨true, hv, h1⟩
      · cases hb
  · rintro ⟨v, hv, rfl⟩
    exact ⟨.bool v, .bool rfl hv, by cases v <;> rfl⟩

theorem sameValue_int (h : isIntOid typeOid) (hlen : b.length = intWidth typeOid) :
    SameValue typeOid s b ↔
      ∃ i, intText s = some i ∧ (if typeOid = Oid.kOid then (loadBe b : Int) else signed b) = i := by
  have hbool : typeOid ≠ Oid.kBool := by
    rcases isIntOid_iff.mp h with rfl | rfl | rfl | rfl <;> decide
  unfold SameValue binaryValue
  rw [if_neg hbool, if_pos h, if_neg (not_not.mpr hlen)]
  constructor
  · rintro ⟨v, hv, hb⟩
    cases hb
    cases hv with | int _ hv => exact ⟨_, hv, rfl⟩
  · rintro ⟨i, hi, rfl⟩
    exact ⟨_, .int h hi, rfl⟩

theorem TextValue.dateText (h : TextValue typeOid s (.date days)) : DateText s days := by
  cases h
  assumption

theorem TextValue.timestampText (h : TextValue typeOid s (.timestamp us)) : TimestampText s us := by
  cases h
  assumption

theorem binaryValue_date (hlen : b.length = 4) : binaryValue Oid.kDate b = some (.date (signed b)) := by
  rw [binaryValue, if_neg (by decide), if_neg (by decide), if_pos rfl, if_neg (not_not.mpr hlen)]

theorem binaryValue_timestamp (hlen : b.length = 8) :
    binaryValue Oid.kTimestamp b = some (.timestamp (signed b)) := by
  rw [binaryValue, if_neg (by decide), if_neg (by decide), if_neg (by decide), if_pos rfl,
    if_neg (not_not.mpr hlen)]

theorem dateLit_length (y m d : Nat) : (dateLit y m d).length = 10 := rfl

theorem date_sameValue_iff (h : parseDateText s = some days) :
    SameValue Oid.kDate s (putBe days 4) ↔ ∃ y m d, DayText (s.take 10) y m d := by
  obtain ⟨_, _, _, hf, -⟩ := parseDateText_some h
  have hten : s.take 10 = s := take_of_length_le (by rw [(dateFields_some hf).1, dateLit_length])
  rw [SameValue, binaryValue_date (putBe_length _ _), hten]
  constructor
  · rintro ⟨v, hv, hb⟩
    rw [← Option.some.inj hb] at hv
    obtain ⟨y, m, d, hday, -⟩ := hv.dateText
    exact ⟨y, m, d, hday⟩
  intro hday
  obtain ⟨hdate, hlo, hhi⟩ := dateText_of_parse h hday
  rw [signed_putBe (by decide) (by norm_num; omega) (by norm_num; omega)]
  exact ⟨_, .date rfl hdate, rfl⟩

theorem timestamp_sameValue_iff (h : parseTimestampText s = some us) :
    SameValue Oid.kTimestamp s (putBe us 8) ↔ ∃ y m d, DayText (s.take 10) y m d := by
  rw [SameValue, binaryValue_timestamp (putBe_length _ _)]
  constructor
  · rintro ⟨v, hv, hb⟩
    rw [← Option.some.inj hb] at hv
    obtain ⟨date, sep, _, _, _, _, _, _, rfl, ⟨y, m, d, hday, -⟩, -⟩ := hv.timestampText
    refine ⟨y, m, d, ?_⟩
    rwa [take_left' (by rw [hday.2.2, dateLit_length])]
  intro hday
  obtain ⟨htext, hlo, hhi⟩ := timestampText_of_parse h hday
  rw [signed_putBe (by decide) (by norm_num; omega) (by norm_num; omega)]
  exact ⟨_, .timestamp rfl htext, rfl⟩

/-- A cell that is sent in binary stands for the value of its text if and only
if the value is one of the type. -/
theorem textToBinaryResult_sameValue_iff (hfloat : typeOid ≠ Oid.kFloat4 ∧ typeOid ≠ Oid.kFloat8)
    (h : textToBinaryResult floatBits text typeOid cap = .ok b) :
    SameValue typeOid text b ↔ Representable typeOid text := by
  unfold textToBinaryResult at h
  split at h
  · next htype =>
    subst htype
    split at h
    · cases h
    · next v hv =>
      cases fitted_ok h
      exact iff_of_true (sameValue_bool.mpr ⟨v, boolText_of_parse hv, rfl⟩) ⟨nofun, nofun⟩
  next hbool =>
  split at h
  · next htype =>
    have hdate : ¬ (typeOid = Oid.kDate ∨ typeOid = Oid.kTimestamp) := by
      rcases isIntOid_iff.mp htype with rfl | rfl | rfl | rfl <;> decide
    split at h
    · cases h
    next hne =>
    simp only at h
    split at h
    · cases h
    next hrest =>
    cases fitted_ok h
    have hint := int_sameValue_iff htype (fun hnil => hne (.inl hnil)) Prod.mk.eta.symm (not_not.mp hrest)
    rw [sameValue_int htype (putBe_length _ _), Representable]
    simp only [htype, hdate, false_implies, and_true, true_implies]
    rw [← hint]
    have hnarrow : ∀ v, (if typeOid = Oid.kOid then (loadBe (putBe v (intWidth typeOid)) : Int)
        else signed (putBe v (intWidth typeOid))) = narrowed typeOid v := by
      intro v
      unfold narrowed
      split
      · next hoid => rw [hoid]; rfl
      · rfl
    rw [hnarrow]
  next hint =>
  rw [if_neg (by tauto)] at h
  have hrep : ∀ {p : Prop}, (p ↔ ∃ y m d, DayText (text.take 10) y m d) →
      (typeOid = Oid.kDate ∨ typeOid = Oid.kTimestamp) → (p ↔ Representable typeOid text) := by
    intro p hp htype
    rw [hp]
    exact ⟨fun hday => ⟨fun hi => absurd hi hint, fun _ => hday⟩, fun hr => hr.2 htype⟩
  split at h
  · next htype =>
    split at h
    · cases h
    · next days hdays =>
      cases fitted_ok h
      exact hrep (htype ▸ date_sameValue_iff hdays) (.inl htype)
  next hdate =>
  split at h
  · next htype =>
    split at h
    · cases h
    · next us hus =>
      cases fitted_ok h
      exact hrep (htype ▸ timestamp_sameValue_iff hus) (.inr htype)
  next hts =>
  -- every number and every text is a value of its type
  have hall : Representable typeOid text :=
    ⟨fun hi => absurd hi hint, fun hor => absurd hor (not_or.mpr ⟨hdate, hts⟩)⟩
  refine iff_of_true ?_ hall
  unfold SameValue binaryValue
  simp only [hbool, hint, hdate, hts, if_false]
  split at h
  · next htype =>
    split at h
    · cases h
    next b' hb =>
    cases h
    obtain ⟨q, hq, hq'⟩ := numeric_sameValue hb
    simp only [htype, if_true, hq', Option.map_some]
    exact ⟨_, .numeric rfl hq, rfl⟩
  next hnum =>
  split at h
  · next htext =>
    cases fitted_ok h
    simp only [hnum, if_false, htext.2, if_true]
    exact ⟨_, .text htext.2, rfl⟩
  · cases h

/-- `-129` as a smallint. -/
theorem textToBinaryResult_int2 :
    textToBinaryResult (fun _ _ => none) (ascii "-129") Oid.kInt2 8 = .ok [0xFF, 0x7F] ∧
      SameValue Oid.kInt2 (ascii "-129") [0xFF, 0x7F] := by
  have hrun : textToBinaryResult (fun _ _ => none) (ascii "-129") Oid.kInt2 8 = .ok [0xFF, 0x7F] := by
    decide +kernel
  refine ⟨hrun, (textToBinaryResult_sameValue_iff (by decide) hrun).mpr ⟨fun _ => ⟨-129, ?_⟩, ?_⟩⟩
  · decide +kernel
  · intro h
    exact absurd h (by decide)

/-- 70000 is sent as the smallint 4464, and the thirtieth of February as the
second of March. -/
theorem wrapped_and_shifted :
    (∃ b, textToBinaryResult (fun _ _ => none) (ascii "70000") Oid.kInt2 8 = .ok b ∧
        intText (ascii "70000") = some 70000 ∧ binaryValue Oid.kInt2 b = some (.int 4464)) ∧
      ∃ b, textToBinaryResult (fun _ _ => none) (ascii "2023-02-30") Oid.kDate 8 = .ok b ∧
        textToBinaryResult (fun _ _ => none) (ascii "2023-03-02") Oid.kDate 8 = .ok b ∧
        ¬ IsDay 2023 2 30 ∧ ¬ SameValue Oid.kDate (ascii "2023-02-30") b := by
  refine ⟨⟨[0x11, 0x70], by decide +kernel, by decide +kernel, by decide +kernel⟩,
    [0, 0, 0x21, 0x0D], by decide +kernel, by decide +kernel, by decide, ?_⟩
  rintro ⟨v, hv, hb⟩
  rw [Option.some.inj (hb.symm.trans (binaryValue_date rfl))] at hv
  obtain ⟨y, m, d, hday, -⟩ := hv.dateText
  obtain ⟨hf, hday⟩ := dayText_iff.mp hday
  have hfields : dateFields (ascii "2023-02-30") = some (2023, 2, 30) := by decide +kernel
  cases hf.symm.trans hfields
  exact absurd hday (by decide)

end BoltApi.PgWire.BinaryResult

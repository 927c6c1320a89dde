import BoltApi.Octets

/-! # Numbers as the C library reads them

`strtoll` and the functions that are defined by it. All of them skip blanks, and
line ends are blanks to them. -/
namespace BoltApi.CNumbers
open Octets List

def MINUS : UInt8 := 0x2D
def PLUS : UInt8 := 0x2B

def isCSpace (c : UInt8) : Bool := c = 0x20 ∨ (0x09 ≤ c ∧ c ≤ 0x0D)

def takeSign (s : Bytes) : Bool × Bytes :=
  match s with
  | c :: r => if c = MINUS then (true, r) else if c = PLUS then (false, r) else (false, s)
  | [] => (false, s)

/-- `strtoll` of the C library in base 10: the value, held to the range of a
`long long`, and the text behind it, which is all of it when there is no number. -/
def strtoll (s : Bytes) : Int × Bytes :=
  let (neg, t) := takeSign (s.dropWhile isCSpace)
  let ds := t.takeWhile isDigit
  if ds = [] then (0, s)
  else (max (-(2 ^ 63)) (min (2 ^ 63 - 1) (if neg then -decimal ds else decimal ds)), t.dropWhile isDigit)

def atoll (s : Bytes) : Int := (strtoll s).1

def atoi (s : Bytes) : Int := (atoll s + 2 ^ 31) % 2 ^ 32 - 2 ^ 31

theorem isCSpace_of_isDigit {c} (h : isDigit c) : isCSpace c = false := by
  have hall : ∀ n < 256, isDigit (UInt8.ofNat n) → isCSpace (UInt8.ofNat n) = false := by
    decide +kernel
  have := hall c.toNat c.toNat_lt
  rw [UInt8.ofNat_toNat] at this
  exact this h

theorem takeSign_of_isDigit {c s} (h : isDigit c) : takeSign (c :: s) = (false, c :: s) := by
  have hminus : c ≠ MINUS := fun he => absurd (he ▸ h) (by decide)
  have hplus : c ≠ PLUS := fun he => absurd (he ▸ h) (by decide)
  simp [takeSign, hminus, hplus]

theorem strtoll_digits {blank ds} (rest : Bytes) (hblank : ∀ c ∈ blank, isCSpace c)
    (hne : ds ≠ []) (hds : ∀ c ∈ ds, isDigit c)
    (hrest : ∀ c, rest.head? = some c → isDigit c = false) :
    strtoll (blank ++ (ds ++ rest)) = (min (2 ^ 63 - 1) (decimal ds : Int), rest) := by
  have htake : (ds ++ rest).takeWhile isDigit = ds := by
    rw [takeWhile_append_of_pos hds]
    cases rest with
    | nil => simp
    | cons c rest => simp [hrest c rfl]
  have hdrop : (ds ++ rest).dropWhile isDigit = rest := by
    rw [dropWhile_append_of_pos hds]
    cases rest with
    | nil => rfl
    | cons c rest => simp [hrest c rfl]
  obtain ⟨d, t, rfl⟩ := exists_cons_of_ne_nil hne
  have hd := hds d mem_cons_self
  have hskip : (blank ++ (d :: t ++ rest)).dropWhile isCSpace = d :: t ++ rest := by
    rw [dropWhile_append_of_pos hblank, cons_append,
      dropWhile_cons_of_neg (by rw [isCSpace_of_isDigit hd]; decide)]
  simp only [strtoll]
  rw [hskip, cons_append, takeSign_of_isDigit hd, ← cons_append, htake, hdrop, if_neg hne]
  simp only [Bool.false_eq_true, if_false, Prod.mk.injEq, and_true]
  omega

end BoltApi.CNumbers

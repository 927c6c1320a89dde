import Mathlib.Tactic.IntervalCases

/-! # The Gregorian calendar

Days are counted year by year and month by month from the first of January of
the year 0 (the calendar is extended backwards). -/
namespace BoltApi.Lib.Calendar

def leap (y : Nat) : Bool := y % 4 = 0 ∧ (y % 100 ≠ 0 ∨ y % 400 = 0)

def monthDays (y m : Nat) : Nat :=
  match m with
  | 2 => if leap y then 29 else 28
  | 4 => 30
  | 6 => 30
  | 9 => 30
  | 11 => 30
  | _ => 31

def yearStart : Nat → Nat
  | 0 => 0
  | y + 1 => yearStart y + if leap y then 366 else 365

def monthStart (y : Nat) : Nat → Nat
  | 0 => 0
  | 1 => 0
  | m + 1 => monthStart y m + monthDays y m

def dayNumber (y m d : Nat) : Nat := yearStart y + monthStart y m + (d - 1)

/-- The calendar has the day; the first year is the year 1. -/
def IsDay (y m d : Nat) : Prop := 1 ≤ y ∧ 1 ≤ m ∧ m ≤ 12 ∧ 1 ≤ d ∧ d ≤ monthDays y m

instance (y m d : Nat) : Decidable (IsDay y m d) := inferInstanceAs (Decidable (_ ∧ _))

theorem leap_iff {y} : leap y ↔ y % 4 = 0 ∧ (y % 100 ≠ 0 ∨ y % 400 = 0) := by
  simp [leap]

theorem yearStart_eq (y : Nat) :
    yearStart y + (y + 99) / 100 = 365 * y + (y + 3) / 4 + (y + 399) / 400 := by
  induction y with
  | zero => rfl
  | succ y ih =>
    -- each quotient steps when the year that ends is a multiple
    have h4 : (y + 1 + 3) / 4 = (y + 3) / 4 + if y % 4 = 0 then 1 else 0 := by split <;> omega
    have h100 : (y + 1 + 99) / 100 = (y + 99) / 100 + if y % 100 = 0 then 1 else 0 := by
      split <;> omega
    have h400 : (y + 1 + 399) / 400 = (y + 399) / 400 + if y % 400 = 0 then 1 else 0 := by
      split <;> omega
    have hdvd : (y % 400 = 0 → y % 100 = 0) ∧ (y % 100 = 0 → y % 4 = 0) := by omega
    have hleap : (if leap y then 1 else 0) + (if y % 100 = 0 then 1 else 0) =
        (if y % 4 = 0 then 1 else 0) + if y % 400 = 0 then 1 else 0 := by
      simp only [leap_iff]
      by_cases h400 : y % 400 = 0
      · simp [h400, hdvd.1 h400, hdvd.2 (hdvd.1 h400)]
      · by_cases h100 : y % 100 = 0
        · simp [h400, h100, hdvd.2 h100]
        · simp [h400, h100]
    have hday : (if leap y then 366 else 365) = 365 + if leap y then 1 else 0 := by split <;> rfl
    rw [yearStart, h4, h100, h400, hday]
    clear h4 h100 h400 hdvd hday
    generalize (y + 3) / 4 = q4, (y + 99) / 100 = q100, (y + 399) / 400 = q400 at *
    omega

theorem yearStart_succ (k : Nat) :
    yearStart (k + 1) = k / 400 * 146097 + (k % 400 * 365 + k % 400 / 4 - k % 400 / 100) + 366 := by
  have hyear := yearStart_eq (k + 1)
  have h4 : (k + 1 + 3) / 4 = 100 * (k / 400) + k % 400 / 4 + 1 := by omega
  have h100 : (k + 1 + 99) / 100 = 4 * (k / 400) + k % 400 / 100 + 1 := by omega
  have h400 : (k + 1 + 399) / 400 = k / 400 + 1 := by omega
  rw [h4, h100, h400] at hyear
  omega

theorem monthStart_eq {y m} (hm : 3 ≤ m) (hm' : m ≤ 12) :
    monthStart y m = (153 * (m - 3) + 2) / 5 + 59 + if leap y then 1 else 0 := by
  obtain ⟨k, rfl⟩ := Nat.exists_eq_add_of_le hm
  have hk : k < 10 := by omega
  interval_cases k <;> simp only [monthStart, monthDays] <;> split <;> rfl

end BoltApi.Lib.Calendar

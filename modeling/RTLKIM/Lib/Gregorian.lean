import Mathlib.Data.Fin.Basic
import Mathlib.Tactic.SplitIfs

/-!
# The Gregorian calendar

Days are counted from the first day of year 0; the day of the week is the count modulo 7.
-/

namespace RTLKIM.Gregorian

def Leap (y : ℕ) : Prop := y % 4 = 0 ∧ (y % 100 ≠ 0 ∨ y % 400 = 0)

instance (y : ℕ) : Decidable (Leap y) := inferInstanceAs (Decidable (_ ∧ _))

def yearLength (y : ℕ) : ℕ := if Leap y then 366 else 365

/-- January is 1. -/
def monthLength (y m : ℕ) : ℕ :=
  match m with
  | 2 => if Leap y then 29 else 28
  | 4 | 6 | 9 | 11 => 30
  | 1 | 3 | 5 | 7 | 8 | 10 | 12 => 31
  | _ => 0

def daysBeforeYear : ℕ → ℕ
  | 0 => 0
  | y + 1 => daysBeforeYear y + yearLength y

def daysBeforeMonth (y : ℕ) : ℕ → ℕ
  | 0 => 0
  | m + 1 => daysBeforeMonth y m + monthLength y m

/-- Day 0 is a Friday. -/
def weekday (y m d : ℕ) : Fin 7 :=
  ⟨(daysBeforeYear y + daysBeforeMonth y m + d) % 7, Nat.mod_lt _ (by decide)⟩

/-- A quotient that is rounded up, one year later. -/
theorem ceil_succ (y n : ℕ) :
    (y + 1 + n) / (n + 1) = (y + n) / (n + 1) + if y % (n + 1) = 0 then 1 else 0 := by
  have hdvd : n + 1 ∣ y + n + 1 ↔ y % (n + 1) = 0 := by
    rw [Nat.add_assoc, Nat.dvd_add_self_right, Nat.dvd_iff_mod_eq_zero]
  rw [Nat.add_right_comm, Nat.succ_div]
  simp only [hdvd]

theorem yearLength_eq (y : ℕ) : yearLength y + (if y % 100 = 0 then 1 else 0)
    = 365 + (if y % 4 = 0 then 1 else 0) + if y % 400 = 0 then 1 else 0 := by
  have hcentury : y % 100 = 0 → y % 4 = 0 := by omega
  have hcycle : y % 400 = 0 → y % 100 = 0 := by omega
  unfold yearLength Leap
  by_cases h4 : y % 4 = 0
  · by_cases h100 : y % 100 = 0
    · by_cases h400 : y % 400 = 0 <;> simp [h4, h100, h400]
    · simp [h4, h100, mt hcycle h100]
  · simp [h4, mt hcentury h4, mt (hcentury ∘ hcycle) h4]

theorem daysBeforeYear_eq : ∀ y, daysBeforeYear y + (y + 99) / 100
    = 365 * y + (y + 3) / 4 + (y + 399) / 400
  | 0 => rfl
  | y + 1 => by
    have ih := daysBeforeYear_eq y
    have hlength := yearLength_eq y
    calc daysBeforeYear (y + 1) + (y + 1 + 99) / 100
      _ = daysBeforeYear y + yearLength y + ((y + 99) / 100 + if y % 100 = 0 then 1 else 0) := by
        rw [daysBeforeYear, ceil_succ y 99]
      _ = daysBeforeYear y + (y + 99) / 100 + (yearLength y + if y % 100 = 0 then 1 else 0) :=
        Nat.add_add_add_comm _ _ _ _
      _ = 365 * y + (y + 3) / 4 + (y + 399) / 400
          + (365 + (if y % 4 = 0 then 1 else 0) + if y % 400 = 0 then 1 else 0) := by rw [ih, hlength]
      _ = 365 * y + 365 + ((y + 3) / 4 + if y % 4 = 0 then 1 else 0)
          + ((y + 399) / 400 + if y % 400 = 0 then 1 else 0) :=
        (Nat.add_add_add_comm _ _ _ _).trans (congrArg (· + _) (Nat.add_add_add_comm _ _ _ _))
      _ = 365 * (y + 1) + (y + 1 + 3) / 4 + (y + 1 + 399) / 400 := by
        rw [ceil_succ y 3, ceil_succ y 399, Nat.mul_succ]

theorem monthLength_le (y m : ℕ) : monthLength y m ≤ 31 := by
  unfold monthLength
  split
  · split_ifs <;> omega
  all_goals omega

end RTLKIM.Gregorian

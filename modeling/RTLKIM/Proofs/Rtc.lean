import Mathlib.Tactic.IntervalCases
import RTLKIM.Rtc

/-!
# When the time is right

The numbers of a clock are decoded in every format, but for the hour 12 on a clock of 12 hours, and the
year is taken as one from 2000 on. The code for the day of the week is the day with the shift of its
month, which is not the same for all months.
-/

namespace RTLKIM

namespace Rtc

open Gregorian

theorem fromBcd_encode : ∀ v < 100, fromBcd (v / 10 * 16 + v % 10) = v := by decide

theorem toNat_encode (regB : UInt8) {v : ℕ} (hv : v < 100) :
    (UInt8.ofNat (encode regB v)).toNat = encode regB v := by
  refine UInt8.toNat_ofNat_of_lt' (show encode regB v < 256 from ?_)
  unfold encode
  split_ifs <;> omega

/-- A number is decoded in both formats. -/
theorem decode_encode (regB : UInt8) {v : ℕ} (hv : v < 100) :
    (if regB &&& 0x04 = 0 then fromBcd (UInt8.ofNat (encode regB v)).toNat
      else (UInt8.ofNat (encode regB v)).toNat) = v := by
  rw [toNat_encode regB hv]
  unfold encode
  by_cases hb : Binary regB
  · rw [if_neg hb, if_pos hb]
  · rw [if_pos (not_not.1 hb), if_neg hb]
    exact fromBcd_encode v hv

/-- An hour as it is decoded: with 12 hours, 12 is not seen to be noon or midnight. -/
def decodedHour (regB : UInt8) (hour : ℕ) : ℕ :=
  if ¬ Hours24 regB ∧ hour % 12 = 0 then 12 - hour else hour

theorem decodedHour_eq_iff (regB : UInt8) {hour : ℕ} (h : hour < 24) :
    decodedHour regB hour = hour ↔ Hours24 regB ∨ hour % 12 ≠ 0 := by
  unfold decodedHour
  split_ifs with h12
  · refine iff_of_false (by omega) ?_
    rintro (h24 | hne)
    · exact h12.1 h24
    · exact hne h12.2
  · exact iff_of_true rfl (by tauto)

/-- The two conversions of the hours. -/
def decodeHours (regB : UInt8) (hours : ℕ) : ℕ :=
  let hours := if regB &&& 0x04 = 0 then hoursFromBcd hours else hours
  if regB &&& 0x02 = 0 ∧ hours &&& 0x80 ≥ 1 then ((hours &&& 0x7F) + 12) % 24 else hours

theorem decodeHours_encodeHour (regB : UInt8) {hour : ℕ} (h : hour < 24) :
    decodeHours regB (UInt8.ofNat (encodeHour regB hour)).toNat = decodedHour regB hour := by
  unfold decodeHours encodeHour decodedHour encode
  by_cases hb : Binary regB <;> by_cases h24 : Hours24 regB
  · have hb' : ¬ (regB &&& 0x04 = 0) := hb
    have h24' : ¬ (regB &&& 0x02 = 0) := h24
    simp only [hb, h24, hb', h24', if_true, if_false, not_true_eq_false, false_and]
    decide +revert
  · have hb' : ¬ (regB &&& 0x04 = 0) := hb
    have h24' : regB &&& 0x02 = 0 := not_not.1 h24
    simp only [hb, h24, hb', h24', if_true, if_false, not_false_eq_true, true_and]
    decide +revert
  · have hb' : regB &&& 0x04 = 0 := not_not.1 hb
    have h24' : ¬ (regB &&& 0x02 = 0) := h24
    simp only [hb, h24, hb', h24', if_true, if_false, not_true_eq_false, false_and]
    decide +revert
  · have hb' : regB &&& 0x04 = 0 := not_not.1 hb
    have h24' : regB &&& 0x02 = 0 := not_not.1 h24
    simp only [hb, h24, hb', h24', if_true, if_false, not_false_eq_true, true_and]
    decide +revert

/-- What the time of a clock is taken to be. -/
theorem rtcUpdateTime_registers (t : Setting) (regB : UInt8) (others : ℕ → UInt8) :
    rtcUpdateTime (registers t regB others) =
      { weekday := (t.day + t.month + (t.year + 2000) + (t.year + 2000) / 4 + 1) % 7 + 1
        day := t.day
        month := t.month
        year := t.year + 2000
        dayTime := t.second + 60 * t.minute + 3600 * decodedHour regB t.hour } := by
  have hday : t.day < 100 := by
    have := t.day_le.trans (monthLength_le _ _)
    omega
  have hsecond := decode_encode regB (v := t.second) (by have := t.second_lt; omega)
  have hminute := decode_encode regB (v := t.minute) (by have := t.minute_lt; omega)
  have hmonth := decode_encode regB (v := t.month) (by have := t.month_le; omega)
  have hyear := decode_encode regB t.year_lt
  have hhour := decodeHours_encodeHour regB t.hour_lt
  unfold decodeHours at hhour
  unfold rtcUpdateTime
  simp only [registers] at hhour ⊢
  rw [hsecond, hminute, decode_encode regB hday, hmonth, hyear, hhour]
  rfl

/-! ## The day of the week -/

/-- The shift makes up for the months before. -/
theorem monthShift_eq (y : ℕ) {m : ℕ} (h0 : 0 < m) (h : m ≤ 12) :
    (daysBeforeMonth y m + monthShift y m + if Leap y then 0 else 1) % 7 = (m + 2) % 7 := by
  by_cases hy : Leap y
  · interval_cases m <;> simp [daysBeforeMonth, monthLength, monthShift, hy]
  · interval_cases m <;> simp [daysBeforeMonth, monthLength, monthShift, hy]

/-- The years from 2000 on, up to 2099. -/
theorem daysBeforeYear_2000 {r : ℕ} (h : r < 100) :
    daysBeforeYear (2000 + r) = 730485 + 365 * r + (r + 3) / 4 := by
  have heq := daysBeforeYear_eq (2000 + r)
  omega

theorem leap_2000 {r : ℕ} (h : r < 100) : Leap (2000 + r) ↔ r % 4 = 0 := by
  unfold Leap
  omega

/-- The code of a date is its day of the week with the shift of the month. -/
theorem weekday_sum {r m : ℕ} (hr : r < 100) (h0 : 0 < m) (hm : m ≤ 12) (d : ℕ) :
    (d + m + (r + 2000) + (r + 2000) / 4 + 1) % 7
      = ((weekday (2000 + r) m d : ℕ) + monthShift (2000 + r) m) % 7 := by
  have hshift := monthShift_eq (2000 + r) h0 hm
  have hyear := daysBeforeYear_2000 hr
  have hleap := leap_2000 hr
  have hquarter : (r + 2000) / 4 = r / 4 + 500 := by omega
  unfold weekday
  simp only []
  rw [Nat.mod_add_mod, hyear, hquarter]
  by_cases hy : Leap (2000 + r)
  · rw [if_pos hy] at hshift
    rw [iff_true_left hy] at hleap
    have hround : (r + 3) / 4 = r / 4 := by omega
    rw [hround]
    omega
  · rw [if_neg hy] at hshift
    rw [iff_false_left hy] at hleap
    have hround : (r + 3) / 4 = r / 4 + 1 := by omega
    rw [hround]
    omega

/-- The time is right exactly when the hour is not 12 on a clock of 12 hours, the century is that of 2000,
and the code of the day of the week is the day with the shift of the month. -/
theorem right_iff (code : Fin 7 → ℕ) (t : Setting) (regB : UInt8) (others : ℕ → UInt8) :
    Right code t (rtcUpdateTime (registers t regB others)) ↔
      (Hours24 regB ∨ t.hour % 12 ≠ 0) ∧ t.century = 20
        ∧ code t.weekday = (t.weekday + monthShift t.fullYear t.month) % 7 + 1 := by
  have hdecoded := decodedHour_eq_iff regB t.hour_lt
  rw [rtcUpdateTime_registers]
  constructor
  · intro h
    have hhour := h.dayTime
    have hyear := h.year
    have hcode := h.weekday
    unfold Setting.fullYear at hyear
    simp only [] at hhour hyear hcode
    have hyear_lt := t.year_lt
    have hcentury : t.century = 20 := by omega
    refine ⟨hdecoded.1 (by omega), hcentury, ?_⟩
    rw [← hcode, weekday_sum t.year_lt t.month_pos t.month_le]
    unfold Setting.weekday Setting.fullYear
    rw [hcentury]
  · rintro ⟨hhour, hcentury, hcode⟩
    have hfull : t.fullYear = 2000 + t.year := by
      unfold Setting.fullYear
      rw [hcentury]
    refine ⟨?_, rfl, rfl, ?_, ?_⟩
    · rw [hdecoded.2 hhour]
    · rw [hfull]
      exact Nat.add_comm _ _
    · rw [hcode]
      unfold Setting.weekday
      rw [hfull]
      exact congrArg (· + 1) (weekday_sum t.year_lt t.month_pos t.month_le t.day)

/-- A Monday in January and one in March of 2021, on a clock of 24 hours in binary. -/
theorem not_alwaysRight : ¬ AlwaysRight := by
  rintro ⟨code, -, h⟩
  let t (month day : ℕ) (hm : 0 < month ∧ month ≤ 12) (hd : 0 < day)
      (hd' : day ≤ monthLength 2021 month) : Setting :=
    ⟨0, 0, 0, day, month, 21, 20, by decide, by decide, by decide, hm.1, hm.2, by decide, by decide,
      hd, hd'⟩
  have hjanuary := (h (t 1 4 (by decide) (by decide) (by decide)) 0x06 fun _ => 0).weekday
  have hmarch := (h (t 3 1 (by decide) (by decide) (by decide)) 0x06 fun _ => 0).weekday
  have hsame : (t 1 4 (by decide) (by decide) (by decide)).weekday
      = (t 3 1 (by decide) (by decide) (by decide)).weekday := by decide +kernel
  rw [hsame, ← hmarch] at hjanuary
  exact absurd hjanuary (by decide +kernel)

end Rtc

end RTLKIM

import RTLKIM.Lib.Gregorian

/-!
# The real time clock

`rtc_update_time`, which reads the registers of the CMOS. `CMOS_CENTURY_REGISTER` is 0, so no register
has the century. The clear of register C at the end is left out.
-/

namespace RTLKIM

namespace Rtc

abbrev cmosSecondsRegister : ℕ := 0x00
abbrev cmosMinutesRegister : ℕ := 0x02
abbrev cmosHoursRegister : ℕ := 0x04
abbrev cmosDayRegister : ℕ := 0x07
abbrev cmosMonthRegister : ℕ := 0x08
abbrev cmosYearRegister : ℕ := 0x09
abbrev cmosCenturyRegister : ℕ := 0x00
abbrev cmosRegB : ℕ := 0x0B

abbrev currentYear : ℕ := 2020

/-- `date` and `day_time`. -/
structure Time where
  weekday : ℕ
  day : ℕ
  month : ℕ
  year : ℕ
  dayTime : ℕ
  deriving DecidableEq

def fromBcd (v : ℕ) : ℕ := (v &&& 0x0F) + v / 16 * 10

/-- The bit for PM stays. -/
def hoursFromBcd (v : ℕ) : ℕ := (v &&& 0x0F) + (v &&& 0x70) / 16 * 10 ||| v &&& 0x80

/-- The sums of two digits and of a date fit in their types. -/
def rtcUpdateTime (cmos : ℕ → UInt8) : Time :=
  let seconds := (cmos cmosSecondsRegister).toNat
  let minutes := (cmos cmosMinutesRegister).toNat
  let hours := (cmos cmosHoursRegister).toNat
  let day := (cmos cmosDayRegister).toNat
  let month := (cmos cmosMonthRegister).toNat
  let year := (cmos cmosYearRegister).toNat
  let century := if cmosCenturyRegister ≠ 0 then (cmos cmosCenturyRegister).toNat
    else currentYear / 100
  let regB := cmos cmosRegB
  let bcd := regB &&& 0x04 = 0
  let seconds := if bcd then fromBcd seconds else seconds
  let minutes := if bcd then fromBcd minutes else minutes
  let hours := if bcd then hoursFromBcd hours else hours
  let day := if bcd then fromBcd day else day
  let month := if bcd then fromBcd month else month
  let year := if bcd then fromBcd year else year
  let century := if bcd ∧ cmosCenturyRegister ≠ 0 then fromBcd century else century
  let hours := if regB &&& 0x02 = 0 ∧ hours &&& 0x80 ≥ 1 then ((hours &&& 0x7F) + 12) % 24 else hours
  let year := if cmosCenturyRegister ≠ 0 then year + century * 100 else year + 2000
  { weekday := (day + month + year + year / 4 + 1) % 7 + 1
    day := day
    month := month
    year := year
    dayTime := seconds + 60 * minutes + 3600 * hours }

/-! ## A clock that is set -/

/-- What a clock is set to. The year has two digits. -/
structure Setting where
  second : ℕ
  minute : ℕ
  hour : ℕ
  day : ℕ
  month : ℕ
  year : ℕ
  century : ℕ
  second_lt : second < 60
  minute_lt : minute < 60
  hour_lt : hour < 24
  month_pos : 0 < month
  month_le : month ≤ 12
  year_lt : year < 100
  century_lt : century < 100
  day_pos : 0 < day
  day_le : day ≤ Gregorian.monthLength (100 * century + year) month

namespace Setting

def fullYear (t : Setting) : ℕ := 100 * t.century + t.year

def weekday (t : Setting) : Fin 7 := Gregorian.weekday t.fullYear t.month t.day

end Setting

/-- Register B says that numbers are binary. -/
def Binary (regB : UInt8) : Prop := regB &&& 0x04 ≠ 0

/-- Register B says that hours are from 0 to 23. -/
def Hours24 (regB : UInt8) : Prop := regB &&& 0x02 ≠ 0

instance (regB : UInt8) : Decidable (Binary regB) := inferInstanceAs (Decidable (_ ≠ _))

instance (regB : UInt8) : Decidable (Hours24 regB) := inferInstanceAs (Decidable (_ ≠ _))

/-- A number in a register. -/
def encode (regB : UInt8) (v : ℕ) : ℕ := if Binary regB then v else v / 10 * 16 + v % 10

/-- In a format of 12 hours they are from 1 to 12, and bit 7 is for PM. -/
def encodeHour (regB : UInt8) (hour : ℕ) : ℕ :=
  if Hours24 regB then encode regB hour
  else encode regB (if hour % 12 = 0 then 12 else hour % 12) + if 12 ≤ hour then 0x80 else 0

/-- The registers of a clock. The century is in none of those that are read, and the others have
anything. -/
def registers (t : Setting) (regB : UInt8) (others : ℕ → UInt8) (i : ℕ) : UInt8 :=
  match i with
  | 0x00 => UInt8.ofNat (encode regB t.second)
  | 0x02 => UInt8.ofNat (encode regB t.minute)
  | 0x04 => UInt8.ofNat (encodeHour regB t.hour)
  | 0x07 => UInt8.ofNat (encode regB t.day)
  | 0x08 => UInt8.ofNat (encode regB t.month)
  | 0x09 => UInt8.ofNat (encode regB t.year)
  | 0x0B => regB
  | _ => others i

/-- The time is that of the clock, with `code` for the day of the week. -/
structure Right (code : Fin 7 → ℕ) (t : Setting) (time : Time) : Prop where
  dayTime : time.dayTime = t.second + 60 * t.minute + 3600 * t.hour
  day : time.day = t.day
  month : time.month = t.month
  year : time.year = t.fullYear
  weekday : time.weekday = code t.weekday

/-- With some code for the days of the week, the time is always right. -/
def AlwaysRight : Prop :=
  ∃ code : Fin 7 → ℕ, Function.Injective code ∧ ∀ t regB others,
    Right code t (rtcUpdateTime (registers t regB others))

/-- How far the sum of day, month and year is from the day of the week, in a month. -/
def monthShift (year month : ℕ) : ℕ :=
  match month with
  | 1 => if Gregorian.Leap year then 3 else 2
  | 2 => if Gregorian.Leap year then 1 else 0
  | 3 => 1
  | 4 => 6
  | 5 => 5
  | 6 => 3
  | 7 => 2
  | 8 => 0
  | 9 => 5
  | 10 => 4
  | 11 => 2
  | 12 => 1
  | _ => 0

end Rtc

end RTLKIM

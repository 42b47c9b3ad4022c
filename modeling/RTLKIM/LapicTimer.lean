import Mathlib.Data.Int.Notation
import Mathlib.Data.List.Basic

/-!
# The frequency of the local APIC timer

`lapic_timer_init` from the measure on, `lapic_timer_set_frequency`, `lapic_timer_get_frequency`, and
`time_get_current_uptime` with this timer as the main one. A function is `none` when it divides by zero.
-/

namespace RTLKIM

abbrev lapicInitFreq : UInt32 := 100

inductive TimerErr
  | noErr
  | notSupported
  deriving DecidableEq

/-- The data of the timer, the register of its count, and the data of the time manager. `mainTimer` is
whether `sys_main_timer` is set. -/
structure LapicTimer where
  apicAvailable : Bool
  initLapicTimerFrequency : UInt32
  globalLapicFreq : UInt32
  ticr : UInt32
  mainTimer : Bool
  sysTickCount : ℕ → UInt64

/-- A division of `uint32_t`. -/
def divide (a b : UInt32) : Option UInt32 := if b = 0 then none else some (a / b)

namespace LapicTimer

/-- `tccr` is what is left of the count after 10 ms. -/
def lapicTimerInit (s : LapicTimer) (tccr : UInt32) : Option (LapicTimer × TimerErr) :=
  if s.apicAvailable = false then some (s, .notSupported)
  else
    let lapicTimerTick10ms := 0xFFFFFFFF - tccr
    let frequency := 100 * lapicTimerTick10ms
    (divide frequency lapicInitFreq).map fun count =>
      ({ s with initLapicTimerFrequency := frequency, globalLapicFreq := count, ticr := count }, .noErr)

def lapicTimerGetFrequency (s : LapicTimer) : Option UInt32 :=
  divide s.initLapicTimerFrequency s.globalLapicFreq

def lapicTimerSetFrequency (s : LapicTimer) (frequency : UInt32) : Option (LapicTimer × TimerErr) :=
  if s.apicAvailable = false then some (s, .notSupported)
  else
    (divide s.initLapicTimerFrequency frequency).map fun count =>
      ({ s with globalLapicFreq := count, ticr := count }, .noErr)

/-- `cpuId` is what `cpu_get_id` returns. -/
def timeGetCurrentUptime (s : LapicTimer) (cpuId : ℤ) : Option UInt64 :=
  let cpuId := if cpuId = -1 then 0 else cpuId
  if s.mainTimer = false then some 0
  else
    s.lapicTimerGetFrequency.bind fun frequency =>
      (divide 1000 frequency).map fun timeSlice =>
        timeSlice.toUInt64 * s.sysTickCount cpuId.toNat

/-! ## Runs -/

inductive Call
  | setFrequency (frequency : UInt32)
  | getFrequency
  | getCurrentUptime (cpuId : ℤ)

/-- The data after a call, with what a change of the frequency returned. -/
def call (s : LapicTimer) : Call → Option (LapicTimer × TimerErr)
  | .setFrequency frequency => s.lapicTimerSetFrequency frequency
  | .getFrequency => s.lapicTimerGetFrequency.map fun _ => (s, .noErr)
  | .getCurrentUptime cpuId => (s.timeGetCurrentUptime cpuId).map fun _ => (s, .noErr)

/-- A period of the frequency is at least one tick. -/
def Represents (s : LapicTimer) (frequency : UInt32) : Prop :=
  0 < frequency ∧ frequency ≤ s.initLapicTimerFrequency

/-- No call divides by zero, and a frequency that the timer cannot represent is refused with nothing
changed. -/
def RunRight (s : LapicTimer) : List Call → Prop
  | [] => True
  | c :: cs => ∃ s' err, s.call c = some (s', err)
    ∧ (∀ f, c = .setFrequency f → ¬ s.Represents f → err ≠ .noErr ∧ s' = s) ∧ RunRight s' cs

/-- The call divides by the count of the timer. -/
def Divides (s : LapicTimer) : Call → Prop
  | .setFrequency _ => False
  | .getFrequency => True
  | .getCurrentUptime _ => s.mainTimer = true

/-- Every frequency that is set is represented, and the count is 0 when no call divides by it. -/
def RunFits (s : LapicTimer) (calls : List Call) : Prop :=
  (∀ f, .setFrequency f ∈ calls → s.Represents f)
    ∧ (s.globalLapicFreq ≠ 0 ∨ ∀ pre c post, calls = pre ++ c :: post → s.Divides c →
      ∃ f, .setFrequency f ∈ pre)

/-- The timer after a measure that left `tccr`. -/
def measured (tccr : UInt32) (mainTimer : Bool) (sysTickCount : ℕ → UInt64) : LapicTimer where
  apicAvailable := true
  initLapicTimerFrequency := 100 * (0xFFFFFFFF - tccr)
  globalLapicFreq := 100 * (0xFFFFFFFF - tccr) / lapicInitFreq
  ticr := 100 * (0xFFFFFFFF - tccr) / lapicInitFreq
  mainTimer := mainTimer
  sysTickCount := sysTickCount

end LapicTimer

end RTLKIM

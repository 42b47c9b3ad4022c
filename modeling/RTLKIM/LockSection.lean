import Mathlib.Data.Int.Notation
import Mathlib.Data.Nat.Notation

/-!
# A critical section as one CPU runs it

`ENTER_CRITICAL` and `EXIT_CRITICAL` of `critical.h` whole, with the interrupt functions of
`interrupts.c` that they call: what the CPU that runs them does to its interrupt flag and to the
lock when no other CPU writes the lock meanwhile. `ENTER_CRITICAL` does not come back on its own
from a lock that another CPU has.
-/

namespace RTLKIM

/-- `spinlock_t`. -/
structure LockFields where
  value : UInt32
  currentTid : ℤ
  nesting : UInt32
  deriving DecidableEq

/-- A CPU and a lock: `cpu_get_id`, `cpu_get_booted_cpu_count`, and whether interrupts are enabled.
-/
structure CritState where
  cpuId : ℤ
  booted : ℕ
  ints : Bool
  lock : LockFields
  deriving DecidableEq

namespace CritState

def kernelInterruptGetState (s : CritState) : Bool := s.ints

def kernelInterruptDisable (s : CritState) : Bool × CritState :=
  let oldState := s.kernelInterruptGetState
  if oldState = false then (false, s) else (oldState, { s with ints := false })

def kernelInterruptRestore (s : CritState) (prevState : Bool) : CritState :=
  if prevState then { s with ints := true } else s

/-- The end of `ENTER_CRITICAL`. -/
def own (s : CritState) : CritState :=
  { s with lock := { s.lock with currentTid := s.cpuId, nesting := s.lock.nesting + 1 } }

/-- `ENTER_CRITICAL`, and the interrupt state it saved. -/
def enterCritical (s : CritState) : Option (Bool × CritState) :=
  let (x, s) := s.kernelInterruptDisable
  if 1 < s.booted then
    if s.cpuId ≠ -1 ∧ s.lock.currentTid ≠ s.cpuId then
      -- `__pause_spinlock`
      if s.lock.value = 0 then some (x, own { s with lock := { s.lock with value := 1 } }) else none
    else some (x, s.own)
  else some (x, s)

/-- `EXIT_CRITICAL`. -/
def exitCritical (s : CritState) (x : Bool) : CritState :=
  let s := if 1 < s.booted then
      let nesting := s.lock.nesting - 1
      { s with lock := ⟨0, if nesting = 0 then -1 else s.lock.currentTid, nesting⟩ }
    else s
  s.kernelInterruptRestore x

/-- A section on another lock. -/
def otherSection (s : CritState) : CritState :=
  let (x, s) := s.kernelInterruptDisable
  s.kernelInterruptRestore x

end CritState

end RTLKIM

import Mathlib.Logic.Function.Basic
import Mathlib.Tactic.SplitIfs

/-!
# The interrupt manager

The table of handlers, which `interrupts.c` and `exceptions.c` share, the driver behind it, and
`kernel_interrupt_handler`. A function pointer is an `Option`, with `none` for `NULL`; `panic` is the
pointer of the kernel's panic. The critical sections make each call one step.
-/

namespace RTLKIM

/-- `MIN_INTERRUPT_LINE`. -/
abbrev minInterruptLine : UInt32 := 0x20

/-- `MAX_INTERRUPT_LINE`. -/
abbrev maxInterruptLine : UInt32 := 255

/-- `MAX_EXCEPTION_LINE`. -/
abbrev maxExceptionLine : UInt32 := 0x1F

/-- `SCHEDULER_SW_INT_LINE`. -/
abbrev schedulerSwIntLine : UInt32 := 0x21

/-- `PANIC_INT_LINE`. -/
abbrev panicIntLine : UInt32 := 0x2A

/-- `DIV_BY_ZERO_LINE`. -/
abbrev divByZeroLine : UInt32 := 0

/-- `CPU_EFLAGS_IF`. -/
abbrev cpuEflagsIf : UInt32 := 0x200

/-- The codes of `OS_RETURN_E` that the interrupt manager and its drivers return. -/
inductive IntErr
  | noErr
  | nullPointer
  | unauthorizedInterruptLine
  | interruptAlreadyRegistered
  | interruptNotRegistered
  | noSuchIrqLine
  deriving DecidableEq

/-- `INTERRUPT_TYPE_E`. -/
inductive InterruptType
  | spurious
  | regular
  deriving DecidableEq

/-- `custom_handler_t`. -/
structure CustomHandler (η : Type*) where
  enabled : Int32
  handler : Option η

/-- `interrupt_driver_t`, on the hardware's state. -/
structure InterruptDriver (χ : Type*) where
  setIrqMask : UInt32 → UInt32 → χ → χ × IntErr
  setIrqEoi : UInt32 → χ → χ × IntErr
  handleSpurious : UInt32 → χ → χ × InterruptType
  getIrqIntLine : UInt32 → Int32

/-- The functions that are in place before a driver is set. -/
def initDriver (χ : Type*) : InterruptDriver χ where
  setIrqMask _ _ c := (c, .noErr)
  setIrqEoi _ c := (c, .noErr)
  handleSpurious _ c := (c, .regular)
  getIrqIntLine _ := 0

/-- The data of the interrupt manager, and the hardware that its driver drives. -/
structure Interrupts (η χ : Type*) where
  handlers : Fin 256 → CustomHandler η
  driver : InterruptDriver χ
  spuriousInterrupt : UInt32
  hw : χ

/-- What an interrupt comes to: it is not looked at, or counted as spurious, or a handler runs. -/
inductive Dispatch (η : Type*)
  | blocked
  | spurious
  | call (handler : η)
  deriving DecidableEq

namespace Interrupts

variable {η χ : Type*}

/-- `kernel_interrupt_init`, on whatever hardware. -/
def kernelInterruptInit (panic : η) (hw : χ) : Interrupts η χ where
  handlers := Function.update (fun _ => ⟨0, none⟩) 0x2A ⟨1, some panic⟩
  driver := initDriver χ
  spuriousInterrupt := 0
  hw := hw

/-- `kernel_interrupt_set_driver` of a driver with no function missing. -/
def kernelInterruptSetDriver (s : Interrupts η χ) (driver : InterruptDriver χ) : Interrupts η χ × IntErr :=
  ({ s with driver := driver }, .noErr)

/-- What the two registrations do past the check of the line. -/
def registerHandler (s : Interrupts η χ) (line : Fin 256) : Option η → Interrupts η χ × IntErr
  | none => (s, .nullPointer)
  | some handler =>
    if (s.handlers line).handler.isSome then (s, .interruptAlreadyRegistered)
    else ({ s with handlers := Function.update s.handlers line ⟨1, some handler⟩ }, .noErr)

/-- What the two removals do past the check of the line. -/
def removeHandler (s : Interrupts η χ) (line : Fin 256) : Interrupts η χ × IntErr :=
  if (s.handlers line).handler.isNone then (s, .interruptNotRegistered)
  else ({ s with handlers := Function.update s.handlers line ⟨0, none⟩ }, .noErr)

theorem interruptLine_lt {line : UInt32} (h : ¬(line < minInterruptLine ∨ maxInterruptLine < line)) :
    line.toNat < 256 := Nat.lt_succ_of_le (UInt32.le_iff_toNat_le.1 (UInt32.not_lt.1 fun hlt => h (.inr hlt)))

theorem exceptionLine_lt {line : UInt32} (h : ¬(line.toInt32 < 0 ∨ maxExceptionLine < line)) :
    line.toNat < 256 :=
  Nat.lt_of_le_of_lt (UInt32.le_iff_toNat_le.1 (UInt32.not_lt.1 fun hlt => h (.inr hlt))) (by decide)

def kernelInterruptRegisterIntHandler (s : Interrupts η χ) (line : UInt32) (handler : Option η) :
    Interrupts η χ × IntErr :=
  if h : line < minInterruptLine ∨ maxInterruptLine < line then (s, .unauthorizedInterruptLine)
  else s.registerHandler ⟨line.toNat, interruptLine_lt h⟩ handler

def kernelInterruptRemoveIntHandler (s : Interrupts η χ) (line : UInt32) : Interrupts η χ × IntErr :=
  if h : line < minInterruptLine ∨ maxInterruptLine < line then (s, .unauthorizedInterruptLine)
  else s.removeHandler ⟨line.toNat, interruptLine_lt h⟩

/-- `exceptions.c`: the line is compared as a signed number first. -/
def kernelExceptionRegisterHandler (s : Interrupts η χ) (line : UInt32) (handler : Option η) :
    Interrupts η χ × IntErr :=
  if h : line.toInt32 < 0 ∨ maxExceptionLine < line then (s, .unauthorizedInterruptLine)
  else s.registerHandler ⟨line.toNat, exceptionLine_lt h⟩ handler

def kernelExceptionRemoveHandler (s : Interrupts η χ) (line : UInt32) : Interrupts η χ × IntErr :=
  if h : line.toInt32 < 0 ∨ maxExceptionLine < line then (s, .unauthorizedInterruptLine)
  else s.removeHandler ⟨line.toNat, exceptionLine_lt h⟩

/-- `kernel_exception_init`. -/
def kernelExceptionInit (s : Interrupts η χ) (divByZeroHandler : η) : Interrupts η χ × IntErr :=
  s.kernelExceptionRegisterHandler divByZeroLine (some divByZeroHandler)

def kernelInterruptRegisterIrqHandler (s : Interrupts η χ) (irqNumber : UInt32) (handler : Option η) :
    Interrupts η χ × IntErr :=
  let intLine := s.driver.getIrqIntLine irqNumber
  if intLine < 0 then (s, .noSuchIrqLine)
  else s.kernelInterruptRegisterIntHandler intLine.toUInt32 handler

def kernelInterruptRemoveIrqHandler (s : Interrupts η χ) (irqNumber : UInt32) : Interrupts η χ × IntErr :=
  let intLine := s.driver.getIrqIntLine irqNumber
  if intLine < 0 then (s, .noSuchIrqLine)
  else s.kernelInterruptRemoveIntHandler intLine.toUInt32

def kernelInterruptSetIrqMask (s : Interrupts η χ) (irqNumber enabled : UInt32) : Interrupts η χ × IntErr :=
  let p := s.driver.setIrqMask irqNumber enabled s.hw
  ({ s with hw := p.1 }, p.2)

def kernelInterruptSetIrqEoi (s : Interrupts η χ) (irqNumber : UInt32) : Interrupts η χ × IntErr :=
  let p := s.driver.setIrqEoi irqNumber s.hw
  ({ s with hw := p.1 }, p.2)

/-- The handler selected for a line; `panic` when there is none. -/
def selectHandler (panic : η) (s : Interrupts η χ) (intId : UInt32) : η :=
  if h : intId.toNat < 256 then
    if (s.handlers ⟨intId.toNat, h⟩).enabled = 1 then (s.handlers ⟨intId.toNat, h⟩).handler.getD panic
    else panic
  else panic

/-- `kernel_interrupt_handler` up to the call of the handler. The panic of `PANIC_INT_LINE` does not
return, so nothing comes after it. -/
def kernelInterruptHandler (panic : η) (s : Interrupts η χ) (eflags intId : UInt32) :
    Interrupts η χ × Dispatch η :=
  if eflags &&& cpuEflagsIf = 0 ∧ intId ≠ panicIntLine ∧ intId ≠ schedulerSwIntLine
      ∧ minInterruptLine ≤ intId then (s, .blocked)
  else if intId = panicIntLine then (s, .call panic)
  else
    let p := s.driver.handleSpurious intId s.hw
    if p.2 = .spurious then
      ({ s with hw := p.1, spuriousInterrupt := s.spuriousInterrupt + 1 }, .spurious)
    else ({ s with hw := p.1 }, .call (s.selectHandler panic intId))

end Interrupts

end RTLKIM

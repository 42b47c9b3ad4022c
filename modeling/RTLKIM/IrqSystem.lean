import RTLKIM.Lib.Run
import RTLKIM.Pic

/-!
# The interrupts of the kernel

The interrupt manager with the controllers as its driver, the calls that threads and handlers make, the
devices, and the processor, which takes an interrupt when it runs no handler, and enters a handler with
interrupts disabled. `depth` counts the handlers that are entered and have not returned, and `serving` is
the line of the controllers that is not acknowledged yet. Nothing happens after a panic.

`IrqSpec` says what all this is for: lines that are enabled or not, each with an owner at most, of which
the first that is raised and enabled is handed to its owner.
-/

namespace RTLKIM

/-- The calls of the interrupt manager. -/
inductive IntCall (η : Type*)
  | registerInt (line : UInt32) (handler : Option η)
  | removeInt (line : UInt32)
  | registerException (line : UInt32) (handler : Option η)
  | removeException (line : UInt32)
  | registerIrq (irqNumber : UInt32) (handler : Option η)
  | removeIrq (irqNumber : UInt32)
  | setIrqMask (irqNumber enabled : UInt32)
  | setIrqEoi (irqNumber : UInt32)

/-- `accept` is the processor's, with the slave's lines that are taken back meanwhile; `interrupt` is an
instruction's or an exception. -/
inductive IrqEv (η : Type*)
  | call (c : IntCall η)
  | raise (n : ℕ)
  | drop (n : ℕ)
  | accept (eflags : UInt32) (gone : BitVec 8)
  | interrupt (eflags line : UInt32)
  | iret

/-- What is seen of a step: a code, or what an interrupt came to. -/
inductive IrqOut (η : Type*)
  | ret (err : IntErr)
  | dispatch (line : ℕ) (d : Dispatch η)
  deriving DecidableEq

structure IrqSystem (η : Type*) where
  int : Interrupts η Pics
  serving : Option ℕ
  depth : ℕ
  halted : Bool
  log : List (IrqOut η)

namespace IntCall

variable {η : Type*}

def run (s : Interrupts η Pics) : IntCall η → Interrupts η Pics × IntErr
  | registerInt line handler => s.kernelInterruptRegisterIntHandler line handler
  | removeInt line => s.kernelInterruptRemoveIntHandler line
  | registerException line handler => s.kernelExceptionRegisterHandler line handler
  | removeException line => s.kernelExceptionRemoveHandler line
  | registerIrq irqNumber handler => s.kernelInterruptRegisterIrqHandler irqNumber handler
  | removeIrq irqNumber => s.kernelInterruptRemoveIrqHandler irqNumber
  | setIrqMask irqNumber enabled => s.kernelInterruptSetIrqMask irqNumber enabled
  | setIrqEoi irqNumber => s.kernelInterruptSetIrqEoi irqNumber

/-- What is not acknowledged after a call. -/
def serving (n : Option ℕ) : IntCall η → Option ℕ
  | setIrqEoi irqNumber => if n = some irqNumber.toNat then none else n
  | _ => n

end IntCall

namespace IrqSystem

variable {η : Type*} [DecidableEq η]

/-- An interrupt comes to `kernel_interrupt_handler`; `irq` is the line that the controllers serve. -/
def enter (panic : η) (s : IrqSystem η) (irq : Option ℕ) (eflags line : UInt32) : IrqSystem η :=
  let p := s.int.kernelInterruptHandler panic eflags line
  let log := .dispatch line.toNat p.2 :: s.log
  match p.2 with
  | .call handler =>
    { int := p.1, serving := irq <|> s.serving, depth := s.depth + 1, halted := decide (handler = panic), log }
  | _ => { s with int := p.1, log }

def step (panic : η) (s : IrqSystem η) : IrqEv η → Option (IrqSystem η)
  | .call c =>
    if s.halted then none
    else
      let p := c.run s.int
      some { s with int := p.1, serving := c.serving s.serving, log := .ret p.2 :: s.log }
  | .raise n => some { s with int := { s.int with hw := s.int.hw.raise n } }
  | .drop n => some { s with int := { s.int with hw := s.int.hw.drop n } }
  | .accept eflags gone =>
    if s.halted ∨ s.depth ≠ 0 ∨ eflags &&& cpuEflagsIf = 0 then none
    else
      let p := s.int.hw.acknowledge gone
      some (enter panic { s with int := { s.int with hw := p.1 } } (some (p.2.toNat - 0x30)) eflags
        (UInt32.ofNat p.2.toNat))
  | .interrupt eflags line => if s.halted then none else some (s.enter panic none eflags line)
  | .iret => if s.halted ∨ s.depth = 0 then none else some { s with depth := s.depth - 1 }

/-- What the rest of the system does: no call names the line of the cascade, a handler acknowledges the
line it serves, once and before it returns, the line 2 of the master is the slave, and no instruction
raises a line of the controllers. -/
def ok (s : IrqSystem η) : IrqEv η → Prop
  | .call (.setIrqMask irqNumber _) => irqNumber ≠ 2
  | .call (.setIrqEoi irqNumber) => s.serving = some irqNumber.toNat
  | .raise n | .drop n => n < 16 ∧ n ≠ 2
  | .interrupt _ line => picMaxIrqLine < line - intPicIrqOffset
  | .iret => s.depth = 1 → s.serving = none
  | _ => True

instance (s : IrqSystem η) : ∀ e, Decidable (s.ok e)
  | .call (.setIrqMask irqNumber _) => inferInstanceAs (Decidable (irqNumber ≠ 2))
  | .call (.setIrqEoi irqNumber) => inferInstanceAs (Decidable (s.serving = some irqNumber.toNat))
  | .raise n | .drop n => inferInstanceAs (Decidable (n < 16 ∧ n ≠ 2))
  | .interrupt _ line => inferInstanceAs (Decidable (picMaxIrqLine < line - intPicIrqOffset))
  | .iret => inferInstanceAs (Decidable (s.depth = 1 → s.serving = none))
  | .call (.registerInt _ _) | .call (.removeInt _) | .call (.registerException _ _)
  | .call (.removeException _) | .call (.registerIrq _ _) | .call (.removeIrq _)
  | .accept _ _ => instDecidableTrue

/-- The kernel after `kernel_interrupt_init`, `kernel_exception_init`, `pic_init` and
`kernel_interrupt_set_driver`, on whatever state of the controllers. -/
def boot (panic divByZeroHandler : η) (p : Pics) : IrqSystem η where
  int :=
    let s := (Interrupts.kernelInterruptInit panic p).kernelExceptionInit divByZeroHandler
    ({ s.1 with hw := s.1.hw.picInit }.kernelInterruptSetDriver picDriver).1
  serving := none
  depth := 0
  halted := false
  log := []

end IrqSystem

/-! ## What it is for -/

structure IrqSpec (η : Type*) where
  owner : ℕ → Option η
  enabled : ℕ → Bool
  raised : ℕ → Bool
  spurious : UInt32
  serving : Option ℕ
  depth : ℕ
  halted : Bool
  log : List (IrqOut η)

namespace IrqSpec

variable {η : Type*} [DecidableEq η]

/-- The slave's lines. -/
def slaveLines : List ℕ := List.range' 8 8

/-- The lines by their priority: the slave's stand where the line 2 would. -/
def picPriority : List ℕ := [0, 1] ++ slaveLines ++ [3, 4, 5, 6, 7]

def register (a : IrqSpec η) (line : ℕ) : Option η → IrqSpec η × IntErr
  | none => (a, .nullPointer)
  | some handler =>
    if (a.owner line).isSome then (a, .interruptAlreadyRegistered)
    else ({ a with owner := Function.update a.owner line (some handler) }, .noErr)

def remove (a : IrqSpec η) (line : ℕ) : IrqSpec η × IntErr :=
  if (a.owner line).isNone then (a, .interruptNotRegistered)
  else ({ a with owner := Function.update a.owner line none }, .noErr)

def run (a : IrqSpec η) : IntCall η → IrqSpec η × IntErr
  | .registerInt line handler =>
    if 0x20 ≤ line.toNat ∧ line.toNat < 256 then a.register line.toNat handler
    else (a, .unauthorizedInterruptLine)
  | .removeInt line =>
    if 0x20 ≤ line.toNat ∧ line.toNat < 256 then a.remove line.toNat else (a, .unauthorizedInterruptLine)
  | .registerException line handler =>
    if line.toNat < 0x20 then a.register line.toNat handler else (a, .unauthorizedInterruptLine)
  | .removeException line =>
    if line.toNat < 0x20 then a.remove line.toNat else (a, .unauthorizedInterruptLine)
  | .registerIrq irqNumber handler =>
    if irqNumber.toNat < 16 then a.register (0x30 + irqNumber.toNat) handler else (a, .noSuchIrqLine)
  | .removeIrq irqNumber =>
    if irqNumber.toNat < 16 then a.remove (0x30 + irqNumber.toNat) else (a, .noSuchIrqLine)
  | .setIrqMask irqNumber enabled =>
    if irqNumber.toNat < 16 then
      ({ a with enabled := Function.update a.enabled irqNumber.toNat (decide (enabled ≠ 0)) }, .noErr)
    else (a, .noSuchIrqLine)
  | .setIrqEoi irqNumber =>
    if irqNumber.toNat < 16 then ({ a with serving := none }, .noErr) else (a, .noSuchIrqLine)

/-- The owner of a line is called, or the kernel panics; one line is for the panic alone. -/
def handOver (panic : η) (a : IrqSpec η) (irq : Option ℕ) (line : ℕ) : IrqSpec η :=
  let handler := if line = 0x2A then panic else (a.owner line).getD panic
  { a with serving := irq <|> a.serving, depth := a.depth + 1, halted := decide (handler = panic),
           log := .dispatch line (.call handler) :: a.log }

def serve (panic : η) (a : IrqSpec η) (n : ℕ) : IrqSpec η :=
  handOver panic { a with raised := Function.update a.raised n false } (some n) (0x30 + n)

def countSpurious (a : IrqSpec η) (line : ℕ) : IrqSpec η :=
  { a with spurious := a.spurious + 1, log := .dispatch line .spurious :: a.log }

/-- The first line that is raised and enabled is handed to its owner. -/
def accept (panic : η) (a : IrqSpec η) (gone : BitVec 8) : IrqSpec η :=
  match picPriority.find? fun n => a.raised n && a.enabled n with
  | none => a.countSpurious 0x37
  | some n =>
    if n < 8 then a.serve panic n
    else
      let a := { a with raised := fun n => a.raised n && (n < 8 || !gone.getLsbD (n - 8)) }
      match slaveLines.find? fun n => a.raised n && a.enabled n with
      | none => a.countSpurious 0x3F
      | some n => a.serve panic n

def step (panic : η) (a : IrqSpec η) : IrqEv η → Option (IrqSpec η)
  | .call c =>
    if a.halted then none
    else
      let p := a.run c
      some { p.1 with log := .ret p.2 :: a.log }
  | .raise n => some { a with raised := Function.update a.raised n true }
  | .drop n => some { a with raised := Function.update a.raised n false }
  | .accept eflags gone =>
    if a.halted ∨ a.depth ≠ 0 ∨ eflags &&& cpuEflagsIf = 0 then none else some (a.accept panic gone)
  | .interrupt eflags line =>
    if a.halted then none
    else if eflags &&& cpuEflagsIf = 0 ∧ line ≠ panicIntLine ∧ line ≠ schedulerSwIntLine
        ∧ minInterruptLine ≤ line then
      some { a with log := .dispatch line.toNat .blocked :: a.log }
    else some (a.handOver panic none line.toNat)
  | .iret => if a.halted ∨ a.depth = 0 then none else some { a with depth := a.depth - 1 }

/-- No line is enabled or raised, and two have an owner. -/
def boot (panic divByZeroHandler : η) : IrqSpec η where
  owner := Function.update (Function.update (fun _ => none) 0x2A (some panic)) 0 (some divByZeroHandler)
  enabled _ := false
  raised _ := false
  spurious := 0
  serving := none
  depth := 0
  halted := false
  log := []

end IrqSpec

end RTLKIM

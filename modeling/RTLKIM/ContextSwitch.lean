import RTLKIM.ThreadCreate
import RTLKIM.Lib.Run

/-!
# Context switches

An interrupt on one CPU, from the stubs of `int_handlers.S` over `schedule_int`, `cpu_save_context` and
`cpu_restore_context` to the `iret`, and the threads that run between interrupts. Memory is words at the
multiples of 4. A handler is the words it writes, with what it does to the `cpu_state` and the
`stack_state` it is given; interrupts are off in it. Beside the machine there is an ideal one, where the
registers of the threads that do not run are in a table of their own.
-/

namespace RTLKIM

/-- The registers; those of SSE are not among them. -/
@[ext] structure Regs where
  eax : ℕ
  ebx : ℕ
  ecx : ℕ
  edx : ℕ
  esi : ℕ
  edi : ℕ
  ebp : ℕ
  esp : ℕ
  eip : ℕ
  cs : ℕ
  eflags : ℕ
  ds : ℕ
  es : ℕ
  fs : ℕ
  gs : ℕ
  ss : ℕ
  deriving DecidableEq

/-- The registers of the CPU, and the word at each address. -/
structure Machine where
  regs : Regs
  words : ℕ → ℕ

/-- The lines of `err_code_interrupt_handler`. -/
def errCodeLines : List ℕ := [8, 10, 11, 12, 13, 14, 17, 30]

/-- Words written one after the other. -/
def writeWords (words : ℕ → ℕ) (l : List (ℕ × ℕ)) : ℕ → ℕ :=
  l.foldl (fun w p => Function.update w p.1 p.2) words

namespace Machine

def push (s : Machine) (v : ℕ) : Machine :=
  let esp := sub32 s.regs.esp 4
  ⟨{ s.regs with esp := esp }, Function.update s.words esp v⟩

/-- `set` is how the register that is popped is set. -/
def pop (s : Machine) (set : Regs → ℕ → Regs) : Machine :=
  ⟨set { s.regs with esp := add32 s.regs.esp 4 } (s.words s.regs.esp), s.words⟩

def write (s : Machine) (l : List (ℕ × ℕ)) : Machine := { s with words := writeWords s.words l }

/-- What the CPU pushes, and then `interrupt_handler_<line>`, with what `__generic_interrupt_handler`
pushes up to `ebp`. `code` is the error code of the CPU. -/
def interruptPushes (r : Regs) (line : ℕ) (code : Option ℕ) : List ℕ :=
  [r.eflags, r.cs, r.eip] ++ code.toList ++ (if line ∈ errCodeLines then [] else [0]) ++ [line]
    ++ [r.ds, r.es, r.fs, r.gs, r.ss] ++ [r.eax, r.ebx, r.ecx, r.edx, r.esi, r.edi, r.ebp]

/-- Up to the call of `kernel_interrupt_handler`. -/
def interruptEntry (s : Machine) (line : ℕ) (code : Option ℕ) : Machine :=
  let s := (interruptPushes s.regs line code).foldl push s
  s.push s.regs.esp

/-- `__generic_interrupt_handler` from that call on, with the `iret`. -/
def interruptReturn (s : Machine) : Machine :=
  let s := s.pop fun r v => { r with esp := v }
  let s := s.pop fun r v => { r with ebp := v }
  let s := s.pop fun r v => { r with edi := v }
  let s := s.pop fun r v => { r with esi := v }
  let s := s.pop fun r v => { r with edx := v }
  let s := s.pop fun r v => { r with ecx := v }
  let s := s.pop fun r v => { r with ebx := v }
  let s := s.pop fun r v => { r with eax := v }
  let s := s.pop fun r v => { r with ss := v }
  let s := s.pop fun r v => { r with gs := v }
  let s := s.pop fun r v => { r with fs := v }
  let s := s.pop fun r v => { r with es := v }
  let s := s.pop fun r v => { r with ds := v }
  let s : Machine := { s with regs := { s.regs with esp := add32 s.regs.esp 8 } }
  let s := s.pop fun r v => { r with eip := v }
  let s := s.pop fun r v => { r with cs := v }
  s.pop fun r v => { r with eflags := v }

end Machine

/-- What a handler does to what it is given. -/
inductive Handler (τ : Type*)
  /-- `schedule_int`, when `select_thread` elects `t`. -/
  | schedule (t : τ)
  /-- `cpu_set_next_thread_instruction`. -/
  | setNextInstruction (nextInst : ℕ)
  | other

/-- What happens: instructions of the code that runs, told by the registers and words they leave; an
interrupt; a thread is made ready to run, or its stack is freed. -/
inductive ContextEv (τ : Type*)
  | exec (f : Regs → (ℕ → ℕ) → Regs × List (ℕ × ℕ))
  | interrupt (line : ℕ) (code : Option ℕ) (writes : List (ℕ × ℕ)) (handler : Handler τ)
  | create (t : τ) (stack : Block) (entryPoint : ℕ)
  | free (t : τ)

/-- `t` is elected, or made anew. -/
def ContextEv.Concerns {τ : Type*} (t : τ) : ContextEv τ → Prop
  | .interrupt _ _ _ (.schedule u) => u = t
  | .create u _ _ => u = t
  | _ => False

/-- A CPU with its threads. The stack of `none` is the one of the boot code, which is left for good when
the first thread is elected. -/
structure ContextCpu (τ : Type*) where
  machine : Machine
  cr3 : ℕ
  activeThread : τ
  firstSched : Bool
  context : τ → CpuContext
  threads : List τ
  stack : Option τ → Block

namespace ContextCpu

variable {τ : Type*} [DecidableEq τ]

/-- `cpu_save_context` of the active thread, with `cpu_state` at `cpuState`. -/
def cpuSaveContext (s : ContextCpu τ) (cpuState : ℕ) : ContextCpu τ :=
  if s.firstSched then
    let context := { s.context s.activeThread with esp := s.machine.words cpuState }
    { s with context := Function.update s.context s.activeThread context }
  else s

/-- `cpu_update_pgdir`. -/
def cpuUpdatePgdir (s : ContextCpu τ) (newPgdir : ℕ) : ContextCpu τ := { s with cr3 := newPgdir }

/-- `cpu_restore_context` of the active thread. -/
def cpuRestoreContext (s : ContextCpu τ) (cpuState : ℕ) : ContextCpu τ :=
  { s with machine := s.machine.write [(cpuState, (s.context s.activeThread).esp)] }

/-- `schedule_int`. -/
def scheduleInt (s : ContextCpu τ) (cpuState : ℕ) (elected : τ) : ContextCpu τ :=
  let s := s.cpuSaveContext cpuState
  let s := { s with activeThread := elected }
  let s := s.cpuUpdatePgdir (s.context s.activeThread).cr3
  let s := s.cpuRestoreContext cpuState
  { s with firstSched := true }

/-- `cpu_state` is at `esp`, the number of the line 52 bytes from there and `stack_state` 56. -/
def handle (s : ContextCpu τ) : Handler τ → ContextCpu τ
  | .schedule t => s.scheduleInt s.machine.regs.esp t
  | .setNextInstruction nextInst =>
    { s with machine := s.machine.write [(add32 s.machine.regs.esp 60, nextInst)] }
  | .other => s

/-- `cpu_init_thread_context` of a new thread. -/
def createThread (s : ContextCpu τ) (t : τ) (stack : Block) (entryPoint freeTablePage cr3 : ℕ) :
    ContextCpu τ :=
  let (context, frame) := cpuInitThreadContext entryPoint (stack.size / 4) freeTablePage cr3 stack.addr
  { s with
    machine := s.machine.write (frame.map fun w => (add32 stack.addr (mul32 sizeofUintptr w.1), w.2))
    context := Function.update s.context t context
    threads := t :: s.threads
    stack := Function.update s.stack (some t) stack }

def step (s : ContextCpu τ) : ContextEv τ → Option (ContextCpu τ)
  | .exec f =>
    let (regs, writes) := f s.machine.regs s.machine.words
    some { s with machine := ⟨regs, writeWords s.machine.words writes⟩ }
  | .interrupt line code writes handler =>
    let s := { s with machine := (s.machine.interruptEntry line code).write writes }
    let s := s.handle handler
    some { s with machine := s.machine.interruptReturn }
  | .create t stack entryPoint =>
    some (s.createThread t stack entryPoint (s.context s.activeThread).freePageTable
      (s.context s.activeThread).cr3)
  | .free t => some { s with threads := s.threads.erase t }

/-- The boot code, before there is a thread. -/
def boot (machine : Machine) (cr3 : ℕ) (bootStack : Block) (idle : τ) : ContextCpu τ :=
  ⟨machine, cr3, idle, false, fun _ => ⟨0, 0, 0, cr3, 0⟩, [], fun _ => bootStack⟩

/-! ## What the code keeps to -/

/-- The thread that runs, if it is not the boot code. -/
def running (s : ContextCpu τ) : Option τ := if s.firstSched then some s.activeThread else none

/-- No code writes below the stack pointer of a thread that does not run. -/
def Writable (s : ContextCpu τ) (a : ℕ) : Prop :=
  a % 4 = 0 ∧ ∀ t ∈ s.threads, some t ≠ s.running →
    a < (s.stack (some t)).addr ∨ (s.context t).esp + 68 ≤ a

/-- A new stack: it has room for the first frame, and no byte of another stack. -/
def NewStack (s : ContextCpu τ) (stack : Block) : Prop :=
  stack.addr % 4 = 0 ∧ stack.size % 4 = 0 ∧ 72 ≤ stack.size ∧ stack.addr + stack.size < 2 ^ 32
    ∧ ∀ k ∈ none :: s.threads.map some, stack.addr + stack.size ≤ (s.stack k).addr
      ∨ (s.stack k).addr + (s.stack k).size ≤ stack.addr

/-- The stack that an interrupt finds has room for the 18 words of its frame. -/
def HasRoom (s : ContextCpu τ) : Prop :=
  s.machine.regs.esp % 4 = 0 ∧ (s.stack s.running).addr + 72 ≤ s.machine.regs.esp
    ∧ s.machine.regs.esp ≤ (s.stack s.running).addr + (s.stack s.running).size

instance (s : ContextCpu τ) (a : ℕ) : Decidable (s.Writable a) := inferInstanceAs (Decidable (_ ∧ _))

instance (s : ContextCpu τ) (stack : Block) : Decidable (s.NewStack stack) :=
  inferInstanceAs (Decidable (_ ∧ _))

instance (s : ContextCpu τ) : Decidable s.HasRoom := inferInstanceAs (Decidable (_ ∧ _))

/-- An interrupt has an error code when its line is for one. The handler writes neither to the frame nor
where no code does, and a thread is elected that is there. -/
def Ok (s : ContextCpu τ) : ContextEv τ → Prop
  | .exec f => ∀ w ∈ (f s.machine.regs s.machine.words).2, s.Writable w.1
  | .interrupt line code writes handler =>
    (code.isSome ↔ line ∈ errCodeLines) ∧ s.HasRoom
      ∧ (∀ w ∈ writes, s.Writable w.1
        ∧ (w.1 + 72 < s.machine.regs.esp ∨ s.machine.regs.esp ≤ w.1))
      ∧ match handler with
        | .schedule t => t ∈ s.threads
        | _ => True
  | .create t stack _ => t ∉ s.threads ∧ s.NewStack stack
  | .free t => t ≠ s.activeThread

instance (s : ContextCpu τ) : ∀ e, Decidable (s.Ok e)
  | .exec _ => inferInstanceAs (Decidable (∀ w ∈ _, _))
  | .interrupt _ _ _ (.schedule _) => inferInstanceAs (Decidable (_ ∧ _))
  | .interrupt _ _ _ (.setNextInstruction _) => inferInstanceAs (Decidable (_ ∧ _))
  | .interrupt _ _ _ .other => inferInstanceAs (Decidable (_ ∧ _))
  | .create _ _ _ => inferInstanceAs (Decidable (_ ∧ _))
  | .free _ => inferInstanceAs (Decidable (_ ≠ _))

end ContextCpu

/-! ## The ideal machine -/

/-- The registers of the code that runs, and those of each thread that does not. -/
structure Contexts (τ : Type*) where
  regs : Regs
  words : ℕ → ℕ
  current : Option τ
  saved : τ → Regs
  stack : Option τ → Block

namespace Contexts

variable {τ : Type*} [DecidableEq τ]

/-- The boot code, before there is a thread. -/
def boot (machine : Machine) (bootStack : Block) (saved : τ → Regs) : Contexts τ :=
  ⟨machine.regs, machine.words, none, saved, fun _ => bootStack⟩

/-- The registers a thread starts with. -/
def firstRegs (entryPoint : ℕ) (stack : Block) : Regs where
  eax := threadInitReg
  ebx := threadInitReg
  ecx := threadInitReg
  edx := threadInitReg
  esi := threadInitReg
  edi := threadInitReg
  ebp := stack.addr + stack.size - 4
  esp := stack.addr + stack.size
  eip := entryPoint
  cs := threadInitCs
  eflags := threadInitEflags
  ds := threadInitDs
  es := threadInitDs
  fs := threadInitDs
  gs := threadInitDs
  ss := threadInitDs

/-- A switch changes places with the table. -/
def switch (a : Contexts τ) (t : τ) : Contexts τ :=
  let saved := match a.current with
    | some c => Function.update a.saved c a.regs
    | none => a.saved
  { a with regs := saved t, saved := saved, current := some t }

def handle (a : Contexts τ) : Handler τ → Contexts τ
  | .schedule t => a.switch t
  | .setNextInstruction nextInst => { a with regs := { a.regs with eip := nextInst } }
  | .other => a

def addThread (a : Contexts τ) (t : τ) (stack : Block) (entryPoint : ℕ) : Contexts τ :=
  { a with
    saved := Function.update a.saved t (firstRegs entryPoint stack)
    stack := Function.update a.stack (some t) stack }

/-- Apart from what the handler writes, an interrupt may change the words below the stack pointer, in the
stack of the code that runs. A new thread may have anything in its stack. -/
def Step (a : Contexts τ) : ContextEv τ → Contexts τ → Prop
  | .exec f, a' =>
    a' = { a with regs := (f a.regs a.words).1, words := writeWords a.words (f a.regs a.words).2 }
  | .interrupt _ _ writes handler, a' =>
    ∃ words, a' = { a.handle handler with words := words }
      ∧ ∀ x, x < (a.stack a.current).addr ∨ a.regs.esp ≤ x → words x = writeWords a.words writes x
  | .create t stack entryPoint, a' =>
    ∃ words, a' = { a.addThread t stack entryPoint with words := words }
      ∧ ∀ x, x < stack.addr ∨ stack.addr + stack.size ≤ x → words x = a.words x
  | .free _, a' => a' = a

end Contexts

end RTLKIM

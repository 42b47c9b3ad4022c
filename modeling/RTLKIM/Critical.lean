import RTLKIM.Lib.Run
import RTLKIM.Lib.Word
import Mathlib.Logic.Function.Basic

/-!
# The critical sections

`ENTER_CRITICAL` and `EXIT_CRITICAL` of `critical.h` on one spinlock, with more than one CPU
booted. Each access to a field of the lock is a step of its own, so the steps of the CPUs interleave
in every way; interrupts are off on a CPU while it runs either macro. A CPU's id is what
`cpu_get_id` returns for it, and `-1` is nobody's.
-/

namespace RTLKIM

/-- Where a CPU is in `ENTER_CRITICAL` or `EXIT_CRITICAL`. -/
inductive CritPc
  /-- In neither. -/
  | idle
  /-- At `(lock)->current_tid != cpu_id`. -/
  | test
  /-- In `__pause_spinlock`. -/
  | spin
  /-- At `(lock)->current_tid = cpu_id`. -/
  | own
  /-- At the load of `(lock)->nesting++`. -/
  | incLoad
  /-- At its store. -/
  | incStore (v : ℕ)
  /-- At the load of `(lock)->nesting--`. -/
  | decLoad
  /-- At its store. -/
  | decStore (v : ℕ)
  /-- At `(lock)->nesting == 0`. -/
  | testNesting
  /-- At `(lock)->current_tid = -1`. -/
  | clearTid
  /-- At `(lock)->value = 0`. -/
  | clearValue
  deriving DecidableEq

/-- The lock, where each CPU is, and how many critical sections on the lock it is in. -/
structure Spinlock where
  value : ℕ
  currentTid : ℤ
  nesting : ℕ
  pc : ℕ → CritPc
  depth : ℕ → ℕ

/-- A CPU begins `ENTER_CRITICAL`, begins `EXIT_CRITICAL`, or goes on with the one it is in. -/
inductive CritEv
  | enter (cpu : ℕ)
  | exit (cpu : ℕ)
  | step (cpu : ℕ)
  deriving DecidableEq

namespace Spinlock

/-- `INIT_SPINLOCK`, before any CPU uses the lock. -/
def init : Spinlock := ⟨0, -1, 0, fun _ => .idle, fun _ => 0⟩

def goto (s : Spinlock) (c : ℕ) (p : CritPc) : Spinlock :=
  { s with pc := Function.update s.pc c p }

/-- The step of `c` in the macro it is in, if it can take one. -/
def advance (s : Spinlock) (c : ℕ) : CritPc → Option Spinlock
  | .idle => none
  | .test => some (s.goto c (if s.currentTid ≠ c then .spin else .own))
  | .spin => if s.value = 0 then some { s.goto c .own with value := 1 } else none
  | .own => some { s.goto c .incLoad with currentTid := c }
  | .incLoad => some (s.goto c (.incStore s.nesting))
  | .incStore v => some { s.goto c .idle with
      nesting := add32 v 1
      depth := Function.update s.depth c (s.depth c + 1) }
  | .decLoad => some (s.goto c (.decStore s.nesting))
  | .decStore v => some { s.goto c .testNesting with nesting := sub32 v 1 }
  | .testNesting => some (s.goto c (if s.nesting = 0 then .clearTid else .clearValue))
  | .clearTid => some { s.goto c .clearValue with currentTid := -1 }
  | .clearValue => some { s.goto c .idle with value := 0 }

def step (s : Spinlock) : CritEv → Option Spinlock
  | .enter c => if s.pc c = .idle then some (s.goto c .test) else none
  | .exit c => if s.pc c = .idle ∧ 0 < s.depth c then
      some { s.goto c .decLoad with depth := Function.update s.depth c (s.depth c - 1) }
    else none
  | .step c => s.advance c (s.pc c)

/-- Between its outermost `ENTER_CRITICAL` and the `EXIT_CRITICAL` that matches it. -/
def Inside (s : Spinlock) (c : ℕ) : Prop := 0 < s.depth c

/-- At most one CPU is in a critical section on the lock. -/
def Exclusive (s : Spinlock) : Prop := ∀ c d, s.Inside c → s.Inside d → c = d

/-- An `EXIT_CRITICAL`, if the event is one, leaves the outermost section. -/
def LeavesOutermost (s : Spinlock) : CritEv → Prop
  | .exit c => s.depth c = 1
  | _ => True

instance (s : Spinlock) : ∀ e, Decidable (s.LeavesOutermost e)
  | .exit c => inferInstanceAs (Decidable (s.depth c = 1))
  | .enter _ | .step _ => instDecidableTrue

end Spinlock

end RTLKIM

import RTLKIM.Mutex

/-!
# Several mutexes

Mutexes that the same threads use: a section on one of them reads and writes the priority that the
thread takes to the others. A thread is in a call on one mutex at a time.
-/

namespace RTLKIM

/-- The thread that takes a step. -/
def MutexEv.thread {τ : Type} : MutexEv τ → τ
  | .pend t | .retest t | .tryPend t | .post t | .unlock t | .destroy t => t

/-- The mutexes, with the priorities of the threads, the mutex that each is in a call on, and those
that it has acquired and not posted, the last one first. -/
structure MutexSet (μ τ : Type) where
  sys : μ → MutexSys τ
  priority : τ → UInt32
  call : τ → Option μ
  held : τ → List μ

namespace MutexSet

variable {μ τ : Type}

def start (m : μ → Mutex τ) (priority : τ → UInt32) : MutexSet μ τ :=
  ⟨fun i => .start (m i) priority, priority, fun _ => none, fun _ => []⟩

/-- A mutex, with the priorities as they are. -/
def view (s : MutexSet μ τ) (i : μ) : MutexSys τ := { s.sys i with priority := s.priority }

/-- `mutex_init` was given a priority to elevate to. -/
def Elevating (elevation : μ → UInt16) (i : μ) : Prop :=
  (elevation i).toUInt32 ≠ mutexPriorityElevationNone

instance (elevation : μ → UInt16) : DecidablePred (Elevating elevation) := fun i =>
  inferInstanceAs (Decidable ((elevation i).toUInt32 ≠ mutexPriorityElevationNone))

variable [DecidableEq μ]

/-- What the thread of a step on `i`, which becomes `m`, holds after it. -/
def record (s : MutexSet μ τ) (i : μ) (m : MutexSys τ) : MutexEv τ → List μ
  | .pend t | .retest t | .tryPend t =>
    if (s.sys i).depth t < m.depth t then i :: s.held t else s.held t
  | .post t => if (s.sys i).mutex.init = false then s.held t else (s.held t).erase i
  | .unlock t | .destroy t => s.held t

variable [DecidableEq τ]

/-- A step on one of the mutexes, by a thread that is in no call on another. -/
def step (tid : τ → Int32) (s : MutexSet μ τ) (e : μ × MutexEv τ) : Option (MutexSet μ τ) :=
  let t := e.2.thread
  if s.call t = none ∨ s.call t = some e.1 then
    ((s.view e.1).step tid e.2).map fun m =>
      { sys := Function.update s.sys e.1 m
        priority := m.priority
        call := Function.update s.call t (if m.Free t then none else some e.1)
        held := Function.update s.held t (s.record e.1 m e.2) }
  else none

end MutexSet

end RTLKIM

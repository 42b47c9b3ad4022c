import RTLKIM.LockSection
import RTLKIM.Scheduler

/-!
# `sem_post` and the interrupt state of its caller

`sem_post` of `semaphore.c` on one CPU, over the scheduler's tables: it pops a waiter in its section
and unlocks it after, with or without a `sched_schedule` according to `kernel_interrupt_get_state`.
The data sections of `queue_post`, `queue_pend`, `mailbox_post` and `mailbox_pend` call it inside
the critical section of their object, whose lock is that of `crit`. The semaphore's own section
changes the interrupts only, and gives them back.

A call to `sched_schedule` is logged with the state of the CPU and of the object's lock at it. What
comes after it in a call is run when the thread is elected again.
-/

namespace RTLKIM

/-- The codes that `sem_post` returns. -/
inductive PostErr
  | noErr
  | nullPointer
  | semUninitialized
  deriving DecidableEq

/-- A CPU, the scheduler and the semaphores, by number. -/
structure SemCpu where
  crit : CritState
  sched : Sched
  level : ℕ → Int32
  init : ℕ → Bool
  schedules : List CritState

/-- A queue or a mailbox: `init` and its semaphores. -/
structure IpcObject where
  init : Bool
  semRead : ℕ
  semWrite : ℕ

/-- Where `sem_post` is called from: an interrupt handler or a thread, or the data section of one of
the four operations on an object. -/
inductive PostCall
  | semPost (sem : Option ℕ)
  | queuePost (o : IpcObject)
  | queuePend (o : IpcObject)
  | mailboxPost (o : IpcObject)
  | mailboxPend (o : IpcObject)

namespace SemCpu

/-- The index of the CPU in the scheduler's tables. -/
def cpu (s : SemCpu) : ℕ := s.crit.cpuId.toNat

/-- `sem_post` past its section, with a waiter to pop: it schedules when interrupts are off. -/
def unlockWaiter (s : SemCpu) (t sem : ℕ) : Except Halt SemCpu :=
  let doSchedule := if s.crit.kernelInterruptGetState then false else true
  (s.sched.unlock s.cpu t .sem sem doSchedule).map fun sched =>
    { s with
      sched := sched
      schedules := if doSchedule then s.crit :: s.schedules else s.schedules }

/-- `sem_post` by the thread `t`. -/
def semPost (s : SemCpu) (t : ℕ) : Option ℕ → Except Halt (SemCpu × PostErr)
  | none => .ok (s, .nullPointer)
  | some sem =>
    let (x, k) := s.crit.kernelInterruptDisable
    if s.init sem = false then
      .ok ({ s with crit := k.kernelInterruptRestore x }, .semUninitialized)
    else
      let s := { s with
        crit := k.kernelInterruptRestore x
        level := Function.update s.level sem (s.level sem + 1) }
      if 0 < s.level sem ∧ s.sched.table (.waiting .sem sem) ≠ [] then
        (s.unlockWaiter t sem).map fun s => (s, .noErr)
      else .ok (s, .noErr)

/-- The data section of a post: `ENTER_CRITICAL`, the value, `sem_post`, `EXIT_CRITICAL`. -/
def postSection (s : SemCpu) (t sem : ℕ) : Option (Except Halt SemCpu) :=
  s.crit.enterCritical.map fun (x, k) =>
    (semPost { s with crit := k } t (some sem)).map fun r =>
      { r.1 with crit := r.1.crit.exitCritical x }

/-- The data section of a pend, which tests `init` first. -/
def pendSection (s : SemCpu) (t : ℕ) (init : Bool) (sem : ℕ) : Option (Except Halt SemCpu) :=
  if init = false then
    s.crit.enterCritical.map fun (x, k) => .ok { s with crit := k.exitCritical x }
  else s.postSection t sem

/-- A call; it does not come back on its own from a lock that another CPU has. -/
def run (s : SemCpu) (t : ℕ) : PostCall → Option (Except Halt SemCpu)
  | .semPost sem => some ((s.semPost t sem).map Prod.fst)
  | .queuePost o | .mailboxPost o => s.postSection t o.semRead
  | .queuePend o | .mailboxPend o => s.pendSection t o.init o.semWrite

/-! ## When `sched_schedule` is called -/

/-- The call leaves no new entry in the log. -/
def Quiet (s : SemCpu) (r : Except Halt SemCpu) : Prop :=
  ∀ s', r = .ok s' → s'.schedules = s.schedules

/-- `sem_post` has a waiter to pop, and the waiter is blocked on a semaphore. -/
def WakesOn (s : SemCpu) (sem : ℕ) : Prop :=
  s.init sem = true ∧ 0 < s.level sem + 1
    ∧ ∃ n ∈ (s.sched.table (.waiting .sem sem)).getLast?, ∃ x ∈ (s.sched.node n).data,
      x ≠ s.sched.idleThread s.cpu ∧ (s.sched.thread x).state = .waiting
        ∧ (s.sched.thread x).blockType = .sem

/-- The call comes to a `sem_post` that has a waiter to wake. -/
def Wakes (s : SemCpu) : PostCall → Prop
  | .semPost sem => ∃ o ∈ sem, s.WakesOn o
  | .queuePost o | .mailboxPost o => s.WakesOn o.semRead
  | .queuePend o | .mailboxPend o => o.init = true ∧ s.WakesOn o.semWrite

/-- Interrupts are off when `sem_post` is called: its caller has disabled them, or the section of
the object does. -/
def InterruptsOff (s : SemCpu) : PostCall → Prop
  | .semPost _ => s.crit.ints = false
  | _ => True

/-- The object whose section the call is in has its lock taken by this CPU, if there are others. -/
def HoldsLock (s : SemCpu) : PostCall → CritState → Prop
  | .semPost _, _ => True
  | _, k => k.booted ≤ 1 ∨ k.lock.currentTid = s.crit.cpuId ∧ k.lock.nesting = s.crit.lock.nesting + 1

end SemCpu

end RTLKIM

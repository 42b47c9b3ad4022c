import RTLKIM.Lib.Waiters
import RTLKIM.Scheduler

/-!
# Mutexes

`mutex.c`, in sections on the mutex's lock as for the semaphores. The priority of the thread that
runs a section goes in and out of it, for the elevation.
-/

namespace RTLKIM

/-- The codes that the functions on mutexes return. -/
inductive MutexErr
  | noErr
  | mutexUninitialized
  | mutexLocked
  | forbidenPriority
  deriving DecidableEq

def mutexFlagRecursive : UInt32 := 0x00000001

def mutexPriorityElevationNone : UInt32 := 0x0000FFFF

/-- `mutex_t`; `waiters.queue` is `waiting_threads`, from the head. -/
structure Mutex (τ : Type) where
  state : UInt32
  flags : UInt32
  acquiredThreadPriority : UInt32
  lockerTid : Int32
  init : Bool
  waiters : Waiters τ

/-- `sched_set_priority`; an error makes its callers panic. -/
def schedSetPriority (priority : UInt32) : Except Halt UInt32 :=
  if kernelLowestPriority < priority.toNat then .error .panic else .ok priority

namespace Mutex

variable {τ : Type}

/-- `mutex_init`. -/
def mutexInit (flags : UInt32) (priority : UInt16) : Except MutexErr (Mutex τ) :=
  if kernelLowestPriority < priority.toNat ∧ priority.toUInt32 ≠ mutexPriorityElevationNone then
    .error .forbidenPriority
  else .ok ⟨1, flags ||| priority.toUInt32 <<< 8, 0, 0, true, .empty⟩

/-- The mutex is recursive and `locker_tid` is the thread's. -/
def Reentrant (m : Mutex τ) (tid : Int32) : Prop :=
  m.flags &&& mutexFlagRecursive ≠ 0 ∧ tid = m.lockerTid

instance (m : Mutex τ) (tid : Int32) : Decidable (m.Reentrant tid) :=
  inferInstanceAs (Decidable (_ ∧ _))

/-- `prio`, as `mutex_pend` and `mutex_post` read it from the flags. -/
def prio (m : Mutex τ) : UInt32 := m.flags >>> 8 &&& mutexPriorityElevationNone

/-- `mutex_pend` once it has the mutex: the priority of its thread, and the mutex. -/
def elevate (m : Mutex τ) (priority : UInt32) : Except Halt (UInt32 × Mutex τ) :=
  if m.prio ≠ mutexPriorityElevationNone then
    (schedSetPriority (m.prio >>> 8)).map fun p => (p, { m with acquiredThreadPriority := priority })
  else .ok (priority, m)

/-- `mutex_post` once it has freed the mutex. -/
def restore (m : Mutex τ) (priority : UInt32) : Except Halt (UInt32 × Mutex τ) :=
  if m.prio ≠ mutexPriorityElevationNone then
    (schedSetPriority m.acquiredThreadPriority).map fun p =>
      (p, { m with acquiredThreadPriority := .ofNat kernelLowestPriority })
  else .ok (priority, m)

variable [DecidableEq τ]

/-- `sched_unlock_thread` on a thread locked on a mutex; an error makes the callers panic. -/
def unlockThread (m : Mutex τ) (x : τ) : Except Halt (Mutex τ) :=
  (m.waiters.wakeWaiting x).elim (.error .panic) fun w => .ok { m with waiters := w }

/-- The section of `mutex_pend` from a test of the state: it returns a code, or blocks the thread.
-/
def pendTest (m : Mutex τ) (t : τ) (tid : Int32) (priority : UInt32) :
    Except Halt (Option MutexErr × UInt32 × Mutex τ) :=
  if m.init = true ∧ m.state ≠ 1 ∧ ¬ m.Reentrant tid then
    .ok (none, priority, { m with waiters := m.waiters.park t })
  else
    let m := { m with waiters := m.waiters.leave t }
    if m.init = false then .ok (some .mutexUninitialized, priority, m)
    else (elevate { m with state := 0, lockerTid := tid } priority).map fun p => (some .noErr, p)

/-- The first section of `mutex_pend`. -/
def mutexPend (m : Mutex τ) (t : τ) (tid : Int32) (priority : UInt32) :
    Except Halt (Option MutexErr × UInt32 × Mutex τ) :=
  if m.init = false then .ok (some .mutexUninitialized, priority, m) else m.pendTest t tid priority

/-- The section of `mutex_post`: the code, the thread it popped, the priority of its own thread. -/
def mutexPost (m : Mutex τ) (priority : UInt32) :
    Except Halt (MutexErr × Option τ × UInt32 × Mutex τ) :=
  if m.init = false then .ok (.mutexUninitialized, none, priority, m)
  else (restore { m with state := 1 } priority).map fun p =>
    match p.2.waiters.queue.getLast? with
    | none => (.noErr, none, p.1, p.2)
    | some x => (.noErr, some x, p.1, { p.2 with waiters := p.2.waiters.pop x })

/-- `mutex_try_pend`: the code, and what is stored in `value`. -/
def mutexTryPend (m : Mutex τ) : MutexErr × Option UInt32 × Mutex τ :=
  if m.init = false then (.mutexUninitialized, none, m)
  else if m.state ≠ 1 then (.mutexLocked, some m.state, m)
  else (.noErr, none, { m with state := 0 })

/-- The loop of `mutex_destroy`: it pops and unlocks every thread. -/
def unlockAll (m : Mutex τ) : Except Halt (Mutex τ) :=
  (Waiters.wakeAll m.waiters.queue.reverse m.waiters).elim (.error .panic) fun w =>
    .ok { m with waiters := w }

/-- `mutex_destroy`. -/
def mutexDestroy (m : Mutex τ) : Except Halt (MutexErr × Mutex τ) :=
  if m.init = false then .ok (.mutexUninitialized, m)
  else m.unlockAll.map fun m => (.noErr, { m with init := false })

end Mutex

/-- What a call returned: the code, and what `mutex_try_pend` stored. -/
structure MutexRet where
  err : MutexErr
  value : Option UInt32
  deriving DecidableEq

/-- A mutex and its threads: their priorities, the thread that each has popped and is to unlock,
what its last call returned, and how many of its acquisitions it has not posted: all, and those by
`mutex_pend`. -/
structure MutexSys (τ : Type) where
  mutex : Mutex τ
  priority : τ → UInt32
  unlocks : τ → Option τ
  ret : τ → Option MutexRet
  depth : τ → ℕ
  pends : τ → ℕ

/-- Sections and the unlock after one, each by a thread. -/
inductive MutexEv (τ : Type)
  | pend (t : τ)
  | retest (t : τ)
  | tryPend (t : τ)
  | post (t : τ)
  | unlock (t : τ)
  | destroy (t : τ)

namespace MutexSys

variable {τ : Type}

def start (m : Mutex τ) (priority : τ → UInt32) : MutexSys τ :=
  ⟨m, priority, fun _ => none, fun _ => none, fun _ => 0, fun _ => 0⟩

/-- The thread has acquired the mutex more often than it posted it. -/
def Holds (s : MutexSys τ) (t : τ) : Prop := 0 < s.depth t

instance (s : MutexSys τ) (t : τ) : Decidable (s.Holds t) := inferInstanceAs (Decidable (_ < _))

variable [DecidableEq τ]

def returns (s : MutexSys τ) (t : τ) (r : MutexRet) : MutexSys τ :=
  { s with ret := Function.update s.ret t (some r) }

/-- The thread is in its own code. -/
def Free (s : MutexSys τ) (t : τ) : Prop := s.mutex.waiters.phase t = .out ∧ s.unlocks t = none

instance (s : MutexSys τ) (t : τ) : Decidable (s.Free t) := inferInstanceAs (Decidable (_ ∧ _))

/-- The end of a section of `mutex_pend`. -/
def pended (s : MutexSys τ) (t : τ) : Option MutexErr × UInt32 × Mutex τ → MutexSys τ
  | (none, _, m) => { s with mutex := m }
  | (some .noErr, p, m) =>
    { s with
      mutex := m
      priority := Function.update s.priority t p
      depth := Function.update s.depth t (s.depth t + 1)
      pends := Function.update s.pends t (s.pends t + 1) }.returns t ⟨.noErr, none⟩
  | (some err, _, m) => { s with mutex := m }.returns t ⟨err, none⟩

/-- The end of `mutex_try_pend`. -/
def triedPend (s : MutexSys τ) (t : τ) : MutexErr × Option UInt32 × Mutex τ → MutexSys τ
  | (.noErr, v, m) =>
    { s with mutex := m, depth := Function.update s.depth t (s.depth t + 1) }.returns t ⟨.noErr, v⟩
  | (err, v, m) => { s with mutex := m }.returns t ⟨err, v⟩

/-- A thread posts the mutex. -/
def release (s : MutexSys τ) (t : τ) (p : UInt32) (m : Mutex τ) : MutexSys τ :=
  { s with
    mutex := m
    priority := Function.update s.priority t p
    depth := Function.update s.depth t (s.depth t - 1)
    pends := Function.update s.pends t (s.pends t - 1) }

/-- The end of the section of `mutex_post`: it returns if it popped no thread. -/
def posts (s : MutexSys τ) (t : τ) : MutexErr × Option τ × UInt32 × Mutex τ → MutexSys τ
  | (.noErr, none, p, m) => (s.release t p m).returns t ⟨.noErr, none⟩
  | (.noErr, some x, p, m) =>
    { s.release t p m with unlocks := Function.update s.unlocks t (some x) }
  | (err, _, _, m) => { s with mutex := m }.returns t ⟨err, none⟩

/-- A step of the threads, whose identifiers are `tid`. -/
def step (tid : τ → Int32) (s : MutexSys τ) : MutexEv τ → Option (MutexSys τ)
  | .pend t =>
    if s.Free t then (s.mutex.mutexPend t (tid t) (s.priority t)).toOption.map (s.pended t)
    else none
  | .retest t =>
    if s.mutex.waiters.phase t = .woken then
      (s.mutex.pendTest t (tid t) (s.priority t)).toOption.map (s.pended t)
    else none
  | .tryPend t => if s.Free t then some (s.triedPend t s.mutex.mutexTryPend) else none
  | .post t =>
    if s.Free t then (s.mutex.mutexPost (s.priority t)).toOption.map (s.posts t) else none
  | .unlock t =>
    (s.unlocks t).bind fun x => (s.mutex.unlockThread x).toOption.map fun m =>
      { s with mutex := m, unlocks := Function.update s.unlocks t none }.returns t ⟨.noErr, none⟩
  | .destroy t =>
    if s.Free t then
      s.mutex.mutexDestroy.toOption.map fun p => { s with mutex := p.2 }.returns t ⟨p.1, none⟩
    else none

end MutexSys

end RTLKIM

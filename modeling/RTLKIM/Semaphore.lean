import RTLKIM.Lib.Waiters
import RTLKIM.Scheduler

/-!
# Semaphores

`semaphore.c`. Every critical section on the semaphore's lock is one step. `sem_pend` tests the
level in its first section and again in one for each time it is woken up; `sem_post` unlocks the
thread it popped after its section. A thread is `THREAD_STATE_WAITING` from its `sched_lock_thread`
to the `sched_unlock_thread` on it.
-/

namespace RTLKIM

/-- The codes that the functions on semaphores return. -/
inductive SemErr
  | noErr
  | semUninitialized
  | semLocked
  deriving DecidableEq

/-- `semaphore_t`; `waiters.queue` is `waiting_threads`, from the head. -/
structure Sem (τ : Type) where
  level : Int32
  init : Bool
  waiters : Waiters τ

namespace Sem

variable {τ : Type}

/-- `sem_init`. -/
def semInit (initLevel : Int32) : Sem τ := ⟨initLevel, true, .empty⟩

variable [DecidableEq τ]

/-- `sched_unlock_thread` on a thread locked on a semaphore; an error makes the callers panic. -/
def unlockThread (s : Sem τ) (x : τ) : Except Halt (Sem τ) :=
  (s.waiters.wakeWaiting x).elim (.error .panic) fun w => .ok { s with waiters := w }

/-- The section of `sem_pend` from a test of the level: it returns a code, or blocks the thread. -/
def pendTest (s : Sem τ) (t : τ) : Option SemErr × Sem τ :=
  if s.init = true ∧ s.level < 1 then (none, { s with waiters := s.waiters.park t })
  else
    let s := { s with waiters := s.waiters.leave t }
    if s.init = false then (some .semUninitialized, s)
    else (some .noErr, { s with level := s.level - 1 })

/-- The first section of `sem_pend`. -/
def semPend (s : Sem τ) (t : τ) : Option SemErr × Sem τ :=
  if s.init = false then (some .semUninitialized, s) else s.pendTest t

/-- The section of `sem_post`, and the thread it popped. -/
def semPost (s : Sem τ) : SemErr × Option τ × Sem τ :=
  if s.init = false then (.semUninitialized, none, s)
  else
    let s := { s with level := s.level + 1 }
    if 0 < s.level then
      match s.waiters.queue.getLast? with
      | none => (.noErr, none, s)
      | some x => (.noErr, some x, { s with waiters := s.waiters.pop x })
    else (.noErr, none, s)

/-- `sem_try_pend`: the code, and what is stored in `value`. -/
def semTryPend (s : Sem τ) : SemErr × Option Int32 × Sem τ :=
  if s.init = false then (.semUninitialized, none, s)
  else if s.level < 1 then (.semLocked, some s.level, s)
  else (.noErr, some (s.level - 1), { s with level := s.level - 1 })

/-- The loop of `sem_destroy`: it pops and unlocks every thread. -/
def unlockAll (s : Sem τ) : Except Halt (Sem τ) :=
  (Waiters.wakeAll s.waiters.queue.reverse s.waiters).elim (.error .panic) fun w =>
    .ok { s with waiters := w }

/-- `sem_destroy`. -/
def semDestroy (s : Sem τ) : Except Halt (SemErr × Sem τ) :=
  if s.init = false then .ok (.semUninitialized, s)
  else { s with init := false }.unlockAll.map fun s => (.noErr, s)

end Sem

/-- What a call returned: the code, and what `sem_try_pend` stored. -/
structure SemRet where
  err : SemErr
  value : Option Int32
  deriving DecidableEq

/-- A semaphore and its threads: the thread that each has popped and is to unlock, and what its last
call returned. `posted` and `acquired` count the increments and the decrements. -/
structure SemSys (τ : Type) where
  sem : Sem τ
  unlocks : τ → Option τ
  ret : τ → Option SemRet
  posted : ℕ
  acquired : ℕ

/-- Sections and the unlock after one, each by a thread. -/
inductive SemEv (τ : Type)
  | pend (t : τ)
  | retest (t : τ)
  | tryPend (t : τ)
  | post (t : τ)
  | unlock (t : τ)
  | destroy (t : τ)

namespace SemSys

variable {τ : Type}

def start (initLevel : Int32) : SemSys τ :=
  ⟨Sem.semInit initLevel, fun _ => none, fun _ => none, 0, 0⟩

variable [DecidableEq τ]

def returns (s : SemSys τ) (t : τ) (r : SemRet) : SemSys τ :=
  { s with ret := Function.update s.ret t (some r) }

/-- The thread is in its own code. -/
def Free (s : SemSys τ) (t : τ) : Prop := s.sem.waiters.phase t = .out ∧ s.unlocks t = none

instance (s : SemSys τ) (t : τ) : Decidable (s.Free t) := inferInstanceAs (Decidable (_ ∧ _))

/-- The end of a section of `sem_pend`. -/
def pended (s : SemSys τ) (t : τ) : Option SemErr × Sem τ → SemSys τ
  | (none, m) => { s with sem := m }
  | (some .noErr, m) => { s with sem := m, acquired := s.acquired + 1 }.returns t ⟨.noErr, none⟩
  | (some err, m) => { s with sem := m }.returns t ⟨err, none⟩

/-- The end of `sem_try_pend`. -/
def triedPend (s : SemSys τ) (t : τ) : SemErr × Option Int32 × Sem τ → SemSys τ
  | (.noErr, v, m) => { s with sem := m, acquired := s.acquired + 1 }.returns t ⟨.noErr, v⟩
  | (err, v, m) => { s with sem := m }.returns t ⟨err, v⟩

/-- The end of the section of `sem_post`: it returns if it popped no thread. -/
def posts (s : SemSys τ) (t : τ) : SemErr × Option τ × Sem τ → SemSys τ
  | (.noErr, none, m) => { s with sem := m, posted := s.posted + 1 }.returns t ⟨.noErr, none⟩
  | (.noErr, some x, m) =>
    { s with sem := m, posted := s.posted + 1, unlocks := Function.update s.unlocks t (some x) }
  | (err, _, m) => { s with sem := m }.returns t ⟨err, none⟩

def step (s : SemSys τ) : SemEv τ → Option (SemSys τ)
  | .pend t => if s.Free t then some (s.pended t (s.sem.semPend t)) else none
  | .retest t =>
    if s.sem.waiters.phase t = .woken then some (s.pended t (s.sem.pendTest t)) else none
  | .tryPend t => if s.Free t then some (s.triedPend t s.sem.semTryPend) else none
  | .post t => if s.Free t then some (s.posts t s.sem.semPost) else none
  | .unlock t =>
    (s.unlocks t).bind fun x => (s.sem.unlockThread x).toOption.map fun m =>
      { s with sem := m, unlocks := Function.update s.unlocks t none }.returns t ⟨.noErr, none⟩
  | .destroy t =>
    if s.Free t then s.sem.semDestroy.toOption.map fun p => { s with sem := p.2 }.returns t ⟨p.1, none⟩
    else none

end SemSys

end RTLKIM

import RTLKIM.JoinProtocol

/-!
# What the scheduler's runs are to keep

The tables the nodes of threads are linked in when calls are one step; and, statement by statement,
the windows in which a join, an exit or a reclaim goes wrong.
-/

namespace RTLKIM

/-- The CPU an event is on. -/
def SchedEv.cpu : SchedEv → ℕ
  | .initAp c | .call c _ _ | .stmt c _ | .timer c _ => c

namespace Sched

/-- Every thread's node is linked once at most, in the table its state says. -/
structure Partition (s : Sched) : Prop where
  once : ∀ t < s.created, ∀ q q', t ∈ s.table q → t ∈ s.table q' → q = q'
  nodup : ∀ q, (s.table q).Nodup
  ready : ∀ t < s.created, (s.thread t).state = .ready →
    t ∈ s.table (.active (s.thread t).cpuAffinity (s.thread t).priority)
  sleeping : ∀ t < s.created, (s.thread t).state = .sleeping → (∀ c, s.activeThread c ≠ some t) →
    t ∈ s.table (.sleeping (s.thread t).cpuAffinity)
  waiting : ∀ t < s.created, (s.thread t).state = .waiting → ∃ type object,
    t ∈ s.table (.waiting type object) ∧ ∀ q, t ∈ s.table q → q = .waiting type object
  zombie : ∀ t < s.created, (s.thread t).state = .zombie → t ≠ s.initThread → s.freed t = false →
    t ∈ s.table .zombie
  unlinked : ∀ t < s.created, (s.thread t).state = .running ∨ (s.thread t).state = .joining →
    ∀ q, t ∉ s.table q
  idle : ∀ c, s.activeThread c ≠ none → s.activeThread c = some (s.idleThread c)
    ∨ (s.thread (s.idleThread c)).state = .ready
      ∧ s.idleThread c ∈ s.table (.active c (s.thread (s.idleThread c)).priority)

/-- The step, if it is a statement, misses no thread that waits for another. -/
def JoinsInTime (s : Sched) : SchedEv → Prop
  | .stmt c _ => ∀ t ∈ s.activeThread c, ∀ x < s.created, s.joinView.MeetsJoiners t x
  | _ => True

instance (s : Sched) : ∀ e, Decidable (s.JoinsInTime e)
  | .stmt _ _ => inferInstanceAs (Decidable (∀ t ∈ _, _))
  | .initAp _ | .call _ _ _ | .timer _ _ => instDecidableTrue

/-- The step runs `sched_clean_joined_thread` on `x`. -/
def Cleans (s : Sched) (x : ℕ) : SchedEv → Prop
  | .stmt c _ => ∃ j ∈ s.activeThread c, s.pc j = .waitClean x ∨ s.pc j = .waitResumed x
  | _ => False

/-- A statement that finds a thread a zombie finds it switched away from, and one that records a
joiner does so before the thread looks for it or after it has woken up another. -/
def TestsInTime (s : Sched) : SchedEv → Prop
  | .stmt c _ => ∀ t ∈ s.activeThread c, ∀ x < s.created,
      (s.pc t = .waitZombie x → (s.thread x).state = .zombie →
        s.activeThread (s.thread x).cpuAffinity ≠ some x)
      ∧ (s.pc t = .waitRecord x → (s.pc x).waking = false)
  | _ => True

instance (s : Sched) : ∀ e, Decidable (s.TestsInTime e)
  | .stmt _ _ => inferInstanceAs (Decidable (∀ t ∈ _, _))
  | .initAp _ | .call _ _ _ | .timer _ _ => instDecidableTrue

/-- The thread that `select_thread` elects does not go on from the wait for a thread that still runs
on another CPU. -/
def ElectsInTime (s : Sched) (e : SchedEv) : Prop :=
  ∀ s' ∈ s.step e, ∀ n ∈ s'.activeThread e.cpu, ∀ x < s.created, s'.pc n = .waitResumed x →
    (s.thread x).cpuAffinity ≠ e.cpu → s.activeThread (s.thread x).cpuAffinity ≠ some x

instance (s : Sched) (e : SchedEv) : Decidable (s.ElectsInTime e) :=
  inferInstanceAs (Decidable (∀ s' ∈ _, _))

def ReclaimsInTime (s : Sched) (e : SchedEv) : Prop := s.TestsInTime e ∧ s.ElectsInTime e

instance (s : Sched) (e : SchedEv) : Decidable (s.ReclaimsInTime e) :=
  inferInstanceAs (Decidable (_ ∧ _))

/-- `y` is in the queue of `t`'s children. -/
def HasChild (s : Sched) (t y : ℕ) : Prop := ∃ l, (s.thread t).children = some l ∧ y ∈ l

/-- What `thread_exit` does for a thread: it is linked among the zombies until it is reclaimed, init
has its children, and nobody joins it any more. -/
structure Completed (s : Sched) (x : ℕ) : Prop where
  linked : s.freed x = false → x ∈ s.table .zombie
  childless : (s.thread x).children = none
  reparented : ∀ y, s.creator y = some x → s.freed y = false →
    s.HasChild s.initThread y ∧ (s.thread y).ptid = (s.thread s.initThread).tid
  unjoined : ∀ j, (s.thread j).state = .joining → (s.pc j).target ≠ some x

/-- Every zombie that has left its CPU has completed its exit. -/
def ExitsComplete (s : Sched) : Prop :=
  ∀ x < s.created, x ≠ s.initThread → (s.thread x).state = .zombie →
    (∀ c, s.activeThread c ≠ some x) → s.Completed x

/-- A statement misses no joiner of a thread other than init, and the timer does not interrupt a
thread between its store of `THREAD_STATE_ZOMBIE` and its critical section. -/
def ExitsInTime (s : Sched) : SchedEv → Prop
  | .stmt c _ => ∀ t ∈ s.activeThread c, ∀ x < s.created, x ≠ s.initThread →
      s.joinView.MeetsJoiners t x
  | .timer c _ => ∀ t ∈ s.activeThread c, t ≠ s.initThread →
      s.pc t ≠ .exitTestInit ∧ s.pc t ≠ .exitEnter
  | _ => True

instance (s : Sched) : ∀ e, Decidable (s.ExitsInTime e)
  | .stmt _ _ | .timer _ _ => inferInstanceAs (Decidable (∀ t ∈ _, _))
  | .initAp _ | .call _ _ _ => instDecidableTrue

end Sched

end RTLKIM

import RTLKIM.Scheduler

/-!
# Joining and exiting

What `sched_wait_thread` and `thread_exit` read and write of one another, without the tables: the
statement each thread is at, its state, the thread recorded in its `joining_thread`, and the thread
each CPU runs. `Move` lists the ways one step of the kernel changes these.
-/

namespace RTLKIM

namespace Pc

/-- Past the store of `THREAD_STATE_ZOMBIE`. -/
def gone : Pc → Bool
  | .exitTestInit | .exitEnter | .exitPush | .exitChildren | .exitDelete | .exitSearch | .exitWake _
  | .exitLeave | .exitSched | .exited => true
  | _ => false

/-- In the middle of `thread_exit`. -/
def exiting : Pc → Bool
  | .exited => false
  | .exitZombie => true
  | p => p.gone

/-- Past the search for the thread to wake up. -/
def searched : Pc → Bool
  | .exitWake _ | .exitLeave | .exitSched | .exited => true
  | _ => false

/-- Between the search and the wake up of the thread found. -/
def waking : Pc → Bool
  | .exitWake (some _) => true
  | _ => false

/-- Past the wake up. -/
def woke : Pc → Bool
  | .exitLeave | .exitSched | .exited => true
  | _ => false

/-- The thread waited for, once the call has begun. -/
def target : Pc → Option ℕ
  | .waitDead x | .waitZombie x | .waitMarkDead x | .waitClean x | .waitJoining x | .waitRecord x
  | .waitSched x | .waitResumed x => some x
  | _ => none

end Pc

/-- The states that `thread_exit` and `sched_wait_thread` do not look for. -/
def ThreadState.plain : ThreadState → Bool
  | .running | .ready | .sleeping | .waiting => true
  | _ => false

/-- How a thread gives up its CPU, by the statement it is to go on with. -/
inductive Leaves : Pc → Pc → Prop
  | timer (p : Pc) : Leaves p p
  | sched : Leaves .sched .run
  | wait (target : ℕ) : Leaves (.waitSched target) (.waitResumed target)
  | exit : Leaves .exitSched .exited

@[ext]
structure JoinView where
  pc : ℕ → Pc
  state : ℕ → ThreadState
  slot : ℕ → Option ℕ
  active : ℕ → Option ℕ
  init : ℕ
  created : ℕ

def Sched.joinView (s : Sched) : JoinView where
  pc := s.pc
  state t := (s.thread t).state
  slot t := (s.thread t).joiningThread
  active := s.activeThread
  init := s.initThread
  created := s.created

namespace JoinView

/-- States change only among those that nobody looks for. -/
def Soft (st st' : ℕ → ThreadState) : Prop :=
  ∀ t, st' t = st t ∨ (st t).plain = true ∧ (st' t).plain = true

/-- The statement a call begins with. -/
inductive Starts (v : JoinView) : Pc → Prop
  | returns : Starts v .run
  | blocks : Starts v .sched
  | waits (x : ℕ) (h : x < v.created) : Starts v (.waitDead x)
  | exits : Starts v .exitZombie

/-- The statements that store neither a state nor a joiner. -/
inductive Goes (v : JoinView) (t : ℕ) : Pc → Prop
  | isDead (x : ℕ) (hp : v.pc t = .waitDead x) : Goes v t .run
  | notDead (x : ℕ) (hp : v.pc t = .waitDead x) (h : v.state x ≠ .dead) : Goes v t (.waitZombie x)
  | isZombie (x : ℕ) (hp : v.pc t = .waitZombie x) (h : v.state x = .zombie) :
      Goes v t (.waitMarkDead x)
  | notZombie (x : ℕ) (hp : v.pc t = .waitZombie x) (h : v.state x ≠ .zombie) :
      Goes v t (.waitJoining x)
  | cleaned (x : ℕ) (hp : v.pc t = .waitClean x) : Goes v t .run
  | joined (x : ℕ) (hp : v.pc t = .waitResumed x) : Goes v t .run
  | isInit (hp : v.pc t = .exitTestInit) (h : t = v.init) : Goes v t .exitSched
  | notInit (hp : v.pc t = .exitTestInit) (h : t ≠ v.init) : Goes v t .exitEnter
  | enter (hp : v.pc t = .exitEnter) : Goes v t .exitPush
  | push (hp : v.pc t = .exitPush) : Goes v t .exitChildren
  | child (hp : v.pc t = .exitChildren) : Goes v t .exitChildren
  | childless (hp : v.pc t = .exitChildren) : Goes v t .exitDelete
  | delete (hp : v.pc t = .exitDelete) : Goes v t .exitSearch
  | search (r : Option ℕ) (hp : v.pc t = .exitSearch)
      (h : ∀ j, v.slot t = some j → (v.pc j).gone = false → r = some j) : Goes v t (.exitWake r)
  | wakeNone (hp : v.pc t = .exitWake none) : Goes v t .exitLeave
  | notJoining (j : ℕ) (hp : v.pc t = .exitWake (some j)) (h : v.state j ≠ .joining) :
      Goes v t .exitLeave
  | leave (hp : v.pc t = .exitLeave) : Goes v t .exitSched

/-- Whose statement a step is, or whom the timer interrupts. -/
inductive Label
  | stmt (t : ℕ)
  | timer (t : ℕ)
  | other

inductive Move (v : JoinView) : Label → JoinView → Prop
  | call (t p st) (hp : v.pc t = .run) (hq : v.Starts p) (hst : Soft v.state st) :
      Move v .other { v with pc := Function.update v.pc t p, state := st }
  | born (st act) (hst : st = .running ∨ st = .ready)
      (ha : ∀ c t, act c = some t → v.active c = some t ∨ t = v.created)
      (hk : ∀ c t, v.active c = some t → act c = some t) :
      Move v .other
        { v with
          pc := Function.update v.pc v.created .run
          state := Function.update v.state v.created st
          slot := Function.update v.slot v.created none
          active := act
          created := v.created + 1 }
  | switch (l c t p n st) (hc : v.active c = some t) (hl : Leaves (v.pc t) p)
      (hcrit : p.critical = false) (hwho : l = .timer t ∨ l = .stmt t)
      (hlab : p = v.pc t → l = .timer t) (hst : Soft v.state st) (hn : st n = .running) :
      Move v l
        { v with
          pc := Function.update v.pc t p
          state := st
          active := Function.update v.active c (some n) }
  | goes (c t p) (hc : v.active c = some t) (hp : v.Goes t p) :
      Move v (.stmt t) { v with pc := Function.update v.pc t p }
  | marks (c t x) (hc : v.active c = some t) (hp : v.pc t = .waitMarkDead x) :
      Move v (.stmt t)
        { v with
          pc := Function.update v.pc t (.waitClean x)
          state := Function.update v.state x .dead }
  | joins (c t x) (hc : v.active c = some t) (hp : v.pc t = .waitJoining x) :
      Move v (.stmt t)
        { v with
          pc := Function.update v.pc t (.waitRecord x)
          state := Function.update v.state t .joining }
  | records (c t x) (hc : v.active c = some t) (hp : v.pc t = .waitRecord x) :
      Move v (.stmt t)
        { v with
          pc := Function.update v.pc t (.waitSched x)
          slot := Function.update v.slot x (some t) }
  | exits (c t) (hc : v.active c = some t) (hp : v.pc t = .exitZombie) :
      Move v (.stmt t)
        { v with
          pc := Function.update v.pc t .exitTestInit
          state := Function.update v.state t .zombie }
  | wakes (c t j) (hc : v.active c = some t) (hp : v.pc t = .exitWake (some j))
      (h : v.state j = .joining) :
      Move v (.stmt t)
        { v with
          pc := Function.update v.pc t .exitLeave
          state := Function.update v.state j .ready }

/-- The thread is `THREAD_STATE_JOINING`, and recorded or to be so no more. -/
def Joins (v : JoinView) (j x : ℕ) : Prop :=
  v.state j = .joining ∧ (v.pc j = .waitSched x ∨ v.pc j = .waitResumed x)

instance (v : JoinView) (j x : ℕ) : Decidable (v.Joins j x) := inferInstanceAs (Decidable (_ ∧ _))

/-- The thread has tested `x` and will not test it again before it joins it. -/
def Committed (v : JoinView) (j x : ℕ) : Prop :=
  v.pc j = .waitJoining x ∨ v.pc j = .waitRecord x

instance (v : JoinView) (j x : ℕ) : Decidable (v.Committed j x) :=
  inferInstanceAs (Decidable (_ ∨ _))

/-- Nobody joins a thread that is done, and who joins one is recorded on it; unless that thread is
inside `thread_exit`. -/
def NoLostWakeup (v : JoinView) : Prop :=
  ∀ j x, v.Joins j x → (v.pc x).exiting = false →
    v.state x ≠ .zombie ∧ v.state x ≠ .dead ∧ v.slot x = some j

/-- The next statement of `t` does not miss a thread that waits for `x`: a joiner is recorded where
none is; `x` is marked dead with nobody between the two tests of its state, and looks for its joiner
with nobody between the test and the record; and init, which wakes up nobody, exits with nobody
waiting. -/
def MeetsJoiners (v : JoinView) (t x : ℕ) : Prop :=
  (v.pc t = .waitRecord x → v.slot x = none)
    ∧ (v.pc t = .waitMarkDead x → ∀ j < v.created, v.pc j ≠ .waitZombie x)
    ∧ (t = x → v.pc t = .exitSearch → ∀ j < v.created, ¬ v.Committed j x)
    ∧ (t = x → v.pc t = .exitZombie → x = v.init →
      ∀ j < v.created, ¬ v.Committed j x ∧ ¬ v.Joins j x)

set_option synthInstance.maxSize 256 in
instance (v : JoinView) (t x : ℕ) : Decidable (v.MeetsJoiners t x) :=
  inferInstanceAs (Decidable (_ ∧ _ ∧ _ ∧ _))

end JoinView

end RTLKIM
